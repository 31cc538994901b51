import Mathlib.Logic.Relation
import ProForma.Proofs.Chart.Precedence

/-!
# Charts that differ in one parameter

The formula of an account reads its own parameter, but no other account's: of the others it takes
the identifiers, the parents, the key lines and their parts in the cash flow. So giving one account
another parameter changes the formula of this account only.
-/

namespace ProForma

variable {α : Type} {x : AccountId} {parameter : Parameter α}

/-- The account with another parameter, if it has the identifier. -/
def Account.reassign (x : AccountId) (parameter : Parameter α) (a : Account α) : Account α :=
  { a with parameter := if a.id = x then parameter else a.parameter }

theorem Account.reassign_of_ne {a : Account α} (h : a.id ≠ x) : a.reassign x parameter = a := by
  rw [reassign, if_neg h]

namespace Chart

variable {chart : Chart α}

/-- The chart in which an account has another parameter. -/
def reassign (chart : Chart α) (x : AccountId) (parameter : Parameter α) : Chart α :=
  ⟨chart.accounts.map (Account.reassign x parameter)⟩

/-! ### Looking up accounts -/

theorem account?_reassign (id : AccountId) :
    (chart.reassign x parameter).account? id =
      (chart.account? id).map (Account.reassign x parameter) :=
  List.find?_map

theorem account?_reassign_of_ne {id : AccountId} (h : id ≠ x) :
    (chart.reassign x parameter).account? id = chart.account? id := by
  rw [account?_reassign]
  rcases ha : chart.account? id with _ | a
  · rfl
  · obtain ⟨-, rfl⟩ := mem_of_account? ha
    rw [Option.map_some, Account.reassign_of_ne h]

theorem key?_reassign (key : KeyLine) :
    (chart.reassign x parameter).key? key =
      (chart.key? key).map (Account.reassign x parameter) :=
  List.find?_map

theorem children_reassign (id : AccountId) :
    (chart.reassign x parameter).children id =
      (chart.children id).map (Account.reassign x parameter) :=
  List.filter_map

theorem baseProfits_reassign :
    (chart.reassign x parameter).baseProfits =
      chart.baseProfits.map (Account.reassign x parameter) :=
  List.filter_map

theorem lineage_reassign (steps : Nat) (id : AccountId) :
    (chart.reassign x parameter).lineage steps id = chart.lineage steps id := by
  induction steps generalizing id with
  | zero => rfl
  | succ steps ih =>
      have hparent : (chart.reassign x parameter).parent? id = chart.parent? id := by
        unfold parent?
        rw [account?_reassign, Option.bind_map]
        rfl
      unfold lineage
      rw [hparent]
      rcases chart.parent? id with _ | parent
      · rfl
      · exact congrArg (id :: ·) (ih parent)

theorem isCash_reassign (id : AccountId) :
    (chart.reassign x parameter).isCash id = chart.isCash id := by
  have hlength : (chart.reassign x parameter).accounts.length = chart.accounts.length :=
    List.length_map _
  unfold isCash isUnder
  simp only [key?_reassign, lineage_reassign, hlength, Option.any_map]
  rfl

theorem adjusters_reassign :
    (chart.reassign x parameter).adjusters =
      chart.adjusters.map (Prod.map (Account.reassign x parameter) id) := by
  unfold adjusters reassign
  rw [List.filterMap_map, List.map_filterMap]
  congr 1
  funext a
  rw [Option.map_map]
  rfl

theorem adjustmentSign_reassign (adjustment : Adjustment) :
    (chart.reassign x parameter).adjustmentSign adjustment = chart.adjustmentSign adjustment := by
  unfold adjustmentSign
  rw [account?_reassign, Option.bind_map]
  rfl

theorem cashFeeds_reassign :
    (chart.reassign x parameter).cashFeeds =
      chart.cashFeeds.map (Account.reassign x parameter) := by
  unfold cashFeeds
  simp only [isCash_reassign]
  exact List.filter_map

/-! ### Formulas -/

variable [Amount α]

theorem totalFormula?_reassign (a : Account α) (total : Total) :
    (chart.reassign x parameter).totalFormula? a total = chart.totalFormula? a total := by
  cases total with
  | ofTerms terms => rfl
  | ofChildren =>
      unfold totalFormula?
      rw [children_reassign]
      rcases chart.children a.id with _ | ⟨child, children⟩
      · rfl
      · simp only [List.map_cons, List.map_map]
        rfl

theorem cashChangeFormula_reassign :
    (chart.reassign x parameter).cashChangeFormula = chart.cashChangeFormula := by
  unfold cashChangeFormula
  rw [baseProfits_reassign, adjusters_reassign, cashFeeds_reassign]
  simp only [List.map_map, List.filterMap_map, adjustmentSign_reassign]
  rfl

theorem rollForward_reassign (a : Account α) :
    (chart.reassign x parameter).rollForward a = chart.rollForward a := by
  have hflows : (chart.reassign x parameter).flowsInto a = chart.flowsInto a := by
    unfold flowsInto adjustersOf
    rw [adjusters_reassign, List.filter_map, List.map_map]
    rfl
  rw [rollForward, rollForward, hflows]

/-- The parameters of other accounts have no part in the formula of an account. -/
theorem formula?_reassign (timing : Timing) (a : Account α) :
    (chart.reassign x parameter).formula? timing a = chart.formula? timing a := by
  have hrule (hasPrevious : Bool) :
      (chart.reassign x parameter).ruleFormula hasPrevious a = chart.ruleFormula hasPrevious a := by
    unfold ruleFormula
    rw [rollForward_reassign, cashChangeFormula_reassign, key?_reassign]
    cases a.parameter.rule with
    | cashBeginning =>
        rcases a.parameter.references.head? with _ | r <;>
          rcases chart.key? .cashTotal with _ | cash
        all_goals rfl
    | _ => rfl
  unfold formula?
  simp only [totalFormula?_reassign, hrule]

/-! ### What formulas refer to -/

/-- What the formula of an account refers to, in its own and in earlier periods, when it has its
full shape. -/
def steadyRefs (chart : Chart α) (a : Account α) : List AccountId :=
  match chart.formula? .steady a with
  | .ok (some f) => f.refs.map Prod.fst
  | _ => []

theorem mem_steadyRefs {timing : Timing} {a : Account α} {f : Formula α}
    (hf : chart.formula? timing a = .ok (some f)) {r : AccountId × Nat} (hr : r ∈ f.refs) :
    r.1 ∈ chart.steadyRefs a := by
  rw [steadyRefs, formula?_steady_of_eq_some hf]
  exact List.mem_map_of_mem hr

/-- One account refers to the other. -/
def Refers (chart : Chart α) (source target : AccountId) : Prop :=
  ∃ a ∈ chart.accounts, a.id = source ∧ target ∈ chart.steadyRefs a

end Chart

end ProForma
