import Mathlib.Tactic.Ring
import ProForma.Proofs.CashChange

/-!
# What rules mean

Rules are written down as formulas, which are then evaluated. With rational amounts the way through
formulas leaves no trace: over whatever values of accounts, the formula of an account comes to what
its parameter declares, in the words of the parameter. A formula fails only where a growth is taken
from nothing, or where a calculation divides by a reference that is zero.
-/

namespace ProForma

variable {v : AccountId → Int → ℚ} {t : Int}

/-- What the reference refers to at a position. -/
def Reference.amount (v : AccountId → Int → ℚ) (t : Int) (r : Reference) : ℚ :=
  v r.account (t - r.lag)

/-- The evaluation ends with a division by zero. -/
def DividesByZero (outcome : Except (Fault ℚ) ℚ) : Prop :=
  ∃ whole, outcome = .error (.divisionByZero whole)

theorem not_dividesByZero_ok (x : ℚ) : ¬DividesByZero (.ok x) := by
  rintro ⟨whole, hwhole⟩
  cases hwhole

/-! ### Parts of formulas -/

namespace Formula

variable {f g : Formula ℚ} {x y : ℚ}

theorem value_ofReference (r : Reference) : (ofReference r).value v t = .ok (r.amount v t) :=
  value_ref r.account r.lag

/-- A division by zero is not made up for by what comes after it. -/
theorem dividesByZero_combine (operation : Operation) (g : Formula ℚ)
    (hf : DividesByZero (f.value v t)) : DividesByZero ((combine operation f g).value v t) := by
  obtain ⟨whole, hwhole⟩ := hf
  refine ⟨whole, ?_⟩
  rw [value_combine, hwhole]
  rfl

/-! ### References combined from the left -/

/-- A formula with references combined to it one after another. -/
def chain (f : Formula ℚ) (references : List Reference) : Formula ℚ :=
  references.foldl (fun acc r => .combine r.operation acc (.ofReference r)) f

theorem value_chain {references : List Reference} (hf : f.value v t = .ok x)
    (h : ∀ r ∈ references, r.operation = .div → r.amount v t ≠ 0) :
    (chain f references).value v t =
      .ok (references.foldl (fun acc r => r.operation.apply acc (r.amount v t)) x) := by
  induction references generalizing f x with
  | nil => exact hf
  | cons r references ih =>
      have hstep :=
        value_combine_eq_ok r.operation hf (value_ofReference r) (h r List.mem_cons_self)
      exact ih hstep fun other hother => h other (List.mem_cons_of_mem _ hother)

theorem dividesByZero_chain (references : List Reference) (hf : DividesByZero (f.value v t)) :
    DividesByZero ((chain f references).value v t) := by
  induction references generalizing f with
  | nil => exact hf
  | cons r references ih => exact ih (dividesByZero_combine r.operation _ hf)

/-- The chain breaks at its first division by zero. -/
theorem dividesByZero_chain_of_mem {references : List Reference} (hf : f.value v t = .ok x)
    (h : ∃ r ∈ references, r.operation = .div ∧ r.amount v t = 0) :
    DividesByZero ((chain f references).value v t) := by
  induction references generalizing f x with
  | nil =>
      obtain ⟨r, hr, -⟩ := h
      cases hr
  | cons r references ih =>
      by_cases hzero : r.operation = .div ∧ r.amount v t = 0
      · have hstep : DividesByZero ((combine r.operation f (.ofReference r)).value v t) := by
          refine ⟨combine r.operation f (.ofReference r), ?_⟩
          rw [value_combine, hf, value_ofReference, hzero.1, hzero.2]
          exact Operation.result_div_zero _ x
        exact dividesByZero_chain references hstep
      · obtain ⟨other, hother, hdiv⟩ := h
        have hmem : other ∈ references := by
          rcases List.mem_cons.1 hother with rfl | hmem
          · exact absurd hdiv hzero
          · exact hmem
        have hstep := value_combine_eq_ok r.operation hf (value_ofReference r) fun hop hy =>
          hzero ⟨hop, hy⟩
        exact ih hstep ⟨other, hmem, hdiv⟩

theorem dividesByZero_chain_iff {references : List Reference} (hf : f.value v t = .ok x) :
    DividesByZero ((chain f references).value v t) ↔
      ∃ r ∈ references, r.operation = .div ∧ r.amount v t = 0 := by
  refine ⟨fun hdivides => ?_, fun hzero => dividesByZero_chain_of_mem hf hzero⟩
  by_contra hnone
  have hvalue := value_chain hf fun r hr hop hy => hnone ⟨r, hr, hop, hy⟩
  rw [hvalue] at hdivides
  exact not_dividesByZero_ok _ hdivides

/-! ### Growth in proportion -/

/-- The formula for growth by the ratio of another account to its value before. -/
def proportion (f : Formula ℚ) (id : AccountId) : Formula ℚ :=
  let ratio := .combine .div (.ref id 0) (.ref id 1)
  .combine .mul f (.sum [.const 1, .combine .sub ratio (.const 1)])

theorem value_proportion (hf : f.value v t = .ok x) {id : AccountId} (h : v id (t - 1) ≠ 0) :
    (proportion f id).value v t = .ok (x * v id t / v id (t - 1)) := by
  have hratio : (combine .div (.ref id 0) (.ref id 1)).value v t = .ok (v id t / v id (t - 1)) :=
    value_combine_eq_ok .div (value_ref_zero id) (value_ref id 1) fun _ => h
  have hgrowth := value_combine_eq_ok .sub hratio (value_const 1) nofun
  have hsum := value_sum (.cons (value_const 1) (.cons hgrowth .nil))
  have hproduct := value_combine_eq_ok .mul hf hsum nofun
  rw [proportion, hproduct]
  simp only [Operation.apply, List.foldl_cons, List.foldl_nil]
  congr 1
  ring

theorem dividesByZero_proportion (hf : f.value v t = .ok x) {id : AccountId}
    (h : v id (t - 1) = 0) : DividesByZero ((proportion f id).value v t) := by
  have hratio : DividesByZero ((combine .div (.ref id 0) (.ref id 1)).value v t) := by
    refine ⟨combine .div (.ref id 0) (.ref id 1), ?_⟩
    rw [value_combine, value_ref_zero, value_ref, Int.natCast_one, h]
    exact Operation.result_div_zero _ (v id t)
  obtain ⟨whole, hgrowth⟩ := dividesByZero_combine .sub (.const 1) hratio
  refine ⟨whole, ?_⟩
  rw [proportion, value_combine, hf]
  unfold sum value
  simp only [eval, accumulate]
  unfold value at hgrowth
  rw [hgrowth]
  rfl

end Formula

/-! ### Declarations -/

namespace Chart

open Formula

variable {chart : Chart ℚ} {a : Account ℚ} {f : Formula ℚ}

/-- The outcome is the value that the parameter of the account declares at a position, where `v` is
what accounts are worth at all positions. -/
def Declares (chart : Chart ℚ) (a : Account ℚ) (v : AccountId → Int → ℚ) (t : Int)
    (outcome : Except (Fault ℚ) ℚ) : Prop :=
  let before := v a.id (t - 1)
  let references := a.parameter.references
  match a.parameter.rule with
  | .none => outcome = .ok (before + netFlow (v · t) (chart.flowsInto a))
  | .growthRate => ∃ rate, a.parameter.rate = some rate ∧ outcome = .ok (before * (1 + rate))
  | .percentage => ∃ r share, references.head? = some r ∧ a.parameter.rate = some share ∧
      outcome = .ok (share * v r.account (t - r.lag))
  | .proportionate => ∃ r, references.head? = some r ∧
      (DividesByZero outcome ↔ v r.account (t - 1) = 0) ∧
      (v r.account (t - 1) ≠ 0 →
        outcome = .ok (before * v r.account t / v r.account (t - 1)))
  | .calculation => ∃ first rest, references = first :: rest ∧
      (DividesByZero outcome ↔ ∃ r ∈ rest, r.operation = .div ∧ v r.account (t - r.lag) = 0) ∧
      ((∀ r ∈ rest, r.operation = .div → v r.account (t - r.lag) ≠ 0) →
        outcome = .ok (rest.foldl (fun acc r => r.operation.apply acc (v r.account (t - r.lag)))
          (first.operation.sign.amount * v first.account (t - first.lag))))
  | .reference => ∃ r, references.head? = some r ∧ outcome = .ok (v r.account (t - r.lag))
  | .fixedValue => outcome = .ok before
  | .balanceChange => ∃ r, references.head? = some r ∧
      outcome = .ok (r.operation.sign.amount * (v r.account t - v r.account (t - 1)))
  | .adjustment => ∃ r, references.head? = some r ∧
      outcome = .ok (r.operation.sign.amount * v r.account t)
  | .cashChange => outcome = .ok (
      (chart.baseProfits.map fun b => v b.id t).sum +
      ((Reconciliation.adjustments chart (v · t)).map Contribution.amount).sum +
      ((Reconciliation.changes chart (v · t) (v · (t - 1))).map Contribution.amount).sum)
  | .cashEnding => outcome = .ok
      (references.map fun r => r.operation.sign.amount * v r.account (t - r.lag)).sum
  | .cashBeginning => ∃ cash, outcome = .ok (v cash (t - 1)) ∧
      ((∃ r, references.head? = some r ∧ r.account = cash) ∨
        references = [] ∧ ∃ b, chart.key? .cashTotal = some b ∧ b.id = cash)

theorem value_signedSum (references : List Reference) :
    (sum (references.map fun r => .leading r.operation (.ofReference r))).value v t =
      .ok (references.map fun r => r.operation.sign.amount * r.amount v t).sum := by
  have hparts : List.Forall₂ (fun f x => f.value v t = .ok x)
      (references.map fun r => leading r.operation (.ofReference r))
      (references.map fun r => r.operation.sign.amount * r.amount v t) := by
    rw [List.forall₂_map_left_iff, List.forall₂_map_right_iff, List.forall₂_same]
    exact fun r _ => value_leading_eq_ok r.operation (value_ofReference r)
  rw [value_sum hparts, List.sum_eq_foldl]

theorem value_cashChangeFormula (chart : Chart ℚ) :
    chart.cashChangeFormula.value v t = .ok (
      (chart.baseProfits.map fun b => v b.id t).sum +
      ((Reconciliation.adjustments chart (v · t)).map Contribution.amount).sum +
      ((Reconciliation.changes chart (v · t) (v · (t - 1))).map Contribution.amount).sum) := by
  have hterms : List.Forall₂ (Reconciliation.ComesTo v t) _
      ((chart.baseProfits.map fun b => ⟨b.id, none, v b.id t⟩) ++
        Reconciliation.adjustments chart (v · t) ++
        Reconciliation.changes chart (v · t) (v · (t - 1))) :=
    List.rel_append (List.rel_append (Reconciliation.baseProfits_comeTo chart)
      Reconciliation.adjustments_comeTo) Reconciliation.changes_comeTo
  rw [cashChangeFormula, value_sum (List.forall₂_map_right_iff.2 hterms), ← List.sum_eq_foldl]
  simp [Function.comp_def, add_assoc]

theorem declares_of_derives (h : chart.Derives a f) (v : AccountId → Int → ℚ) (t : Int) :
    chart.Declares a v t (f.value v t) := by
  have hbefore : a.before.value v t = .ok (v a.id (t - 1)) := value_ref a.id 1
  unfold Declares
  cases h with
  | none hrule =>
      rw [hrule]
      exact chart.value_rollForward a
  | @growthRate rate hrule hrate =>
      rw [hrule]
      exact ⟨rate, hrate, value_combine_eq_ok .mul hbefore (value_const (1 + rate)) nofun⟩
  | @percentage r rest share hrule hreferences hrate =>
      have hproduct := value_combine_eq_ok .mul (value_ofReference (v := v) (t := t) r)
        (value_const share) nofun
      rw [hrule, hreferences]
      refine ⟨r, share, rfl, hrate, ?_⟩
      rw [hproduct]
      exact congrArg Except.ok (mul_comm _ _)
  | @proportionate r rest hrule hreferences =>
      rw [hrule, hreferences]
      refine ⟨r, rfl, ⟨fun hdivides => ?_, dividesByZero_proportion hbefore⟩,
        value_proportion hbefore⟩
      by_contra hne
      change DividesByZero ((proportion a.before r.account).value v t) at hdivides
      rw [value_proportion hbefore hne] at hdivides
      exact not_dividesByZero_ok _ hdivides
  | calculation hrule hf =>
      rw [hrule]
      cases hreferences : a.parameter.references with
      | nil =>
          rw [hreferences] at hf
          cases hf
      | cons first rest =>
          rw [hreferences, List.map_cons] at hf
          cases hf
          rw [List.foldl_map]
          have hfirst := value_leading_eq_ok first.operation
            (value_ofReference (v := v) (t := t) first)
          exact ⟨first, rest, rfl, dividesByZero_chain_iff hfirst, value_chain hfirst⟩
  | @reference r rest hrule hreferences =>
      rw [hrule, hreferences]
      exact ⟨r, rfl, value_ofReference r⟩
  | fixedValue hrule =>
      rw [hrule]
      exact hbefore
  | @balanceChange r rest hrule hreferences =>
      rw [hrule, hreferences]
      exact ⟨r, rfl, value_leading_eq_ok r.operation (value_change r.account)⟩
  | @adjustment r rest hrule hreferences =>
      rw [hrule, hreferences]
      exact ⟨r, rfl, value_leading_eq_ok r.operation (value_ref_zero r.account)⟩
  | cashChange hrule =>
      rw [hrule]
      exact value_cashChangeFormula chart
  | cashEnding hrule =>
      rw [hrule]
      exact value_signedSum a.parameter.references
  | @cashBeginning r rest hrule hreferences =>
      rw [hrule, hreferences]
      exact ⟨r.account, value_ref r.account 1, .inl ⟨r, rfl, rfl⟩⟩
  | @classifiedCash cash hrule hreferences hcash =>
      rw [hrule, hreferences]
      exact ⟨cash.id, value_ref cash.id 1, .inr ⟨rfl, cash, hcash, rfl⟩⟩

theorem exists_ok_of_declares {outcome : Except (Fault ℚ) ℚ} (h : chart.Declares a v t outcome)
    (hproportionate : a.parameter.rule ≠ .proportionate)
    (hcalculation : a.parameter.rule ≠ .calculation) : ∃ x, outcome = .ok x := by
  unfold Declares at h
  cases hrule : a.parameter.rule with
  | proportionate => exact absurd hrule hproportionate
  | calculation => exact absurd hrule hcalculation
  | none | fixedValue | cashChange | cashEnding =>
      rw [hrule] at h
      exact ⟨_, h⟩
  | growthRate | reference | balanceChange | adjustment =>
      rw [hrule] at h
      obtain ⟨_, -, h⟩ := h
      exact ⟨_, h⟩
  | percentage =>
      rw [hrule] at h
      obtain ⟨_, _, -, -, h⟩ := h
      exact ⟨_, h⟩
  | cashBeginning =>
      rw [hrule] at h
      obtain ⟨_, h, -⟩ := h
      exact ⟨_, h⟩

/-- **What rules mean.** The formula of an account that is no total comes to what the parameter
declares, over whatever values and at whatever position. If it fails, then with a division by zero,
in proportionate growth or in a calculation. -/
theorem value_declared (htotal : a.total = none) {timing : Timing}
    (hf : chart.formula? timing a = .ok (some f)) (v : AccountId → Int → ℚ) (t : Int) :
    chart.Declares a v t (f.value v t) ∧
    ∀ fault, f.value v t = .error fault → (∃ whole, fault = .divisionByZero whole) ∧
      (a.parameter.rule = .proportionate ∨ a.parameter.rule = .calculation) := by
  have hdeclares : chart.Declares a v t (f.value v t) := by
    rcases derives_of_formula? hf with ⟨total, hsome, -⟩ | ⟨-, hderives⟩
    · rw [htotal] at hsome
      cases hsome
    · exact declares_of_derives hderives v t
  refine ⟨hdeclares, fun fault hfault => ⟨?_, ?_⟩⟩
  · exact value_onlyDivides (proper_of_formula? hf) v t fault hfault
  · by_contra hrule
    obtain ⟨hproportionate, hcalculation⟩ := not_or.1 hrule
    obtain ⟨x, hx⟩ := exists_ok_of_declares hdeclares hproportionate hcalculation
    rw [hfault] at hx
    cases hx

/-- The labour of the period before, less fees, by the piece. -/
def piecePrice : Account ℚ :=
  { (Account.flow ⟨"price"⟩ "Price" : Account ℚ) with
    parameter := .calculation
      [⟨⟨"fees"⟩, .sub, 0⟩, ⟨⟨"labour"⟩, .add, 1⟩, ⟨⟨"pieces"⟩, .div, 0⟩] }

/-- The pieces grow with the position. -/
def pieceworks (account : AccountId) (t : Int) : ℚ :=
  if account = ⟨"fees"⟩ then 30 else if account = ⟨"labour"⟩ then 90 else t

theorem value_declared_piecePrice :
    piecePrice.total = none ∧ ∃ f,
      (⟨[piecePrice]⟩ : Chart ℚ).formula? .steady piecePrice = .ok (some f) ∧
      f.value pieceworks 3 = .ok 20 ∧ DividesByZero (f.value pieceworks 0) := by
  obtain ⟨f, hf⟩ : ∃ f, (⟨[piecePrice]⟩ : Chart ℚ).formula? .steady piecePrice = .ok (some f) :=
    ⟨_, rfl⟩
  obtain ⟨⟨first, rest, hreferences, -, hvalue⟩, -⟩ := value_declared rfl hf pieceworks 3
  obtain ⟨⟨first', rest', hreferences', hdivides, -⟩, -⟩ := value_declared rfl hf pieceworks 0
  cases hreferences
  cases hreferences'
  refine ⟨rfl, f, hf, ?_, hdivides.2 ⟨⟨⟨"pieces"⟩, .div, 0⟩, by simp, rfl, rfl⟩⟩
  rw [hvalue (by decide +kernel)]
  exact congrArg Except.ok (by decide +kernel)

end Chart

end ProForma
