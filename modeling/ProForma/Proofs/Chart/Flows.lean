import ProForma.Proofs.Amount
import ProForma.Proofs.Chart.Precedence
import ProForma.Proofs.Formula.Value

/-!
# Flows into stocks

A stock without a rule rolls forward from the period before by the flows into it. A linked flow that
adjusts the stock counts once, by its adjustment. With rational amounts the formula comes to the
balance before and the signed sum of the flows.
-/

namespace ProForma

/-! ### Amounts -/

theorem Operation.lead_eq (operation : Operation) (x : ℚ) :
    operation.lead x = operation.sign.amount * x := by
  cases operation with
  | sub =>
      change 1 * -1 * x = -1 * x
      rw [one_mul]
  | add | mul | div => exact (one_mul x).symm

namespace Chart

variable {α : Type} {chart : Chart α} {a : Account α}

/-! ### Cash -/

theorem mem_lineage {ancestor : AccountId} (hchildren : chart.children ancestor = []) {steps : Nat}
    {id : AccountId} (h : ancestor ∈ chart.lineage steps id) : id = ancestor := by
  induction steps generalizing id with
  | zero => cases h
  | succ steps ih =>
      rw [lineage] at h
      rcases List.mem_cons.1 h with rfl | h
      · rfl
      · -- The next account up would be the childless one, and this one its child.
        exfalso
        cases hparent : chart.parent? id with
        | none =>
            rw [hparent] at h
            cases h
        | some parent =>
            rw [hparent] at h
            obtain rfl := ih h
            unfold parent? at hparent
            obtain ⟨child, hchild, hparent⟩ := Option.bind_eq_some_iff.1 hparent
            have hmem : child ∈ chart.children parent :=
              List.mem_filter.2 ⟨(mem_of_account? hchild).1, decide_eq_true hparent⟩
            rw [hchildren] at hmem
            cases hmem

/-- Without children, the cash total is all that counts as cash. -/
theorem isCash_iff {cash : Account α} (hcash : chart.key? .cashTotal = some cash)
    (hchildren : chart.children cash.id = []) {id : AccountId} :
    chart.isCash id = true ↔ id = cash.id := by
  unfold isCash isUnder
  rw [hcash]
  simp only [Option.any_some, decide_eq_true_eq]
  constructor
  · exact fun h => mem_lineage hchildren h
  · rintro rfl
    rw [lineage]
    exact List.mem_cons_self

/-! ### Flows -/

/-- The flows that adjust a stock, as terms of its balance. -/
def adjusting (chart : Chart α) (a : Account α) : List Term :=
  (chart.adjustersOf a.id).map fun entry => ⟨entry.1.id, entry.2.operation⟩

/-- Links that all adjust the stock themselves add nothing. -/
theorem flowsInto_eq_adjusting
    (h : ∀ link ∈ (a.relation.map Relation.links).getD [],
      ∃ entry ∈ chart.adjustersOf a.id, entry.1.id = link.account) :
    chart.flowsInto a = chart.adjusting a := by
  unfold flowsInto
  dsimp only
  generalize (a.relation.map Relation.links).getD [] = links at h
  induction links with
  | nil => rfl
  | cons link links ih =>
      obtain ⟨entry, hentry, hid⟩ := h link List.mem_cons_self
      have hany : (chart.adjusting a).any (·.account = link.account) = true :=
        List.any_eq_true.2 ⟨_, List.mem_map_of_mem hentry, decide_eq_true hid⟩
      rw [List.foldl_cons]
      unfold adjusting at hany
      rw [if_pos hany]
      exact ih fun other hother => h other (List.mem_cons_of_mem _ hother)

/-- Profit that does not adjust the earnings itself comes in besides. -/
theorem flowsInto_retainedEarnings {profit : AccountId}
    (hrelation : a.relation = some (.retainedEarnings profit))
    (h : ∀ entry ∈ chart.adjustersOf a.id, entry.1.id ≠ profit) :
    chart.flowsInto a = chart.adjusting a ++ [⟨profit, .add⟩] := by
  have hany : ¬ (chart.adjusting a).any (·.account = profit) = true := by
    rw [List.any_eq_true]
    rintro ⟨t, ht, hid⟩
    obtain ⟨entry, hentry, rfl⟩ := List.mem_map.1 ht
    exact h entry hentry (of_decide_eq_true hid)
  unfold flowsInto
  rw [hrelation]
  exact if_neg hany

end Chart

/-! ### Rolling forward -/

namespace Chart

variable {α : Type} [Amount α] {chart : Chart α} {a : Account α}

theorem formula?_eq_rollForward {timing : Timing} (htotal : a.total = none)
    (hstock : a.isStock = true) (hitem : a.isCashFlowItem = false)
    (hrule : a.parameter.rule = .none) (himported : timing.isImported = false)
    (hprevious : timing.hasPrevious = true) :
    chart.formula? timing a = .ok (some (chart.rollForward a)) := by
  unfold formula? ruleFormula
  rw [htotal]
  simp only [himported, hrule, hstock, hitem, hprevious]
  rfl

end Chart

namespace Chart

variable {chart : Chart ℚ} {table : AccountId → Int → ℚ} {position : Int}

/-- What flows amount to in a period. -/
def netFlow (amount : AccountId → ℚ) (flows : List Term) : ℚ :=
  (flows.map fun t => t.operation.sign.amount * amount t.account).sum

theorem value_rollForward (chart : Chart ℚ) (a : Account ℚ) :
    (chart.rollForward a).value table position =
      .ok (table a.id (position - 1) + netFlow (table · position) (chart.flowsInto a)) := by
  unfold rollForward
  split
  · rename_i hnone
    rw [hnone, Account.before, Formula.value_ref]
    simp [netFlow]
  · rename_i hsome
    have hparts : List.Forall₂ (fun f x => f.value table position = .ok x)
        (a.before :: (chart.flowsInto a).map fun t =>
          .leading t.operation (.ref t.account 0))
        (table a.id (position - 1) :: (chart.flowsInto a).map fun t =>
          t.operation.sign.amount * table t.account position) := by
      refine .cons (Formula.value_ref a.id 1) ?_
      rw [List.forall₂_map_left_iff, List.forall₂_map_right_iff, List.forall₂_same]
      intro t _
      rw [Formula.value_leading, Operation.lead_eq, Int.natCast_zero, Int.sub_zero]
    rw [Formula.value_sum hparts, ← List.sum_eq_foldl, List.sum_cons]
    rfl

end Chart

end ProForma
