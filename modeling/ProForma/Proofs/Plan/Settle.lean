import ProForma.Plan.Settle
import ProForma.Proofs.Plan.Cell

/-!
# Faults in settling

Settling reads the ledger and nothing else, and its lines are accounts of the chart, so it ends only
with faults of formulas that are not worked around, and warns only of those that are.
-/

namespace ProForma

/-- What a warning is about, if it is about a fault. -/
def Warning.fault? {α : Type} : Warning α → Option (Fault α)
  | .carried _ _ fault _ => some fault
  | .skipped _ _ fault => some fault
  | .unsettled _ => none

/-- All warnings are good. -/
def Warned {α : Type} (good : Warning α → Prop) (warnings : List (Warning α)) : Prop :=
  ∀ warning ∈ warnings, good warning

theorem warned_nil {α : Type} (good : Warning α → Prop) : Warned good [] := by
  simp [Warned]

theorem Warned.append {α : Type} {good : Warning α → Prop} {warning : Warning α}
    (hgood : good warning) {warnings : List (Warning α)} (h : Warned good warnings) :
    Warned good (warnings ++ [warning]) := by
  intro other hother
  rcases List.mem_append.1 hother with hother | hother
  · exact h other hother
  · exact List.mem_singleton.1 hother ▸ hgood

theorem Pass.keeps_warn {α : Type} {good : Warning α → Prop} {allowed : Fault α → Prop}
    {warning : Warning α} (hgood : good warning) :
    Keeps (Warned good) allowed (Pass.warn warning) :=
  keeps_modify fun _ h => h.append hgood

namespace Plan

open Chart Formula

variable {α : Type} [Amount α] {plan : Plan α}

omit [Amount α] in
theorem account?_of_mem_derivedLines {a : Account α} (ha : a ∈ plan.derivedLines) :
    plan.chart.account? a.id = some a := by
  unfold derivedLines at ha
  obtain ⟨hmem, -⟩ := List.mem_filter.1 ha
  obtain ⟨id, -, hid⟩ := List.mem_filterMap.1 hmem
  obtain ⟨-, rfl⟩ := mem_of_account? hid
  exact hid

theorem target_eq_error (hplan : plan.Reviewed) {ledger : Ledger α} {position : Nat}
    {period : Period} {a : Account α} (ha : plan.chart.account? a.id = some a) {fault : Fault α}
    (h : plan.target ledger position period a = .error fault) :
    ∃ whole, fault = .divisionByZero whole := by
  obtain ⟨f?, hf⟩ := hplan.exists_formula? ha (timing period position)
  unfold target at h
  rw [hf] at h
  rcases bind_eq_error.1 h with h | ⟨f?', hsame, h⟩
  · cases h
  · cases hsame
    cases f? with
    | none => cases h
    | some f =>
        rcases bind_eq_error.1 h with h | ⟨value, -, h⟩
        · exact value_onlyDivides (proper_of_formula? hf) (plan.stored ledger) position fault h
        · cases h

section Warnings

variable {good : Warning α → Prop}
  (hskipped : ∀ account period whole, good (.skipped account period (.divisionByZero whole)))

include hskipped in
theorem keeps_settleCell (hplan : plan.Reviewed) (position : Nat) (period : Period)
    {a : Account α} (ha : a ∈ plan.derivedLines) (state : Ledger α × Bool) :
    Keeps (Warned good) plan.Escapes (plan.settleCell position period state a) := by
  unfold settleCell
  dsimp only
  split
  · exact keeps_pure state
  · exact keeps_pure _
  · rename_i fault hfault
    obtain ⟨whole, rfl⟩ := target_eq_error hplan (account?_of_mem_derivedLines ha) hfault
    split
    · exact (Pass.keeps_warn (hskipped _ _ _)).bind fun _ => keeps_pure state
    · rename_i hisolates
      exact keeps_throw ⟨⟨whole, rfl⟩, by simpa using hisolates⟩

include hskipped in
/-- Settling ends with no faults but those that are left over, and it warns of divisions by zero. -/
theorem keeps_settleIn (hunsettled : ∀ passes, good (.unsettled passes)) (hplan : plan.Reviewed)
    (periods : List (Period × Nat)) (passes : Nat) (ledger : Ledger α) :
    Keeps (Warned good) plan.Escapes (plan.settleIn periods passes ledger) := by
  induction passes generalizing ledger with
  | zero =>
      unfold settleIn
      exact (Pass.keeps_warn (hunsettled _)).bind fun _ => keeps_pure ledger
  | succ passes ih =>
      unfold settleIn
      have hsweep : Keeps (Warned good) plan.Escapes (plan.sweep periods ledger) := by
        refine Keeps.foldlM (fun entry _ state => ?_) _
        refine Keeps.foldlM (fun a ha state => ?_) _
        exact keeps_settleCell hskipped hplan entry.2 entry.1 ha state
      refine hsweep.bind fun (next, changed) => ?_
      dsimp only
      split
      · exact ih next
      · exact keeps_pure next

end Warnings

/-- Settling ends with no faults but those that are left over. -/
theorem failsOnly_settle (hplan : plan.Reviewed) (ledger : Ledger α) :
    FailsOnly plan.Escapes (plan.settle ledger) := by
  intro warnings
  have hkeeps : Keeps (Warned fun _ => True) plan.Escapes (plan.settle ledger) :=
    keeps_settleIn (fun _ _ _ => trivial) (fun _ => trivial) hplan _ _ ledger
  exact (hkeeps warnings fun _ _ => trivial).2

end Plan

end ProForma
