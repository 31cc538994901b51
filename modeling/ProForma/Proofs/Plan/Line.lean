import ProForma.Proofs.Plan.Period
import ProForma.Proofs.Plan.Settle

/-!
# Settled lines

A summary line is settled if settling it once more leaves the ledger as it is. This depends on the
cell of the line and on the cells that its formula reads, and on no others, so a line stays settled
while other cells change. It needs no law of the comparison by which settling tells whether a line
has changed: a value that differs from itself is written again, but it is the same value.
-/

namespace ProForma

variable {α : Type}

/-! ### Lines -/

/-- A summary line in a period. -/
structure Line (α : Type) where
  period : Period
  position : Nat
  account : Account α

def Line.key (line : Line α) : CellKey :=
  ⟨line.account.id, line.period.id⟩

namespace Ledger

instance [DecidableEq α] : DecidableEq (Ledger α) := fun a b =>
  decidable_of_iff (a.entries = b.entries) (by cases a; cases b; simp)

/-- The ledger has the amount as a derived value, up to comparison. -/
def Holds [Amount α] (ledger : Ledger α) (key : CellKey) (x : α) : Prop :=
  Plan.agrees ledger key x = true ∨ ledger.cell? key = some ⟨x, true⟩

theorem Holds.congr [Amount α] {ledger ledger' : Ledger α} {key : CellKey} {x : α}
    (h : ledger.Holds key x) (hcell : ledger'.cell? key = ledger.cell? key) :
    ledger'.Holds key x := by
  unfold Holds Plan.agrees at h ⊢
  rwa [hcell]

theorem derive_eq_self_iff {ledger : Ledger α} {key : CellKey} {x : α} :
    ledger.derive key x = ledger ↔ ledger.cell? key = some ⟨x, true⟩ := by
  constructor
  · intro h
    rw [← h, cell?_derive, if_pos rfl]
  · intro h
    ext k : 1
    rw [cell?_derive]
    split
    · rename_i hk
      rw [hk, h]
    · rfl

end Ledger

namespace Plan

open Chart Formula Ledger

variable [Amount α] {plan : Plan α} {ledger ledger' : Ledger α} {line : Line α}

/-- What a line should be according to the ledger at hand, if it has a formula. -/
def asked (plan : Plan α) (ledger : Ledger α) (line : Line α) : Except (Fault α) (Option α) :=
  plan.target ledger line.position line.period line.account

theorem asked_eq_some_iff {y : α} : plan.asked ledger line = .ok (some y) ↔
    ∃ f, plan.chart.formula? (timing line.period line.position) line.account = .ok (some f) ∧
      f.value (plan.stored ledger) line.position = .ok y := by
  unfold asked target
  constructor
  · intro h
    obtain ⟨f?, hf, h⟩ := bind_eq_ok.1 h
    cases f? with
    | none => cases h
    | some f =>
        obtain ⟨value, hvalue, h⟩ := bind_eq_ok.1 h
        cases h
        exact ⟨f, hf, hvalue⟩
  · rintro ⟨f, hf, hvalue⟩
    exact bind_eq_ok.2 ⟨some f, hf, bind_eq_ok.2 ⟨y, hvalue, rfl⟩⟩

/-- Settling one line, whatever warnings it gives. -/
def settleLine (plan : Plan α) (ledger : Ledger α) (line : Line α) :
    Except (Fault α) (Ledger α) :=
  match plan.asked ledger line with
  | .ok none => .ok ledger
  | .ok (some x) => .ok (if agrees ledger line.key x then ledger else ledger.derive line.key x)
  | .error fault => if plan.isolates fault then .ok ledger else .error fault

/-- The line is what it should be. If its formula fails, that is worked around. -/
def Settled (plan : Plan α) (ledger : Ledger α) (line : Line α) : Prop :=
  match plan.asked ledger line with
  | .ok none => True
  | .ok (some x) => ledger.Holds line.key x
  | .error fault => plan.isolates fault = true

theorem settleLine_eq_self_iff :
    plan.settleLine ledger line = .ok ledger ↔ plan.Settled ledger line := by
  unfold settleLine Settled
  cases plan.asked ledger line with
  | error fault => simp
  | ok target =>
      cases target with
      | none => simp
      | some x =>
          dsimp only
          unfold Holds
          split
          · rename_i hagrees
            simp [hagrees]
          · rename_i hagrees
            simp [hagrees, derive_eq_self_iff]

theorem cell?_settleLine {key : CellKey} (h : plan.settleLine ledger line = .ok ledger')
    (hkey : key ≠ line.key) : ledger'.cell? key = ledger.cell? key := by
  unfold settleLine at h
  split at h
  · cases h
    rfl
  · cases h
    split
    · rfl
    · rw [cell?_derive, if_neg hkey]
  · split at h
    · cases h
      rfl
    · cases h

/-- What becomes of a cell when it is settled. A value that it should have is written into it,
unless it holds that value already. -/
def settledCell (held : Option (Cell α)) : Except (Fault α) (Option α) → Option (Cell α)
  | .ok (some x) =>
    if held.any fun cell => cell.value == x && cell.isCalculated then held else some ⟨x, true⟩
  | _ => held

theorem cell?_settleLine_self (h : plan.settleLine ledger line = .ok ledger') :
    ledger'.cell? line.key = settledCell (ledger.cell? line.key) (plan.asked ledger line) := by
  unfold settleLine at h
  split at h
  · rename_i hasked
    cases h
    rw [hasked]
    rfl
  · rename_i x hasked
    cases h
    rw [hasked, settledCell, apply_ite (fun next : Ledger α => next.cell? line.key), cell?_derive,
      if_pos rfl]
    rfl
  · rename_i fault hasked
    split at h
    · cases h
      rw [hasked]
      rfl
    · cases h

theorem asked_of_settledCell_ne {held : Option (Cell α)} {target : Except (Fault α) (Option α)}
    (h : settledCell held target ≠ held) :
    ∃ x, target = .ok (some x) ∧ settledCell held target = some ⟨x, true⟩ := by
  unfold settledCell at h ⊢
  split at h
  · split at h
    · exact absurd rfl h
    · rename_i x hagrees
      exact ⟨x, rfl, if_neg hagrees⟩
  · exact absurd rfl h

/-! ### What lines read -/

/-- The formula of a line does not read the cell. -/
def Ignores (plan : Plan α) (line : Line α) (key : CellKey) : Prop :=
  ∀ f, plan.chart.formula? (timing line.period line.position) line.account = .ok (some f) →
    ∀ r ∈ f.refs, ∀ p, plan.periodAt? (line.position - r.2) = some p →
      key ≠ ⟨r.1, p.id⟩

theorem asked_congr
    (h : ∀ key, ledger'.cell? key = ledger.cell? key ∨ plan.Ignores line key) :
    plan.asked ledger' line = plan.asked ledger line := by
  unfold asked target
  cases hf : plan.chart.formula? (timing line.period line.position) line.account with
  | error fault => rfl
  | ok f? =>
      cases f? with
      | none => rfl
      | some f =>
          have hvalue : f.value (plan.stored ledger') line.position =
              f.value (plan.stored ledger) line.position := by
            refine eval_congr fun r hr => congrArg pure ?_
            refine stored_congr r.1 fun p hp => ?_
            apply (h ⟨r.1, p.id⟩).resolve_right
            intro hignores
            exact hignores f hf r hr p hp rfl
          simp only [bind, Except.bind, hvalue]

/-- A line stays settled as long as its own cell and what it reads stay the same. -/
theorem Settled.congr (h : plan.Settled ledger line)
    (hself : ledger'.cell? line.key = ledger.cell? line.key)
    (hreads : ∀ key, ledger'.cell? key = ledger.cell? key ∨ plan.Ignores line key) :
    plan.Settled ledger' line := by
  unfold Settled at h ⊢
  rw [asked_congr hreads]
  cases hasked : plan.asked ledger line with
  | error fault =>
      rw [hasked] at h
      exact h
  | ok target =>
      rw [hasked] at h
      cases target with
      | none => trivial
      | some x => exact Holds.congr h hself

/-- Once it has been settled, a line that does not read its own cell is settled. -/
theorem settled_of_settleLine (hself : plan.Ignores line line.key)
    (h : plan.settleLine ledger line = .ok ledger') : plan.Settled ledger' line := by
  have hreads : ∀ key, ledger'.cell? key = ledger.cell? key ∨ plan.Ignores line key := by
    intro key
    by_cases hkey : key = line.key
    · exact .inr (hkey ▸ hself)
    · exact .inl (cell?_settleLine h hkey)
  unfold Settled
  rw [asked_congr hreads]
  unfold settleLine at h
  cases hasked : plan.asked ledger line with
  | error fault =>
      rw [hasked] at h
      dsimp only at h ⊢
      by_contra hisolates
      rw [if_neg hisolates] at h
      cases h
  | ok target =>
      rw [hasked] at h
      cases target with
      | none => trivial
      | some x =>
          cases h
          dsimp only
          split
          · rename_i hagrees
            exact .inl hagrees
          · right
            rw [cell?_derive, if_pos rfl]

theorem settled_iff_of_formula? {f : Formula α}
    (hf : plan.chart.formula? (timing line.period line.position) line.account = .ok (some f)) :
    plan.Settled ledger line ↔ match f.value (plan.stored ledger) line.position with
      | .ok x => ledger.Holds line.key x
      | .error fault => plan.isolates fault = true := by
  unfold Settled asked target
  rw [hf]
  dsimp only [bind, Except.bind]
  cases f.value (plan.stored ledger) line.position with
  | ok x => rfl
  | error fault => rfl

theorem settled_of_formula?_eq_none
    (hf : plan.chart.formula? (timing line.period line.position) line.account = .ok none) :
    plan.Settled ledger line := by
  unfold Settled asked target
  rw [hf]
  trivial

end Plan

end ProForma
