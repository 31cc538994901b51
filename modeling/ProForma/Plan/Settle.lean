import ProForma.Formula.Evaluation
import ProForma.Plan.Basic

/-!
Settling summary lines and cash-flow items: sweeping over them, in all periods, until they agree
with what the ledger holds for the accounts they are made of.
-/

namespace ProForma.Plan

variable {α : Type} [Amount α]

/-- The lines to settle, in the order of computation. -/
def derivedLines (plan : Plan α) : List (Account α) :=
  (plan.order.filterMap plan.chart.account?).filter Account.isDerived

/-- The value that a line should have, if it has a formula. -/
def target (plan : Plan α) (ledger : Ledger α) (position : Nat) (period : Period)
    (a : Account α) : Except (Fault α) (Option α) := do
  match ← plan.chart.formula? (timing period position) a with
  | none => pure none
  | some f =>
    let value ← f.value (plan.stored ledger) position
    pure (some value)

/-- The ledger has the cell as a derived value that compares equal. -/
def agrees (ledger : Ledger α) (key : CellKey) (value : α) : Bool :=
  (ledger.cell? key).any fun cell => cell.value == value && cell.isCalculated

/-- Brings one line in one period up to date, and says whether anything has changed so far. -/
def settleCell (plan : Plan α) (position : Nat) (period : Period) (state : Ledger α × Bool)
    (a : Account α) : Pass α (Ledger α × Bool) :=
  let key : CellKey := ⟨a.id, period.id⟩
  match plan.target state.1 position period a with
  | .ok none => pure state
  | .ok (some value) =>
    pure (if agrees state.1 key value then state else (state.1.derive key value, true))
  | .error fault =>
    if plan.isolates fault then do
      Pass.warn (.skipped a.id period.id fault)
      pure state
    else throw fault

/-- Brings every line up to date once, period after period. -/
def sweep (plan : Plan α) (periods : List (Period × Nat)) (ledger : Ledger α) :
    Pass α (Ledger α × Bool) :=
  periods.foldlM
    (fun state (period, position) =>
      plan.derivedLines.foldlM (plan.settleCell position period) state)
    (ledger, false)

/-- Sweeps until nothing changes, but no more often than allowed. -/
def settleIn (plan : Plan α) (periods : List (Period × Nat)) : Nat → Ledger α → Pass α (Ledger α)
  | 0, ledger => do
    Pass.warn (.unsettled plan.settings.passes)
    pure ledger
  | passes + 1, ledger => do
    let (ledger, changed) ← plan.sweep periods ledger
    if changed then plan.settleIn periods passes ledger else pure ledger

/-- Settles the lines of all periods. -/
def settle (plan : Plan α) (ledger : Ledger α) : Pass α (Ledger α) :=
  plan.settleIn plan.timeline.zipIdx plan.settings.passes ledger

end ProForma.Plan
