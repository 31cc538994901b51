import ProForma.Formula.Evaluation
import ProForma.Plan.Basic

/-!
Filling in periods by their rules. Every account is computed in every period that was not
imported, on demand and at most once; values that were entered stay.
-/

namespace ProForma.Plan

variable {α : Type} [Amount α]

/-- Computing cells, with the warnings on record. -/
abbrev Filling (α : Type) := Computation (List (Warning α)) α

/-- The value of an account without a formula. A summary line and an account in the first period
keep what they hold; any other account carries its value forward. -/
def held (plan : Plan α) (ledger : Ledger α) (position : Nat) (period : Period) (a : Account α) :
    α :=
  let before := plan.carried ledger a.id position
  if position = 0 ∨ a.total.isSome then (ledger.value? ⟨a.id, period.id⟩).getD before else before

/-- The value of an account at a position, over any way `read` of reading other accounts at the same
position. Earlier periods are read from the ledger. An account that is not in the chart is read
there too. -/
def derive {m : Type → Type} [Monad m] [MonadExceptOf (Fault α) m] (plan : Plan α)
    (ledger : Ledger α) (position : Nat) (period : Period) (read : AccountId → m α)
    (id : AccountId) : m α :=
  let key : CellKey := ⟨id, period.id⟩
  match plan.chart.account? id with
  | none => pure (ledger.value key)
  | some a =>
    if ledger.isEntered key then pure (ledger.value key)
    else
      match plan.chart.formula? (timing period position) a with
      | .error fault => throw fault
      | .ok none => pure (plan.held ledger position period a)
      | .ok (some f) =>
        f.eval
          (fun ref t => if t = position then read ref else pure (plan.stored ledger ref t))
          position

/-- Replaces a failure that the model works around by the value of the period before. -/
def orCarried (plan : Plan α) (ledger : Ledger α) (position : Nat) (period : Period)
    (id : AccountId) (computed : Filling α α) : Filling α α :=
  tryCatch computed fun fault =>
    if plan.isolates fault then do
      let value := plan.carried ledger id position
      Memo.note (· ++ [.carried id period.id fault value])
      pure value
    else throw fault

/-- The value of a cell, out of the memo or computed. The cells that are being computed belong to
distinct accounts of the chart, so `fuel` for one step more than there are accounts is enough. -/
def cell (plan : Plan α) (ledger : Ledger α) (position : Nat) (period : Period) :
    Nat → AccountId → Filling α α
  | 0, id => throw (.circular id)
  | fuel + 1, id =>
    Memo.demand ⟨id, position⟩
      (plan.orCarried ledger position period id
        (plan.derive ledger position period (plan.cell ledger position period fuel) id))

/-- Computes one account in a period, unless its value was entered. -/
def fillCell (plan : Plan α) (position : Nat) (period : Period) (ledger : Ledger α)
    (id : AccountId) : Filling α (Ledger α) :=
  if ledger.isEntered ⟨id, period.id⟩ then pure ledger
  else do
    let value ← plan.cell ledger position period (plan.chart.accounts.length + 1) id
    pure (ledger.derive ⟨id, period.id⟩ value)

/-- Computes every account in a period. -/
def fillPeriod (plan : Plan α) (position : Nat) (period : Period) (ledger : Ledger α) :
    Filling α (Ledger α) :=
  plan.order.foldlM (plan.fillCell position period) ledger

/-- Computes every period that was not imported, in order. -/
def fill (plan : Plan α) (ledger : Ledger α) : Pass α (Ledger α) :=
  .ofComputation <| plan.timeline.zipIdx.foldlM
    (fun ledger (period, position) =>
      if period.isImported then pure ledger else plan.fillPeriod position period ledger)
    ledger

end ProForma.Plan
