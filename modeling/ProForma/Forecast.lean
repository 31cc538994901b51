import ProForma.BalanceSheet
import ProForma.Plan.Fill
import ProForma.Plan.Settle
import ProForma.Review

/-!
Forecasts: bringing the periods of a model up to date, and adding periods to it. A model that does
not pass review is refused before anything is computed.
-/

namespace ProForma.Model

variable {α : Type} [Amount α]

/-- The plan of a model that passes review. -/
def plan (m : Model α) : Except (Fault α) (Plan α) := do
  m.check
  Plan.of m

/-- The ledger with every period that was not imported filled in by rules. -/
def filled (m : Model α) : Pass α (Ledger α) := do
  (← m.plan).fill m.ledger

/-- The ledger with the summary lines settled. -/
def settled (m : Model α) : Pass α (Ledger α) := do
  (← m.plan).settle m.ledger

/-- Fills in the periods and settles the summary lines. -/
def refresh (m : Model α) : Pass α (Model α) := do
  let plan ← m.plan
  let ledger ← plan.fill m.ledger
  let ledger ← plan.settle ledger
  pure { m with ledger }

/-- Refreshes a model whose balance sheets then have to balance. -/
def refreshBalanced (m : Model α) : Pass α (Model α) := do
  let m ← m.refresh
  BalanceSheet.checkAll m
  pure m

/-! ### The next period -/

/-- Names for a period of some order, in the order in which they are tried. -/
def candidateId (order : Int) : Nat → PeriodId
  | 0 => ⟨"P" ++ toString order⟩
  | n + 1 => ⟨"P" ++ toString order ++ "_" ++ toString (n + 1)⟩

/-- The first candidate that no period has. There is one among as many candidates as there are
periods, and one more. -/
def freshId (m : Model α) (order : Int) : PeriodId :=
  let candidates := (List.range (m.periods.length + 1)).map (candidateId order)
  (candidates.find? fun id => m.periods.all (·.id ≠ id)).getD (candidateId order 0)

/-- The spacing of the last two periods in months, at least one; one if it is not known. -/
def cadence (timeline : List Period) (finish : Date) : Int :=
  match (timeline.dropLast.getLast?).bind Period.finish with
  | some previous => max 1 (previous.monthsUntil finish)
  | none => 1

/-- The period after the last one. It ends as long after the last one as that after the one
before. -/
def upcomingPeriod (m : Model α) : Except (Fault α) Period := do
  let timeline := m.timeline
  let last := timeline.getLast?
  let order := last.elim 0 fun p => Period.orderAfter p.order
  let period := Period.plain (m.freshId order) order
  match last.bind Period.finish with
  | none => pure period
  | some finish =>
    let months := cadence timeline finish
    match finish.advance? months with
    | some next => pure { period with label := next.monthLabel, finish := some next }
    | none => throw (.date (.cannotAdvance finish months))

/-- The ledger without the cells of the accounts in a period. -/
def vacated (m : Model α) (period : PeriodId) : Ledger α :=
  m.accounts.foldl (fun ledger a => ledger.erase ⟨a.id, period⟩) m.ledger

/-- Adds one period, fills it in and settles its summary lines. Whatever stands in its cells makes
way, also what was entered. The periods before it stay as they are. -/
def extend (m : Model α) : Pass α (Model α) := do
  m.check
  let period ← m.upcomingPeriod
  let extended : Model α := { m with periods := m.periods ++ [period] }
  let vacated := extended.vacated period.id
  let plan ← Plan.of extended
  let position ← plan.position period.id
  let ledger ← .ofComputation (plan.fillPeriod position period vacated)
  let ledger ← plan.settleIn [(period, position)] plan.settings.passes ledger
  pure { extended with ledger }

/-- Adds periods one after another. -/
def extendBy (m : Model α) : Nat → Pass α (Model α)
  | 0 => pure m
  | n + 1 => do (← m.extend).extendBy n

/-- Refreshes a model and adds periods to it. -/
def forecast (m : Model α) (periods : Nat) : Pass α (Model α) := do
  (← m.refresh).extendBy periods

end ProForma.Model
