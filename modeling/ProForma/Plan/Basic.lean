import ProForma.Chart.Precedence
import ProForma.Memo.Basic
import ProForma.Model

/-!
Plans: what a pass over a model needs, set up once. Passes give warnings about what they work
around, and keep them also when they fail.
-/

namespace ProForma

/-- What a pass works around. -/
inductive Warning (α : Type) where
  /-- An account failed and carries a value forward. -/
  | carried (account : AccountId) (period : PeriodId) (fault : Fault α) (value : α)
  /-- A summary line failed and stays as it was. -/
  | skipped (account : AccountId) (period : PeriodId) (fault : Fault α)
  /-- The last sweep that was allowed still changed something, or none was allowed. -/
  | unsettled (passes : Nat)

namespace Warning

def message : Warning Float → String
  | .carried account period fault value =>
    "Account '" ++ account.text ++ "' failed in period '" ++ period.text ++ "': " ++
      fault.message?.getD "" ++ ". Carrying " ++ Decimal.Layout.plain.render value ++ " forward"
  | .skipped account period fault =>
    "Summary '" ++ account.text ++ "' failed in period '" ++ period.text ++ "': " ++
      fault.message?.getD ""
  | .unsettled passes => "Summary totals still changing after " ++ toString passes ++ " passes"

end Warning

/-- A step of work on a model, which may fail and gives warnings. -/
abbrev Pass (α : Type) := ExceptT (Fault α) (StateM (List (Warning α)))

namespace Pass

variable {α β : Type}

def warn (warning : Warning α) : Pass α Unit :=
  modify (· ++ [warning])

/-- Does the work, and lists the warnings. -/
def outcome (pass : Pass α β) : Except (Fault α) β × List (Warning α) :=
  pass.run []

def result (pass : Pass α β) : Except (Fault α) β :=
  pass.outcome.1

/-- Runs computations over a memo of their own. -/
def ofComputation (c : Computation (List (Warning α)) α β) : Pass α β :=
  ExceptT.mk fun warnings =>
    let (result, _, warnings) := c.run (Memo.empty, warnings)
    (result, warnings)

end Pass

structure Plan (α : Type) where
  chart : Chart α
  timeline : List Period
  settings : Settings α
  /-- The accounts, each after those it is computed from. -/
  order : List AccountId

namespace Plan

variable {α : Type} [Amount α]

/-- The plan of a model. There is none if accounts wait for one another. -/
def of (m : Model α) : Except (Fault α) (Plan α) := do
  let order ← m.chart.order
  pure { chart := m.chart, timeline := m.timeline, settings := m.settings, order }

/-- The period at a position. Negative positions lie before the first one. -/
def periodAt? (plan : Plan α) (position : Int) : Option Period :=
  if 0 ≤ position then plan.timeline[position.toNat]? else none

/-- The position of the period with an identifier. -/
def position (plan : Plan α) (id : PeriodId) : Except (Fault α) Nat :=
  match plan.timeline.findIdx? (·.id = id) with
  | some position => .ok position
  | none => .error (.unknownPeriod id.text)

/-- What the ledger holds for an account at a position; zero where there is no period or value. -/
def stored (plan : Plan α) (ledger : Ledger α) (account : AccountId) (position : Int) : α :=
  match plan.periodAt? position with
  | some p => ledger.value ⟨account, p.id⟩
  | none => 0

/-- What an account held in the period before a position. -/
def carried (plan : Plan α) (ledger : Ledger α) (account : AccountId) (position : Int) : α :=
  plan.stored ledger account (position - 1)

def timing (period : Period) (position : Nat) : Timing :=
  { isImported := period.isImported, hasPrevious := decide (0 < position) }

/-- The model works around this fault. -/
def isolates (plan : Plan α) (fault : Fault α) : Bool :=
  fault.isLocal && plan.settings.carriesForward

end Plan

end ProForma
