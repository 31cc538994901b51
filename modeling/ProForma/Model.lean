import ProForma.Chart.Basic
import ProForma.Ledger.Basic

/-!
Models: accounts, periods and the values recorded for them.
-/

namespace ProForma

structure Period where
  id : PeriodId
  label : String
  /-- Periods follow one another by increasing order. -/
  order : Int
  finish : Option Date
  isActual : Bool
  /-- Imported periods are history, which rules do not touch. -/
  isImported : Bool
deriving DecidableEq

namespace Period

def plain (id : PeriodId) (order : Int) : Period :=
  { id, label := id.text, order, finish := none, isActual := false, isImported := false }

def imported (id : PeriodId) (order : Int) : Period :=
  { plain id order with isActual := true, isImported := true }

/-- Orders have 64 bits, and this is the greatest one. -/
def greatestOrder : Int := 9223372036854775807

/-- The order after another one. After the greatest one comes the least. -/
def orderAfter (order : Int) : Int :=
  if order = greatestOrder then -9223372036854775808 else order + 1

/-- Puts a period before the first one that does not come earlier. -/
def place (p : Period) : List Period → List Period
  | [] => [p]
  | q :: periods => if p.order ≤ q.order then p :: q :: periods else q :: place p periods

/-- Periods by order. Those that share an order stay as they stand. -/
def inOrder (periods : List Period) : List Period :=
  periods.foldr place []

/-- The period with the greatest order; of several, the last. -/
def latest? (periods : List Period) : Option Period :=
  periods.foldl
    (fun best p => match best with
      | some b => if b.order ≤ p.order then some p else some b
      | none => some p)
    none

end Period

structure Settings (α : Type) where
  /-- How many sweeps over the summary lines there may be. -/
  passes : Nat
  /-- How far the two sides of a balance sheet may be apart. -/
  tolerance : α
  /-- An account that cannot be evaluated keeps its previous value instead of ending the pass. -/
  carriesForward : Bool
deriving DecidableEq

def Settings.standard : Settings Float :=
  { passes := 16, tolerance := 1e-6, carriesForward := true }

structure Model (α : Type) where
  name : String
  accounts : List (Account α)
  periods : List Period
  ledger : Ledger α
  settings : Settings α

namespace Model

variable {α : Type}

def chart (m : Model α) : Chart α :=
  ⟨m.accounts⟩

def period? (m : Model α) (id : PeriodId) : Option Period :=
  m.periods.find? fun p => p.id = id

def period (m : Model α) (id : PeriodId) : Except (Fault α) Period :=
  match m.period? id with
  | some p => .ok p
  | none => .error (.unknownPeriod id.text)

/-- The periods in the order in which they follow one another. -/
def timeline (m : Model α) : List Period :=
  Period.inOrder m.periods

def latestPeriod? (m : Model α) : Option Period :=
  Period.latest? m.periods

def periodBefore? (m : Model α) (id : PeriodId) : Option Period := do
  let current ← m.period? id
  Period.latest? (m.periods.filter fun p => p.order < current.order)

end Model

end ProForma
