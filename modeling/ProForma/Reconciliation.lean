import ProForma.Chart.Derivation
import ProForma.Model

/-!
Reconciliation of cash by the indirect method. The change of cash over a period is its profit,
plus the adjusting flows signed by the balances they adjust, plus the changes of the balances that
feed the cash flow signed by their own side.
-/

namespace ProForma

/-- One line of the change of cash. Profits and changes of balances belong to no activity. -/
structure Contribution (α : Type) where
  account : AccountId
  activity : Option Activity
  amount : α

structure Reconciliation (α : Type) where
  period : PeriodId
  beginning : α
  contributions : List (Contribution α)

namespace Reconciliation

variable {α : Type} [Amount α]

def change (r : Reconciliation α) : α :=
  Amount.total (r.contributions.map Contribution.amount)

def ending (r : Reconciliation α) : α :=
  r.beginning + r.change

/-- The part of the change that belongs to an activity. -/
def totalOf (r : Reconciliation α) (activity : Activity) : α :=
  Amount.total ((r.contributions.filter (·.activity = some activity)).map Contribution.amount)

/-- Profit: the operating profit line if there is one, or else the base profits. -/
def profits (chart : Chart α) (current : AccountId → α) : List (Contribution α) :=
  let accounts := match chart.key? .operatingProfit with
    | some profit => [profit]
    | none => chart.baseProfits
  accounts.map fun a => ⟨a.id, none, current a.id⟩

def adjustments (chart : Chart α) (current : AccountId → α) : List (Contribution α) :=
  chart.adjusters.filterMap fun (a, adjustment) =>
    (chart.adjustmentSign adjustment).map fun sign =>
      ⟨a.id, some adjustment.activity, sign.amount * current a.id⟩

def changes (chart : Chart α) (current previous : AccountId → α) : List (Contribution α) :=
  chart.cashFeeds.filterMap fun a =>
    a.cashSign.map fun sign => ⟨a.id, none, sign.amount * (current a.id - previous a.id)⟩

/-- Reconciles the cash of a period. In the first period cash begins at zero and balances have not
changed. -/
def of (m : Model α) (id : PeriodId) : Except (Fault α) (Reconciliation α) := do
  let period ← m.period id
  let cash ← m.chart.key .cashTotal
  let valuesIn (p : Period) (account : AccountId) : α := m.ledger.value ⟨account, p.id⟩
  let current := valuesIn period
  let previous := (m.periodBefore? id).map valuesIn
  pure
    { period := period.id
      beginning := previous.elim 0 (· cash.id)
      contributions :=
        profits m.chart current ++ adjustments m.chart current ++
          previous.elim [] (changes m.chart current) }

/-- The ledger with the cash lines of the period, where they are classified, and the cash total
written. -/
def written (r : Reconciliation α) (m : Model α) : Ledger α :=
  let lines : List (KeyLine × α) :=
    [(.cashBeginningBalance, r.beginning), (.cashChange, r.change), (.cashEndingBalance, r.ending),
      (.cashTotal, r.ending)]
  lines.foldl
    (fun ledger (key, value) => match m.chart.key? key with
      | some a => ledger.derive ⟨a.id, r.period⟩ value
      | none => ledger)
    m.ledger

end Reconciliation

end ProForma
