import ProForma.Model

/-!
The balance sheet: assets against liabilities and equity.
-/

namespace ProForma

structure BalanceSheet (α : Type) where
  period : PeriodId
  assets : α
  /-- Liabilities and equity. -/
  claims : α

namespace BalanceSheet

variable {α : Type} [Amount α]

def difference (sheet : BalanceSheet α) : α :=
  sheet.assets - sheet.claims

/-- The totals of a period. Without a combined line for liabilities and equity the two are added. -/
def of (m : Model α) (period : PeriodId) : Except (Fault α) (BalanceSheet α) := do
  let _ ← m.period period
  let valueOf (a : Account α) : α := m.ledger.value ⟨a.id, period⟩
  let assets ← m.chart.key .assetTotal
  match m.chart.key? .liabilitiesAndEquityTotal with
  | some claims => pure ⟨period, valueOf assets, valueOf claims⟩
  | none =>
    let liabilities ← m.chart.key .liabilityTotal
    let equity ← m.chart.key .equityTotal
    pure ⟨period, valueOf assets, valueOf liabilities + valueOf equity⟩

/-- The totals of a period, which have to agree within the model's tolerance. -/
def balanced (m : Model α) (period : PeriodId) : Except (Fault α) (BalanceSheet α) := do
  let sheet ← of m period
  if Amount.within m.settings.tolerance sheet.assets sheet.claims then pure sheet
  else throw (.unbalanced period sheet.assets sheet.claims sheet.difference)

/-- Checks the balance sheets of all periods, in order. -/
def checkAll (m : Model α) : Except (Fault α) Unit :=
  m.timeline.forM fun p => do let _ ← balanced m p.id

end BalanceSheet

end ProForma
