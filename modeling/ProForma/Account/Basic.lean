import ProForma.Account.Rule
import ProForma.Identifier
import ProForma.Operation

/-!
Accounts: what they hold, how they are derived and how they take part in the cash flow.
-/

namespace ProForma

/-- A flow is activity over a period; a stock is a balance at its end. -/
inductive Nature where
  | flow
  | stock
deriving DecidableEq

instance : Tagged Nature where
  all := [.flow, .stock]
  tag
    | .flow => "Flow"
    | .stock => "Stock"

/-- Assets are debit balances; liabilities and equity are credit balances. -/
inductive Side where
  | debit
  | credit
deriving DecidableEq

namespace Side

/-- An increase of a liability brings cash in, one of an asset takes it out. -/
def cashSign : Side → Sign
  | .debit => .minus
  | .credit => .plus

end Side

/-- The parts of a cash-flow statement. -/
inductive Activity where
  | operating
  | investing
  | financing
deriving DecidableEq

instance : Tagged Activity where
  all := [.operating, .investing, .financing]
  tag
    | .operating => "OPERATING"
    | .investing => "INVESTING"
    | .financing => "FINANCING"

/-- Lines that are looked up by what they are and not by their identifier. -/
inductive KeyLine where
  | revenueTotal
  | costOfSalesTotal
  | grossProfit
  | operatingProfit
  | assetTotal
  | liabilityTotal
  | equityTotal
  | liabilitiesAndEquityTotal
  | cashTotal
  | cashBeginningBalance
  | cashChange
  | cashEndingBalance
deriving DecidableEq

namespace KeyLine

instance : Tagged KeyLine where
  all :=
    [.revenueTotal, .costOfSalesTotal, .grossProfit, .operatingProfit, .assetTotal,
      .liabilityTotal, .equityTotal, .liabilitiesAndEquityTotal, .cashTotal,
      .cashBeginningBalance, .cashChange, .cashEndingBalance]
  tag
    | .revenueTotal => "REVENUE_TOTAL"
    | .costOfSalesTotal => "COST_OF_SALES_TOTAL"
    | .grossProfit => "GROSS_PROFIT"
    | .operatingProfit => "OPERATING_PROFIT"
    | .assetTotal => "ASSET_TOTAL"
    | .liabilityTotal => "LIABILITY_TOTAL"
    | .equityTotal => "EQUITY_TOTAL"
    | .liabilitiesAndEquityTotal => "LIABILITIES_AND_EQUITY_TOTAL"
    | .cashTotal => "CASH_TOTAL"
    | .cashBeginningBalance => "CASH_BEGINNING_BALANCE"
    | .cashChange => "CASH_CHANGE"
    | .cashEndingBalance => "CASH_ENDING_BALANCE"

/-- The line as messages name it. -/
def title : KeyLine → String
  | .revenueTotal => "RevenueTotal"
  | .costOfSalesTotal => "CostOfSalesTotal"
  | .grossProfit => "GrossProfit"
  | .operatingProfit => "OperatingProfit"
  | .assetTotal => "AssetTotal"
  | .liabilityTotal => "LiabilityTotal"
  | .equityTotal => "EquityTotal"
  | .liabilitiesAndEquityTotal => "LiabilitiesAndEquityTotal"
  | .cashTotal => "CashTotal"
  | .cashBeginningBalance => "CashBeginningBalance"
  | .cashChange => "CashChange"
  | .cashEndingBalance => "CashEndingBalance"

end KeyLine

/-- Another account's value, `lag` periods back, and how it enters a calculation. -/
structure Reference where
  account : AccountId
  operation : Operation
  lag : Nat
deriving DecidableEq

/-- A reference to the same period that is added. -/
def Reference.to (account : AccountId) : Reference :=
  ⟨account, .add, 0⟩

/-- How an account's forecast value is derived. -/
structure Parameter (α : Type) where
  rule : Rule
  /-- A rate or share, as a fraction of one. -/
  rate : Option α
  references : List Reference
deriving DecidableEq

namespace Parameter

variable {α : Type}

def none : Parameter α := ⟨.none, .none, []⟩

def growthRate (rate : α) : Parameter α := ⟨.growthRate, some rate, []⟩

def percentage (share : α) (account : AccountId) : Parameter α :=
  ⟨.percentage, some share, [.to account]⟩

def proportionate (account : AccountId) : Parameter α := ⟨.proportionate, .none, [.to account]⟩

def calculation (references : List Reference) : Parameter α := ⟨.calculation, .none, references⟩

def reference (account : AccountId) : Parameter α := ⟨.reference, .none, [.to account]⟩

def fixedValue : Parameter α := ⟨.fixedValue, .none, []⟩

def balanceChange (account : AccountId) (operation : Operation) : Parameter α :=
  ⟨.balanceChange, .none, [⟨account, operation, 0⟩]⟩

def adjustment (account : AccountId) (operation : Operation) : Parameter α :=
  ⟨.adjustment, .none, [⟨account, operation, 0⟩]⟩

def cashChange : Parameter α := ⟨.cashChange, .none, []⟩

def cashEnding (references : List Reference) : Parameter α := ⟨.cashEnding, .none, references⟩

def cashBeginning (cash : Option AccountId) : Parameter α :=
  ⟨.cashBeginning, .none, (cash.map .to).toList⟩

end Parameter

/-- The effect of a flow on the balance of a stock, and where it belongs in the cash flow. -/
structure Adjustment where
  target : AccountId
  operation : Operation
  activity : Activity
deriving DecidableEq

/-- One account in a total. -/
structure Term where
  account : AccountId
  operation : Operation
deriving DecidableEq

/-- How a summary line is made up of other lines of the same period. -/
inductive Total where
  | ofChildren
  | ofTerms (terms : List Term)
deriving DecidableEq

/-- Flows that move a stock from one period to the next. -/
inductive Relation where
  /-- Fixed assets grow by investment and shrink by depreciation. -/
  | fixedAsset (investment depreciation : AccountId)
  /-- Retained earnings grow by profit. -/
  | retainedEarnings (profit : AccountId)
deriving DecidableEq

namespace Relation

/-- The linked flows, with the way each one counts. -/
def links : Relation → List Term
  | .fixedAsset investment depreciation => [⟨investment, .add⟩, ⟨depreciation, .sub⟩]
  | .retainedEarnings profit => [⟨profit, .add⟩]

end Relation

structure Account (α : Type) where
  id : AccountId
  name : String
  nature : Nature
  parent : Option AccountId
  total : Option Total
  key : Option KeyLine
  parameter : Parameter α
  /-- The side of the balance sheet, for accounts that stand on it. -/
  side : Option Side
  isCashFlowItem : Bool
  adjustment : Option Adjustment
  isBaseProfit : Bool
  /-- The change of this stock over a period enters the cash flow. -/
  feedsCashFlow : Bool
  relation : Option Relation
deriving DecidableEq

namespace Account

variable {α : Type}

/-- An account with nothing but its name. -/
def plain (id : AccountId) (name : String) (nature : Nature) : Account α :=
  { id, name, nature
    parent := none
    total := none
    key := none
    parameter := .none
    side := none
    isCashFlowItem := false
    adjustment := none
    isBaseProfit := false
    feedsCashFlow := false
    relation := none }

def flow (id : AccountId) (name : String) : Account α :=
  plain id name .flow

def stock (id : AccountId) (name : String) (side : Side) : Account α :=
  { plain id name .stock with side := some side }

def cashFlowItem (id : AccountId) (name : String) (parameter : Parameter α) : Account α :=
  { (plain id name .flow : Account α) with isCashFlowItem := true, parameter }

def isStock (a : Account α) : Bool :=
  a.nature = .stock

def isChildrenTotal (a : Account α) : Bool :=
  a.total = some .ofChildren

/-- Summary lines and cash-flow items follow from other accounts altogether. -/
def isDerived (a : Account α) : Bool :=
  a.total.isSome || a.isCashFlowItem

/-- How an increase of the balance counts as cash. -/
def cashSign (a : Account α) : Option Sign :=
  a.side.map Side.cashSign

/-- A stock that stands on one side of the balance sheet. -/
def isBalance (a : Account α) : Bool :=
  a.isStock && a.side.isSome

end Account

end ProForma
