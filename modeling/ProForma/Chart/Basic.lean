import ProForma.Fault

/-!
The chart of accounts: looking up accounts by identifier, by parent, by key line and by their part
in the cash flow. Of accounts with one identifier, or with one key line, the first counts.
-/

namespace ProForma

structure Chart (α : Type) where
  accounts : List (Account α)

namespace Chart

variable {α : Type}

def account? (chart : Chart α) (id : AccountId) : Option (Account α) :=
  chart.accounts.find? fun a => a.id = id

def account (chart : Chart α) (id : AccountId) : Except (Fault α) (Account α) :=
  match chart.account? id with
  | some a => .ok a
  | none => .error (.unknownAccount id.text)

def children (chart : Chart α) (id : AccountId) : List (Account α) :=
  chart.accounts.filter fun a => a.parent = some id

def key? (chart : Chart α) (key : KeyLine) : Option (Account α) :=
  chart.accounts.find? fun a => a.key = some key

def key (chart : Chart α) (key : KeyLine) : Except (Fault α) (Account α) :=
  match chart.key? key with
  | some a => .ok a
  | none => .error (.missingKeyLine key)

def parent? (chart : Chart α) (id : AccountId) : Option AccountId :=
  (chart.account? id).bind Account.parent

/-- An account, its parent, its parent's parent and so on, cut off after a number of accounts. -/
def lineage (chart : Chart α) : Nat → AccountId → List AccountId
  | 0, _ => []
  | steps + 1, id => id :: (chart.parent? id).elim [] (chart.lineage steps)

/-- The account is the ancestor itself or below it. A chain of parents that does not loop has at
most one identifier more than there are accounts. -/
def isUnder (chart : Chart α) (id ancestor : AccountId) : Bool :=
  ancestor ∈ chart.lineage (chart.accounts.length + 1) id

/-- Following the parents of an account leads back to it. -/
def loops (chart : Chart α) (a : Account α) : Bool :=
  a.parent.any fun parent => a.id ∈ chart.lineage chart.accounts.length parent

/-- The cash total and everything below it. -/
def isCash (chart : Chart α) (id : AccountId) : Bool :=
  (chart.key? .cashTotal).any fun cash => chart.isUnder id cash.id

def baseProfits (chart : Chart α) : List (Account α) :=
  chart.accounts.filter Account.isBaseProfit

/-- The flows that adjust a balance, with their adjustments. -/
def adjusters (chart : Chart α) : List (Account α × Adjustment) :=
  chart.accounts.filterMap fun a => a.adjustment.map (a, ·)

def adjustersOf (chart : Chart α) (target : AccountId) : List (Account α × Adjustment) :=
  chart.adjusters.filter fun entry => entry.2.target = target

/-- How an adjusting flow counts as cash, if its target stands on the balance sheet. -/
def adjustmentSign (chart : Chart α) (adjustment : Adjustment) : Option Sign :=
  ((chart.account? adjustment.target).bind Account.cashSign).map (· * adjustment.operation.sign)

/-- The stocks other than cash whose change enters the cash flow. -/
def cashFeeds (chart : Chart α) : List (Account α) :=
  chart.accounts.filter fun a => a.feedsCashFlow && a.isStock && !chart.isCash a.id

end Chart

end ProForma
