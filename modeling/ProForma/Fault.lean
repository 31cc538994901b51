import ProForma.Account.Basic
import ProForma.Calendar.Span
import ProForma.Formula.Basic

/-!
What can go wrong with a model, and the words for it.
-/

namespace ProForma

/-- Why a record cannot be read. -/
inductive RecordFault where
  /-- Text that is no JSON, or a value of the wrong shape. -/
  | malformed
  | missingField (name : String)
  | unknownVariant (text : String) (expected : List String)
  | duplicateValue (cell : CellKey)
  | date (fault : Date.ReadFault)

/-- Ways in which the parts of a model do not fit together. -/
inductive Defect where
  | duplicateAccount
  | keyTaken (key : KeyLine) (holder : AccountId)
  | parentLoop
  | ruleOnTotal (rule : Rule)
  | underivedItem
  | itemRule (rule : Rule)
  | itemAdjusts
  | itemIsProfit
  | itemFeedsItem
  | reservedRule (rule : Rule)
  | adjustsNoBalance (target : AccountId)
  | feedsWithoutBalance
  | relationOnFlow
  | duplicatePeriod (period : PeriodId)
  | sharedOrder (first second : PeriodId) (order : Int)
  | emptyQuotient
  | nameTwice (name : String)
  | unknownOperation (text : String)
  | secondRelation
deriving DecidableEq

inductive Fault (α : Type) where
  | circular (account : AccountId)
  | divisionByZero (formula : Formula α)
  | missingReference (account : AccountId) (rule : Rule)
  | unknownRule (account : AccountId) (text : String)
  | missingRate (account : AccountId) (rule : Rule)
  | inconsistent (account : Option AccountId) (defect : Defect)
  | missingKeyLine (key : KeyLine)
  | unknownAccount (text : String)
  | unknownPeriod (text : String)
  | duplicateValue (cell : CellKey)
  | unbalanced (period : PeriodId) (assets claims difference : α)
  | date (fault : DateFault)
  | record (fault : RecordFault)

namespace Fault

variable {α : Type}

/-- Faults of one account, which a recompute can work around. -/
def isLocal : Fault α → Bool
  | .divisionByZero _ | .missingReference .. | .missingRate .. => true
  | _ => false

/-- A fault in the structure around one account. -/
def defect (account : AccountId) (d : Defect) : Fault α :=
  .inconsistent (some account) d

end Fault

/-! ### Words -/

def duplicateValueText (cell : CellKey) : String :=
  "Duplicate value for account '" ++ cell.account.text ++ "' in period '" ++ cell.period.text ++ "'"

namespace RecordFault

/-- What may be written, in back quotes. -/
def expectation (words : List String) : String :=
  match words.map fun word => "`" ++ word ++ "`" with
  | [first, second] => "expected " ++ first ++ " or " ++ second
  | quoted => "expected one of " ++ ", ".intercalate quoted

/-- The words for a fault; a malformed record has none of its own. -/
def message? : RecordFault → Option String
  | .malformed => none
  | .missingField name => some ("missing field `" ++ name ++ "`")
  | .unknownVariant text expected =>
    some ("unknown variant `" ++ text ++ "`, " ++ expectation expected)
  | .duplicateValue cell => some (duplicateValueText cell)
  | .date fault => some fault.message

end RecordFault

namespace Defect

def message : Defect → String
  | .duplicateAccount => "duplicate account id"
  | .keyTaken key holder => key.title ++ " is already classified on '" ++ holder.text ++ "'"
  | .parentLoop => "parent chain loops back to itself"
  | .ruleOnTotal rule => "summary account also carries a " ++ Tagged.tag rule ++ " parameter"
  | .underivedItem => "CF item has neither a cash-flow parameter nor an aggregation"
  | .itemRule rule => "CF item carries a " ++ Tagged.tag rule ++ " parameter"
  | .itemAdjusts => "CF item carries a CF adjustment"
  | .itemIsProfit => "CF item is flagged as base profit"
  | .itemFeedsItem => "CF item cannot generate another CF item"
  | .reservedRule rule => Tagged.tag rule ++ " is reserved for cash-flow items"
  | .adjustsNoBalance target =>
    "CF adjustment target '" ++ target.text ++ "' must be a balance-sheet stock account"
  | .feedsWithoutBalance => "only balance-sheet stock accounts can generate cash-flow items"
  | .relationOnFlow => "relations are carried by stock accounts"
  | .duplicatePeriod period => "duplicate period id '" ++ period.text ++ "'"
  | .sharedOrder first second order =>
    "periods '" ++ first.text ++ "' and '" ++ second.text ++ "' share order " ++ toString order
  | .emptyQuotient => "Div node without arguments"
  | .nameTwice name => "account name '" ++ name ++ "' is imported twice"
  | .unknownOperation text => "unknown operation '" ++ text ++ "'"
  | .secondRelation => "account already carries a relation"

end Defect

namespace Fault

private def amountText (x : Float) : String :=
  Decimal.Layout.plain.render x

private def accountText (account : AccountId) : String :=
  "Account '" ++ account.text ++ "'"

/-- The words for a fault, where the library has words of its own. -/
def message? : Fault Float → Option String
  | .circular account => some ("Circular dependency detected at account '" ++ account.text ++ "'")
  | .divisionByZero formula => some ("Division by zero while evaluating " ++ formula.text)
  | .missingReference account rule =>
    some (accountText account ++ " uses " ++ Tagged.tag rule ++
      " but has no reference account configured")
  | .unknownRule account text =>
    some (accountText account ++ " has unknown parameter type '" ++ text ++ "'")
  | .missingRate account rule =>
    some (accountText account ++ " uses " ++ Tagged.tag rule ++ " but has no parameter value")
  | .inconsistent account d =>
    let place := account.elim "" fun id => " at account '" ++ id.text ++ "'"
    some ("Inconsistent model structure" ++ place ++ ": " ++ d.message)
  | .missingKeyLine key => some ("No account is classified as " ++ key.title)
  | .unknownAccount text => some ("Unknown account: " ++ text)
  | .unknownPeriod text => some ("Unknown period: " ++ text)
  | .duplicateValue cell => some (duplicateValueText cell)
  | .unbalanced period assets claims difference =>
    some ("Balance sheet does not balance in period " ++ period.text ++ ": Assets (" ++
      amountText assets ++ ") != Liabilities + Equity (" ++ amountText claims ++
      "), difference " ++ amountText difference)
  | .date fault => some ("Date calculation error: " ++ fault.message)
  | .record fault => fault.message?.map ("Serialization error: " ++ ·)

end Fault

end ProForma
