import ProForma.Tagged
import ProForma.Text.Blank

/-!
The rules by which an account's value is derived from other values.
-/

namespace ProForma

inductive Rule where
  | none
  | growthRate
  | percentage
  | proportionate
  | calculation
  | reference
  | fixedValue
  | balanceChange
  | adjustment
  | cashChange
  | cashEnding
  | cashBeginning
deriving DecidableEq

namespace Rule

instance : Tagged Rule where
  all :=
    [.none, .growthRate, .percentage, .proportionate, .calculation, .reference, .fixedValue,
      .balanceChange, .adjustment, .cashChange, .cashEnding, .cashBeginning]
  tag
    | .none => "NONE"
    | .growthRate => "GROWTH_RATE"
    | .percentage => "PERCENTAGE"
    | .proportionate => "PROPORTIONATE"
    | .calculation => "CALCULATION"
    | .reference => "REFERENCE"
    | .fixedValue => "FIXED_VALUE"
    | .balanceChange => "BS_CHANGE"
    | .adjustment => "CF_ADJUSTMENT_CALC"
    | .cashChange => "CASH_CHANGE_CALCULATION"
    | .cashEnding => "CASH_ENDING_BALANCE"
    | .cashBeginning => "CASH_BEGINNING_BALANCE"

/-- A tag in any case, between blanks, with hyphens or spaces for its underscores. -/
def ofText? (text : String) : Option Rule :=
  Tagged.ofTag? ((Text.trim text).map fun c => if c = '-' ∨ c = ' ' then '_' else c.toUpper)

/-- The rules that mean nothing without a reference. The beginning balance of cash has the
classified cash total to fall back on. -/
def needsReference : Rule → Bool
  | .percentage | .proportionate | .calculation | .reference | .balanceChange | .adjustment
  | .cashEnding => true
  | _ => false

def needsRate : Rule → Bool
  | .growthRate | .percentage => true
  | _ => false

/-- The rules reserved for cash-flow items. -/
def isCashFlowOnly : Rule → Bool
  | .balanceChange | .adjustment | .cashChange | .cashEnding | .cashBeginning => true
  | _ => false

end Rule

end ProForma
