import ProForma.Identifier
import ProForma.Operation
import ProForma.Decimal.Layout

/-!
Formulas: trees of operations over constants and the values of accounts, in the same period or
some periods back.
-/

namespace ProForma

inductive Formula (α : Type) where
  | const (value : α)
  /-- The value of an account `lag` periods before the one that is evaluated. -/
  | ref (account : AccountId) (lag : Nat)
  | apply (operation : Operation) (args : List (Formula α))
deriving Inhabited

namespace Formula

variable {α : Type}

def combine (operation : Operation) (left right : Formula α) : Formula α :=
  .apply operation [left, right]

def negated [Amount α] (f : Formula α) : Formula α :=
  .combine .mul (.const (-1)) f

/-- Counts a formula with a sign. -/
def withSign [Amount α] (f : Formula α) : Sign → Formula α
  | .plus => f
  | .minus => f.negated

/-- Counts a formula as the first term under an operation. -/
def leading [Amount α] (operation : Operation) (f : Formula α) : Formula α :=
  f.withSign operation.sign

mutual

/-- The references of a formula, from left to right, as often as they occur. -/
def refs : Formula α → List (AccountId × Nat)
  | .const _ => []
  | .ref account lag => [(account, lag)]
  | .apply _ args => refsOfAll args

def refsOfAll : List (Formula α) → List (AccountId × Nat)
  | [] => []
  | f :: fs => f.refs ++ refsOfAll fs

end

/-- The accounts that are read in the evaluated period itself, each once. -/
def currentRefs (f : Formula α) : List AccountId :=
  (f.refs.filterMap fun r => if r.2 = 0 then some r.1 else none).eraseDups

/-! ### Text -/

def operationText : Operation → String
  | .add => "Add"
  | .sub => "Sub"
  | .mul => "Mul"
  | .div => "Div"

mutual

def text : Formula Float → String
  | .const value => Decimal.Layout.plain.render value
  | .ref account lag => "Ref(" ++ account.text ++ ", " ++ toString lag ++ ")"
  | .apply operation args => operationText operation ++ "(" ++ ", ".intercalate (texts args) ++ ")"

def texts : List (Formula Float) → List String
  | [] => []
  | f :: fs => f.text :: texts fs

end

end Formula

end ProForma
