import ProForma.Amount.Basic
import ProForma.Tagged
import ProForma.Text.Blank

/-!
The four operations that combine the values of accounts.
-/

namespace ProForma

inductive Operation where
  | add
  | sub
  | mul
  | div
deriving DecidableEq

namespace Operation

instance : Tagged Operation where
  all := [.add, .sub, .mul, .div]
  tag
    | .add => "ADD"
    | .sub => "SUB"
    | .mul => "MUL"
    | .div => "DIV"

/-- Only subtraction turns a term around. -/
def sign : Operation → Sign
  | .sub => .minus
  | _ => .plus

/-- Reads a tag in any case, or an operator sign, between blanks. -/
def ofText? (text : String) : Option Operation :=
  match (Text.trim text).map Char.toUpper with
  | "+" => some .add
  | "-" => some .sub
  | "*" => some .mul
  | "/" => some .div
  | word => Tagged.ofTag? word

end Operation

end ProForma
