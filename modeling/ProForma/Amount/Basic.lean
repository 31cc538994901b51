/-!
The arithmetic of balances. Models are run in binary64. The definitions of the library are open to
other numbers, so that they also say what happens when nothing is rounded.
-/

namespace ProForma

/-- Numbers that accounts can hold. Equality is numeric, which in binary64 is not identity: the
two zeros are equal and a value that is not a number differs from itself. -/
class Amount (α : Type) extends Zero α, One α, Neg α, Add α, Sub α, Mul α, Div α, BEq α where
  /-- The two amounts differ by at most the tolerance. -/
  within (tolerance a b : α) : Bool

instance : Amount Float where
  within tolerance a b := decide ((a - b).abs ≤ tolerance)

namespace Amount

variable {α : Type} [Amount α]

/-- The total of a list. It starts from negative zero, which alone leaves every binary64 number
as it is. -/
def total (amounts : List α) : α :=
  amounts.foldl (· + ·) (-0)

end Amount

/-- Which way an amount counts. -/
inductive Sign where
  | plus
  | minus
deriving DecidableEq

namespace Sign

protected def mul : Sign → Sign → Sign
  | .plus, s => s
  | .minus, .plus => .minus
  | .minus, .minus => .plus

instance : Mul Sign := ⟨Sign.mul⟩

def amount {α : Type} [Amount α] : Sign → α
  | .plus => 1
  | .minus => -1

end Sign

end ProForma
