import Mathlib.Algebra.Order.Field.Rat
import ProForma.Amount.Basic

/-!
Rational amounts, with which nothing is rounded.
-/

namespace ProForma

instance : Amount ℚ where
  within tolerance a b := decide (|a - b| ≤ tolerance)

end ProForma
