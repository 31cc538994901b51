import ProForma.Proofs.Formula.Scaling
import ProForma.Proofs.Formula.Value

/-!
# Values of rational amounts

With rational amounts it makes no difference that a sum starts at zero and a product at one, so two
formulas combined come to what the operation makes of their values. All that can go wrong is that
the second one of a quotient comes to zero.
-/

namespace ProForma

namespace Operation

/-- The operation on two rational amounts. -/
def apply : Operation → ℚ → ℚ → ℚ
  | .add, x, y => x + y
  | .sub, x, y => x - y
  | .mul, x, y => x * y
  | .div, x, y => x / y

theorem result_eq_ok (whole : Formula ℚ) {operation : Operation} {y : ℚ}
    (h : operation = .div → y ≠ 0) (x : ℚ) :
    operation.result whole x y = .ok (operation.apply x y) := by
  cases operation with
  | add | sub | mul => rfl
  | div =>
      unfold result step
      exact if_neg (by simpa using h rfl)

theorem result_div_zero (whole : Formula ℚ) (x : ℚ) :
    div.result whole x 0 = .error (.divisionByZero whole) :=
  rfl

end Operation

namespace Formula

variable {table : AccountId → Int → ℚ} {position : Int} {f g : Formula ℚ} {x y : ℚ}

theorem value_const (x : ℚ) : (const x).value table position = .ok x := by
  simp only [value, eval]
  rfl

theorem value_combine (operation : Operation) (f g : Formula ℚ) :
    (combine operation f g).value table position = (do
      let x ← f.value table position
      let y ← g.value table position
      operation.result (combine operation f g) x y) :=
  eval_combine operation f g _ position

theorem value_combine_eq_ok (operation : Operation) (hf : f.value table position = .ok x)
    (hg : g.value table position = .ok y) (h : operation = .div → y ≠ 0) :
    (combine operation f g).value table position = .ok (operation.apply x y) := by
  rw [value_combine, hf, hg]
  exact Operation.result_eq_ok _ h x

theorem value_change (id : AccountId) :
    (change id).value table position = .ok (table id position - table id (position - 1)) :=
  value_combine_eq_ok .sub (value_ref_zero id) (value_ref id 1) (by simp)

theorem value_withSign (h : f.value table position = .ok x) (sign : Sign) :
    (f.withSign sign).value table position = .ok (sign.amount * x) := by
  cases sign with
  | plus =>
      rw [withSign, h]
      exact congrArg Except.ok (one_mul x).symm
  | minus => exact value_combine_eq_ok .mul (value_const (-1)) h (by simp)

theorem value_leading_eq_ok (operation : Operation) (hf : f.value table position = .ok x) :
    (leading operation f).value table position = .ok (operation.sign.amount * x) :=
  value_withSign hf operation.sign

end Formula

end ProForma
