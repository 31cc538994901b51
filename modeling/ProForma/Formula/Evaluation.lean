import ProForma.Fault

/-!
Evaluation of formulas, from left to right, over any way of reading cells: out of a table, or by
computing what is read. A sum starts at zero and a product at one; a difference and a quotient
start at their first argument.
-/

namespace ProForma

variable {α : Type} [Amount α] {m : Type → Type} [Monad m] [MonadExceptOf (Fault α) m]

/-- Takes the next argument into the result so far. A quotient refuses to divide by zero and
names the `whole` formula. -/
def Operation.step (whole : Formula α) : Operation → α → α → m α
  | .add, acc, x => pure (acc + x)
  | .sub, acc, x => pure (acc - x)
  | .mul, acc, x => pure (acc * x)
  | .div, acc, x => if x == 0 then throw (.divisionByZero whole) else pure (acc / x)

namespace Formula

mutual

/-- The value of a formula in the period at a position, with `read` for the cells. Positions
before the first period are negative. -/
def eval (read : AccountId → Int → m α) (position : Int) : Formula α → m α
  | .const value => pure value
  | .ref account lag => read account (position - lag)
  | .apply .add args => accumulate read position (Operation.step (.apply .add args) .add) 0 args
  | .apply .mul args => accumulate read position (Operation.step (.apply .mul args) .mul) 1 args
  | .apply .sub [] => pure 0
  | .apply .div [] => throw (.inconsistent none .emptyQuotient)
  | .apply operation (first :: rest) => do
    let start ← eval read position first
    let step := Operation.step (.apply operation (first :: rest)) operation
    accumulate read position step start rest

/-- Takes the values of formulas one after another into a result. -/
def accumulate (read : AccountId → Int → m α) (position : Int) (step : α → α → m α) (acc : α) :
    List (Formula α) → m α
  | [] => pure acc
  | f :: fs => do
    let x ← eval read position f
    let acc ← step acc x
    accumulate read position step acc fs

end

/-- The value of a formula, or its failure, and the cells that were read, in order. -/
def trace (read : AccountId → Int → Except (Fault α) α) (position : Int) (f : Formula α) :
    Except (Fault α) α × List (AccountId × Int) :=
  let traced (account : AccountId) (t : Int) :
      ExceptT (Fault α) (StateM (List (AccountId × Int))) α := do
    modify (· ++ [(account, t)])
    liftExcept (read account t)
  (f.eval traced position).run []

/-- The value of a formula over a table of cells. -/
def value (table : AccountId → Int → α) (position : Int) (f : Formula α) : Except (Fault α) α :=
  f.eval (fun account t => pure (table account t)) position

end Formula

end ProForma
