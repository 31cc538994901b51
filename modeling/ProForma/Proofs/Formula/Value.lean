import Mathlib.Data.List.Forall2
import ProForma.Chart.Derivation
import ProForma.Formula.Evaluation

/-!
# Values over a table

What the formulas of summary lines come to over a table of cells: sums, and terms that are combined
from the left. Sums start at zero and products at one also where two amounts are combined, which can
make a difference to numbers that are rounded.
-/

namespace ProForma

variable {α : Type} [Amount α]

/-! ### Amounts -/

namespace Operation

/-- What an operation makes of two amounts. There is nothing that a division by zero makes. -/
def combine? : Operation → α → α → Option α
  | .add, x, y => some (0 + x + y)
  | .sub, x, y => some (x - y)
  | .mul, x, y => some (1 * x * y)
  | .div, x, y => if y == 0 then none else some (x / y)

/-- An amount that is the first under an operation. -/
def lead : Operation → α → α
  | .sub, x => 1 * -1 * x
  | _, x => x

end Operation

/-- The amounts of terms combined from the left, if there are any. -/
def Term.combined? (amount : AccountId → α) : List Term → Option α
  | [] => none
  | t :: terms =>
    terms.foldlM (fun acc t => t.operation.combine? acc (amount t.account))
      (t.operation.lead (amount t.account))

/-! ### Formulas -/

namespace Formula

variable {table : AccountId → Int → α} {position : Int} {f g : Formula α} {x y : α}

@[simp]
theorem value_ref (account : AccountId) (lag : Nat) :
    (ref account lag).value table position = .ok (table account (position - lag)) := by
  simp only [value, eval]
  rfl

@[simp]
theorem value_ref_zero (account : AccountId) :
    (ref account 0).value table position = .ok (table account position) := by
  rw [value_ref, Int.natCast_zero, Int.sub_zero]

theorem accumulate_add {whole : Formula α} {fs : List (Formula α)} {xs : List α}
    (h : List.Forall₂ (fun f x => f.value table position = .ok x) fs xs) (acc : α) :
    accumulate (fun account t => (pure (table account t) : Except (Fault α) α)) position
        (Operation.step whole .add) acc fs =
      .ok (xs.foldl (· + ·) acc) := by
  induction h generalizing acc with
  | nil =>
      simp only [accumulate]
      rfl
  | @cons f x fs xs hfirst _ ih =>
      unfold value at hfirst
      simp only [accumulate]
      rw [hfirst]
      exact ih (acc + x)

/-- A sum comes to the sum of what its parts come to. -/
theorem value_sum {fs : List (Formula α)} {xs : List α}
    (h : List.Forall₂ (fun f x => f.value table position = .ok x) fs xs) :
    (sum fs).value table position = .ok (xs.foldl (· + ·) 0) := by
  unfold sum value
  simp only [eval]
  exact accumulate_add h 0

theorem toOption_value_combine (operation : Operation) (f g : Formula α) :
    ((combine operation f g).value table position).toOption =
      (f.value table position).toOption.bind fun x =>
        (g.value table position).toOption.bind fun y => operation.combine? x y := by
  unfold combine value
  generalize hread : (fun account t => (pure (table account t) : Except (Fault α) α)) = read
  cases operation with
  | add | sub | mul =>
      simp only [eval, accumulate]
      rcases eval read position f with fault | x
      · rfl
      · rcases eval read position g with fault | y
        · rfl
        · rfl
  | div =>
      simp only [eval, accumulate]
      rcases eval read position f with fault | x
      · rfl
      · rcases eval read position g with fault | y
        · rfl
        · by_cases hzero : (y == 0) = true
          · simp only [bind, Except.bind, Operation.step, if_pos hzero]
            exact (if_pos hzero).symm
          · simp only [bind, Except.bind, Operation.step, if_neg hzero]
            exact (if_neg hzero).symm

theorem value_leading (operation : Operation) (account : AccountId) (lag : Nat) :
    (leading operation (ref account lag)).value table position =
      .ok (operation.lead (table account (position - lag))) := by
  cases operation with
  | sub =>
      simp only [leading, Operation.sign, withSign, negated, combine, value, eval, accumulate]
      rfl
  | add | mul | div => exact value_ref account lag

/-- Terms are combined from the left, up to a division by zero. -/
theorem toOption_value_foldl (terms : List Term) (f : Formula α) :
    ((terms.foldl (fun acc t => combine t.operation acc (ref t.account 0)) f).value table
        position).toOption =
      (f.value table position).toOption.bind fun x =>
        terms.foldlM (fun acc t => t.operation.combine? acc (table t.account position)) x := by
  induction terms generalizing f with
  | nil =>
      change _ = (f.value table position).toOption.bind some
      rw [Option.bind_fun_some]
      rfl
  | cons t terms ih =>
      rw [List.foldl_cons, ih, toOption_value_combine, value_ref_zero]
      simp only [Option.bind_assoc, List.foldlM_cons]
      rfl

theorem toOption_value_ofTerms? {terms : List Term} {f : Formula α}
    (h : ofTerms? (terms.map fun t => (t.operation, ref t.account 0)) = some f) :
    (f.value table position).toOption = Term.combined? (table · position) terms := by
  cases terms with
  | nil => cases h
  | cons t terms =>
      rw [List.map_cons] at h
      cases h
      rw [List.foldl_map, toOption_value_foldl, value_leading]
      simp [Except.toOption, Term.combined?]

end Formula

end ProForma
