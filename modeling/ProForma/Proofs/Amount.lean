import Mathlib.Algebra.BigOperators.Ring.List
import Mathlib.Data.List.Nodup
import Mathlib.Tactic.NormNum
import ProForma.Amount.Rational

/-!
# Sums of rational amounts

Where nothing is rounded the order of a sum is no matter, so a sum can be taken group by group.
-/

namespace ProForma

variable {β γ : Type}

theorem Amount.total_eq_sum (amounts : List ℚ) : Amount.total amounts = amounts.sum := by
  rw [List.sum_eq_foldl]
  rfl

theorem Sign.amount_mul (s t : Sign) : ((s * t).amount : ℚ) = s.amount * t.amount := by
  cases s with
  | plus => exact (one_mul _).symm
  | minus =>
      cases t with
      | plus => exact (mul_one _).symm
      | minus =>
          change (1 : ℚ) = -1 * -1
          norm_num

/-- What is left out of a list adds nothing to its sum. -/
theorem sum_map_filterMap (part : β → Option γ) (amount : γ → ℚ) (xs : List β) :
    ((xs.filterMap part).map amount).sum = (xs.map fun x => (part x).elim 0 amount).sum := by
  induction xs with
  | nil => rfl
  | cons x xs ih =>
      rw [List.filterMap_cons, List.map_cons, List.sum_cons, ← ih]
      cases part x with
      | none => exact (zero_add _).symm
      | some y => rfl

theorem sum_map_ite_single [DecidableEq γ] {keys : List γ} (hnodup : keys.Nodup) {key : γ}
    (hkey : key ∈ keys) (amount : ℚ) :
    (keys.map fun k => if k = key then amount else 0).sum = amount := by
  rw [List.sum_map_ite_eq keys (fun _ => amount) (fun _ => 0) key,
    List.count_eq_one_of_mem hnodup hkey, one_nsmul, List.sum_map_zero, add_zero, sub_zero]

/-- Amounts that are grouped under distinct keys add up to what the groups add up to. -/
theorem sum_groups [DecidableEq γ] {keys : List γ} (hnodup : keys.Nodup) {group : β → γ}
    {xs : List β} (hgroup : ∀ x ∈ xs, group x ∈ keys) (amount : β → ℚ) :
    (keys.map fun key => ((xs.filter fun x => group x = key).map amount).sum).sum =
      (xs.map amount).sum := by
  induction xs with
  | nil => exact List.sum_map_zero
  | cons x xs ih =>
      have hsplit : ∀ key, (((x :: xs).filter fun x => group x = key).map amount).sum =
          (if key = group x then amount x else 0) +
            ((xs.filter fun x => group x = key).map amount).sum := by
        intro key
        by_cases hkey : group x = key
        · simp [hkey]
        · simp [hkey, Ne.symm hkey]
      simp only [hsplit]
      rw [List.sum_map_add, sum_map_ite_single hnodup (hgroup x List.mem_cons_self),
        ih fun y hy => hgroup y (List.mem_cons_of_mem _ hy), List.map_cons, List.sum_cons]

end ProForma
