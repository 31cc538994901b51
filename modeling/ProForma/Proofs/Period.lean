import Mathlib.Data.List.Induction
import Mathlib.Data.List.Perm.Basic
import ProForma.Model

/-!
# Periods in order

Placing periods one after another sorts them by their order and loses none. Of a list of periods,
the latest is one with the greatest order; if none share an order, it is the last one when they are
sorted.
-/

namespace ProForma.Period

/-- The order after another one is what adding one comes to in 64 bits. -/
theorem orderAfter_toInt (order : Int64) : orderAfter order.toInt = (order + 1).toInt := by
  unfold orderAfter
  split
  · rename_i hgreatest
    obtain rfl : order = Int64.maxValue := Int64.toInt_inj.1 hgreatest
    rfl
  · have hone : (1 : Int64).toInt = 1 := rfl
    have hleast := order.le_toInt
    have hgreatest := order.toInt_lt
    unfold greatestOrder at *
    rw [Int64.toInt_add, hone, Int.bmod_eq_of_le] <;> omega

theorem perm_place (p : Period) (periods : List Period) :
    (place p periods).Perm (p :: periods) := by
  induction periods with
  | nil => exact .refl _
  | cons q periods ih =>
      unfold place
      split
      · exact .refl _
      · exact (ih.cons q).trans (.swap p q periods)

theorem perm_inOrder (periods : List Period) : (inOrder periods).Perm periods := by
  induction periods with
  | nil => exact .refl _
  | cons p periods ih => exact (perm_place p (inOrder periods)).trans (ih.cons p)

theorem pairwise_place (p : Period) {periods : List Period}
    (h : periods.Pairwise fun q later => q.order ≤ later.order) :
    (place p periods).Pairwise fun q later => q.order ≤ later.order := by
  induction periods with
  | nil => exact List.pairwise_singleton _ p
  | cons q periods ih =>
      obtain ⟨hfirst, hrest⟩ := List.pairwise_cons.1 h
      unfold place
      split
      · rename_i hle
        refine List.pairwise_cons.2 ⟨fun r hr => ?_, h⟩
        rcases List.mem_cons.1 hr with rfl | hr
        · exact hle
        · exact Int.le_trans hle (hfirst r hr)
      · rename_i hlt
        refine List.pairwise_cons.2 ⟨fun r hr => ?_, ih hrest⟩
        rcases List.mem_cons.1 ((perm_place p periods).mem_iff.1 hr) with rfl | hr
        · omega
        · exact hfirst r hr

theorem pairwise_inOrder (periods : List Period) :
    (inOrder periods).Pairwise fun q later => q.order ≤ later.order := by
  induction periods with
  | nil => exact .nil
  | cons p periods ih => exact pairwise_place p ih

theorem pairwise_lt_inOrder_iff {periods : List Period} :
    ((inOrder periods).Pairwise fun q later => q.order < later.order) ↔
      (periods.map order).Nodup := by
  rw [← ((perm_inOrder periods).map order).nodup_iff, List.Nodup, List.pairwise_map]
  constructor
  · exact fun h => h.imp Int.ne_of_lt
  · intro h
    refine ((pairwise_inOrder periods).and h).imp fun {q later} hboth => ?_
    exact Int.lt_iff_le_and_ne.2 hboth

theorem place_concat {p last : Period} (h : p.order ≤ last.order) (periods : List Period) :
    place p (periods ++ [last]) = place p periods ++ [last] := by
  induction periods with
  | nil =>
      change (if p.order ≤ last.order then [p, last] else _) = _
      rw [if_pos h]
      rfl
  | cons q periods ih =>
      rw [List.cons_append]
      unfold place
      split
      · rfl
      · rw [ih]
        rfl

theorem inOrder_concat {periods : List Period} {last : Period}
    (h : ∀ p ∈ periods, p.order ≤ last.order) :
    inOrder (periods ++ [last]) = inOrder periods ++ [last] := by
  induction periods with
  | nil => rfl
  | cons p periods ih =>
      have hrest := ih fun q hq => h q (List.mem_cons_of_mem _ hq)
      change place p (inOrder (periods ++ [last])) = place p (inOrder periods) ++ [last]
      rw [hrest, place_concat (h p List.mem_cons_self)]

theorem latest?_concat (periods : List Period) (p : Period) :
    latest? (periods ++ [p]) = match latest? periods with
      | some best => if best.order ≤ p.order then some p else some best
      | none => some p := by
  unfold latest?
  rw [List.foldl_append]
  rfl

theorem latest?_eq_none_iff {periods : List Period} : latest? periods = none ↔ periods = [] := by
  induction periods using List.reverseRecOn with
  | nil => simp [latest?]
  | append_singleton periods last ih =>
      rw [latest?_concat]
      cases latest? periods with
      | none => simp
      | some best =>
          dsimp only
          split
          · simp
          · simp

theorem latest?_eq_some {periods : List Period} {p : Period} (h : latest? periods = some p) :
    p ∈ periods ∧ ∀ q ∈ periods, q.order ≤ p.order := by
  induction periods using List.reverseRecOn generalizing p with
  | nil => cases h
  | append_singleton periods last ih =>
      rw [latest?_concat] at h
      simp only [List.mem_append, List.mem_singleton]
      cases hbest : latest? periods with
      | none =>
          obtain rfl : last = p := by
            rw [hbest] at h
            exact Option.some.inj h
          have hnil : periods = [] := latest?_eq_none_iff.1 hbest
          subst hnil
          simp
      | some best =>
          obtain ⟨hmem, hmax⟩ := ih hbest
          rw [hbest] at h
          dsimp only at h
          split at h
          · rename_i hle
            obtain rfl : last = p := Option.some.inj h
            refine ⟨.inr rfl, fun q hq => ?_⟩
            rcases hq with hq | rfl
            · exact Int.le_trans (hmax q hq) hle
            · exact Int.le_refl _
          · rename_i hlt
            obtain rfl : best = p := Option.some.inj h
            refine ⟨.inl hmem, fun q hq => ?_⟩
            rcases hq with hq | rfl
            · exact hmax q hq
            · omega

theorem latest?_eq_getLast? {periods sorted : List Period} (hperm : sorted.Perm periods)
    (hsorted : sorted.Pairwise fun p later => p.order < later.order) :
    latest? periods = sorted.getLast? := by
  rcases sorted.eq_nil_or_concat' with rfl | ⟨earlier, last, rfl⟩
  · rw [List.nil_perm.1 hperm]
    rfl
  · have hlast : last ∈ periods := hperm.mem_iff.1 (by simp)
    obtain ⟨p, hp⟩ : ∃ p, latest? periods = some p :=
      Option.ne_none_iff_exists'.1 fun hnone =>
        List.ne_nil_of_mem hlast (latest?_eq_none_iff.1 hnone)
    obtain ⟨hmem, hmax⟩ := latest?_eq_some hp
    rw [hp, List.getLast?_concat]
    rcases List.mem_append.1 (hperm.mem_iff.2 hmem) with hearlier | hp
    · have hlt := (List.pairwise_append.1 hsorted).2.2 p hearlier last (by simp)
      have hle := hmax last hlast
      omega
    · rw [List.mem_singleton.1 hp]

end ProForma.Period
