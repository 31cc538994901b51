import ProForma.Json.Number
import Mathlib.Data.List.TakeWhile

/-!
Numbers that are read back: a numeral is read the same in front of any text that does not continue
it, and a whole number of 64 bits is read from its digits.
-/

namespace ProForma.Json

/-- The characters that continue a numeral. -/
def continuesNumeral (c : Char) : Bool :=
  c.isDigit || c = '.' || c = 'e' || c = 'E'

/-- A text that does not continue a numeral in front of it. -/
def Stops (rest : List Char) : Prop :=
  ∀ c ∈ rest.head?, continuesNumeral c = false

theorem stops_nil : Stops [] := by
  simp [Stops]

theorem stops_cons {c : Char} {rest : List Char} :
    Stops (c :: rest) ↔ continuesNumeral c = false := by
  simp [Stops]

theorem Stops.head?_append_ne {c : Char} {cs rest : List Char} (hrest : Stops rest)
    (hc : continuesNumeral c) (h : cs.head? ≠ some c) : (cs ++ rest).head? ≠ some c := by
  cases cs with
  | nil => exact fun heq => by simp [hrest c heq] at hc
  | cons d cs => simpa using h

namespace Numeral

/-! ### In front of a text -/

theorem digits_append {rest : List Char} (hrest : Stops rest) (cs : List Char) :
    digits (cs ++ rest) = ((digits cs).1, (digits cs).2 ++ rest) := by
  induction cs with
  | nil =>
    cases rest with
    | nil => rfl
    | cons c rest =>
      have hdigit : c.isDigit = false := by
        have := stops_cons.1 hrest
        simp only [continuesNumeral, Bool.or_eq_false_iff] at this
        exact this.1.1.1
      simp [digits, hdigit]
  | cons c cs ih =>
    simp only [digits, List.cons_append, Prod.mk.injEq] at ih ⊢
    cases hc : c.isDigit <;> simp [hc, ih]

variable {cs cs' rest ds : List Char}

theorem digits_append_eq (hrest : Stops rest) (h : digits cs = (ds, cs')) :
    digits (cs ++ rest) = (ds, cs' ++ rest) := by
  rw [digits_append hrest, h]

theorem whole?_eq_some_iff (hzero : cs.head? ≠ some '0') :
    whole? cs = some (ds, cs') ↔ digits cs = (ds, cs') ∧ ds ≠ [] := by
  unfold whole?
  split
  · exact absurd rfl hzero
  · split
    · grind
    · rename_i hsome
      have hds : digits cs = (ds, cs') → ds ≠ [] := fun h hnil => hsome cs' (by rw [h, hnil])
      simpa using hds

theorem whole?_append (hrest : Stops rest) (h : whole? cs = some (ds, cs')) :
    whole? (cs ++ rest) = some (ds, cs' ++ rest) := by
  cases cs with
  | nil => simp [whole?, digits] at h
  | cons c cs =>
    by_cases hzero : c = '0'
    · subst hzero
      simp only [whole?, Option.some.injEq, Prod.mk.injEq] at h
      obtain ⟨rfl, rfl⟩ := h
      rfl
    · obtain ⟨hdigits, hds⟩ := (whole?_eq_some_iff (by simpa using hzero)).1 h
      exact (whole?_eq_some_iff (by simpa using hzero)).2 ⟨digits_append_eq hrest hdigits, hds⟩

theorem fraction?_point_eq_some_iff :
    fraction? ('.' :: cs) = some (ds, cs') ↔ digits cs = (ds, cs') ∧ ds ≠ [] := by
  simp only [fraction?]
  split
  · grind
  · rename_i hsome
    have hds : digits cs = (ds, cs') → ds ≠ [] := fun h hnil => hsome cs' (by rw [h, hnil])
    simpa using hds

theorem fraction?_of_head?_ne (h : cs.head? ≠ some '.') : fraction? cs = some ([], cs) := by
  unfold fraction?
  split
  · exact absurd rfl h
  · rfl

theorem fraction?_append (hrest : Stops rest) (h : fraction? cs = some (ds, cs')) :
    fraction? (cs ++ rest) = some (ds, cs' ++ rest) := by
  by_cases hpoint : cs.head? = some '.'
  · obtain ⟨cs, rfl⟩ := List.head?_eq_some_iff.1 hpoint
    obtain ⟨hdigits, hds⟩ := fraction?_point_eq_some_iff.1 h
    exact fraction?_point_eq_some_iff.2 ⟨digits_append_eq hrest hdigits, hds⟩
  · obtain ⟨rfl, rfl⟩ : ds = [] ∧ cs' = cs := by
      simpa [fraction?_of_head?_ne hpoint, eq_comm] using h
    exact fraction?_of_head?_ne (hrest.head?_append_ne (by decide) hpoint)

theorem exponentDigits?_append {negative : Bool} {e : Option Int} (hrest : Stops rest)
    (h : exponentDigits? negative cs = some (e, cs')) :
    exponentDigits? negative (cs ++ rest) = some (e, cs' ++ rest) := by
  unfold exponentDigits? at h ⊢
  rw [digits_append hrest]
  generalize digits cs = found at h ⊢
  obtain ⟨_ | ⟨d, ds⟩, left⟩ := found
  · simp at h
  · simp_all

theorem exponent?_of_head?_ne (he : cs.head? ≠ some 'e') (hE : cs.head? ≠ some 'E') :
    exponent? cs = some (none, cs) := by
  unfold exponent?
  split
  · exact absurd rfl he
  · exact absurd rfl hE
  · rfl

theorem exponent?_cons_of_ne {c d : Char} (hc : c = 'e' ∨ c = 'E') (hplus : d ≠ '+')
    (hminus : d ≠ '-') : exponent? (c :: d :: cs) = exponentDigits? false (d :: cs) := by
  rcases hc with rfl | rfl <;> simp [exponent?, hplus, hminus]

theorem exponent?_append {e : Option Int} (hrest : Stops rest)
    (h : exponent? cs = some (e, cs')) : exponent? (cs ++ rest) = some (e, cs' ++ rest) := by
  by_cases hmark : cs.head? = some 'e' ∨ cs.head? = some 'E'
  · obtain ⟨c, cs, rfl, hc⟩ : ∃ c t, cs = c :: t ∧ (c = 'e' ∨ c = 'E') := by
      cases cs <;> simp_all
    cases cs with
    | nil => rcases hc with rfl | rfl <;> simp [exponent?, exponentDigits?, digits] at h
    | cons d cs =>
      by_cases hplus : d = '+'
      · subst hplus
        rcases hc with rfl | rfl <;> exact exponentDigits?_append hrest h
      · by_cases hminus : d = '-'
        · subst hminus
          rcases hc with rfl | rfl <;> exact exponentDigits?_append hrest h
        · rw [exponent?_cons_of_ne hc hplus hminus] at h
          rw [List.cons_append, List.cons_append, exponent?_cons_of_ne hc hplus hminus]
          exact exponentDigits?_append hrest h
  · rw [not_or] at hmark
    obtain ⟨rfl, rfl⟩ : e = none ∧ cs' = cs := by
      simpa [exponent?_of_head?_ne hmark.1 hmark.2, eq_comm] using h
    exact exponent?_of_head?_ne (hrest.head?_append_ne (by decide) hmark.1)
      (hrest.head?_append_ne (by decide) hmark.2)

theorem sign_append (hcs : cs ≠ []) :
    sign (cs ++ rest) = ((sign cs).1, (sign cs).2 ++ rest) := by
  cases cs with
  | nil => exact absurd rfl hcs
  | cons c cs =>
    by_cases hc : c = '-'
    · subst hc
      rfl
    · simp [sign, hc]

/-- A numeral is read the same in front of a text that does not continue it. -/
theorem scan?_append {n : Numeral} (hrest : Stops rest) (h : scan? cs = some (n, cs')) :
    scan? (cs ++ rest) = some (n, cs' ++ rest) := by
  have hcs : cs ≠ [] := by
    rintro rfl
    simp [scan?, sign, whole?, digits] at h
  simp only [scan?, Option.bind_eq_bind, Option.bind_eq_some_iff, Option.pure_def,
    Option.some.injEq, Prod.mk.injEq, Prod.exists] at h ⊢
  obtain ⟨ds, cs₁, hwhole, fs, cs₂, hfraction, e, cs₃, hexponent, rfl, rfl⟩ := h
  rw [sign_append hcs]
  exact ⟨ds, _, whole?_append hrest hwhole, fs, _, fraction?_append hrest hfraction, e, _,
    exponent?_append hrest hexponent, rfl, rfl⟩

/-! ### Whole numbers -/

theorem value_toDigits (n : Nat) : value (Nat.toDigits 10 n) = n := by
  rw [value, ← Nat.ofDigitChars_eq_foldl, Nat.ofDigitChars_ten_toDigits]

theorem digits_toDigits (n : Nat) : digits (Nat.toDigits 10 n) = (Nat.toDigits 10 n, []) := by
  have hall : ∀ c ∈ Nat.toDigits 10 n, c.isDigit := fun c hc =>
    Nat.isDigit_of_mem_toDigits (by decide) (by decide) hc
  simp only [digits, List.takeWhile_eq_self_iff.2 hall, List.dropWhile_eq_nil_iff.2 hall]

/-- Only zero is written with a zero in front. -/
theorem head?_toDigits_ne {n : Nat} (hn : n ≠ 0) : (Nat.toDigits 10 n).head? ≠ some '0' := by
  induction n using Nat.strong_induction_on with
  | _ n ih =>
    rw [Nat.toDigits_eq_if (by decide)]
    split
    · have hdigit : ∀ n < 10, n ≠ 0 → n.digitChar ≠ '0' := by decide
      simpa using hdigit n (by assumption) hn
    · rw [List.head?_append, Option.or_of_isSome (by simp [Nat.toDigits_ne_nil])]
      exact ih (n / 10) (by omega) (by omega)

theorem whole?_toDigits (n : Nat) : whole? (Nat.toDigits 10 n) = some (Nat.toDigits 10 n, []) := by
  by_cases hn : n = 0
  · subst hn
    rfl
  · exact (whole?_eq_some_iff (head?_toDigits_ne hn)).2
      ⟨digits_toDigits n, Nat.toDigits_ne_nil⟩

theorem sign_toDigits (n : Nat) : sign (Nat.toDigits 10 n) = (false, Nat.toDigits 10 n) := by
  unfold sign
  split
  · rename_i cs heq
    have hdigit : '-' ∈ Nat.toDigits 10 n := by simp [heq]
    exact absurd (Nat.isDigit_of_mem_toDigits (by decide) (by decide) hdigit) (by decide)
  · rfl

/-- The numeral of a whole number. -/
def ofWhole (negative : Bool) (n : Nat) : Numeral :=
  ⟨negative, Nat.toDigits 10 n, [], none⟩

theorem scan?_toDigits (n : Nat) :
    scan? (Nat.toDigits 10 n) = some (ofWhole false n, []) := by
  simp [scan?, sign_toDigits, whole?_toDigits, fraction?, exponent?, ofWhole]

theorem scan?_minus_toDigits (n : Nat) :
    scan? ('-' :: Nat.toDigits 10 n) = some (ofWhole true n, []) := by
  simp [scan?, sign, whole?_toDigits, fraction?, exponent?, ofWhole]

/-- The whole numbers that fit 64 bits, with a sign or without. -/
def Fits (n : Int) : Prop :=
  -9223372036854775808 ≤ n ∧ n < 18446744073709551616

theorem toJson_ofWhole_false {n : Nat} (hn : n < 18446744073709551616) :
    (ofWhole false n).toJson = .integer n := by
  simp [toJson, toInteger?, ofWhole, value_toDigits, hn]

theorem toJson_ofWhole_true {n : Nat} (hzero : n ≠ 0) (hn : n ≤ 9223372036854775808) :
    (ofWhole true n).toJson = .integer (-n) := by
  simp [toJson, toInteger?, ofWhole, value_toDigits, hzero, hn]

/-- A whole number that fits 64 bits is read from its digits. -/
theorem exists_scan?_toString {n : Int} (hn : Fits n) :
    ∃ m : Numeral, scan? (toString n).toList = some (m, []) ∧ m.toJson = .integer n := by
  obtain ⟨hlow, hhigh⟩ := hn
  cases n with
  | ofNat n =>
    have htext : (toString (Int.ofNat n)).toList = Nat.toDigits 10 n := by
      change (Nat.repr n).toList = _
      rw [Nat.repr_eq_ofList_toDigits, String.toList_ofList]
    have hfits : (n : Int) < 18446744073709551616 := hhigh
    rw [htext]
    exact ⟨_, scan?_toDigits n, toJson_ofWhole_false (by omega)⟩
  | negSucc n =>
    have htext : (toString (Int.negSucc n)).toList = '-' :: Nat.toDigits 10 (n + 1) := by
      change ("-" ++ Nat.repr (n + 1)).toList = _
      simp [Nat.repr_eq_ofList_toDigits]
    rw [htext]
    exact ⟨_, scan?_minus_toDigits (n + 1), toJson_ofWhole_true (by omega) (by omega)⟩

end Numeral

end ProForma.Json
