import ProForma.Calendar.Reader
import ProForma.Proofs.Outcome
import Mathlib.Data.List.TakeWhile
import Mathlib.Tactic.Common

/-!
Dates that are read back from their text.
-/

namespace ProForma

theorem Calendar.daysIn_le (year : Int) (month : Nat) : daysIn year month ≤ 31 := by
  unfold daysIn
  repeat' split
  all_goals decide

namespace Date

/-! ### Padded numbers -/

theorem toList_pushn (c : Char) (n : Nat) : ("".pushn c n).toList = List.replicate n c := by
  rw [String.pushn_eq_repeat_push]
  induction n with
  | zero => rfl
  | succ n ih => rw [Nat.repeat, String.toList_push, ih, List.replicate_succ']

theorem toList_pad (width n : Nat) :
    (pad width n).toList =
      List.replicate (width - (Nat.toDigits 10 n).length) '0' ++ Nat.toDigits 10 n := by
  have htext : toString n = String.ofList (Nat.toDigits 10 n) := Nat.toString_eq_ofList_toDigits
  rw [pad, htext, String.toList_append, toList_pushn, String.length_ofList, String.toList_ofList]

theorem isDigit_of_mem_pad {width n : Nat} {c : Char} (hc : c ∈ (pad width n).toList) :
    c.isDigit := by
  rw [toList_pad, List.mem_append] at hc
  rcases hc with hc | hc
  · rw [List.eq_of_mem_replicate hc]
    decide
  · exact Nat.isDigit_of_mem_toDigits (by decide) (by decide) hc

theorem ofDigitChars_pad (width n : Nat) : Nat.ofDigitChars 10 (pad width n).toList 0 = n := by
  rw [toList_pad, Nat.ofDigitChars_append, Nat.ofDigitChars_replicate_zero, Nat.mul_zero,
    Nat.ofDigitChars_ten_toDigits]

theorem length_pad {width n : Nat} (hwidth : 0 < width) (hn : n < Nat.pow 10 width) :
    (pad width n).toList.length = width := by
  have hdigits := (Nat.length_toDigits_le_iff (b := 10) (by decide) hwidth).2 hn
  rw [toList_pad, List.length_append, List.length_replicate]
  omega

theorem toList_pad_ne_nil (width n : Nat) : (pad width n).toList ≠ [] := by
  rw [toList_pad]
  simp [Nat.toDigits_ne_nil]

/-! ### Numbers -/

namespace Reader

theorem number_append {ds rest : List Char} (limit : Option Nat) (hds : ∀ c ∈ ds, c.isDigit)
    (hne : ds ≠ []) (hrest : ∀ c ∈ rest.head?, c.isDigit = false)
    (hlimit : ∀ k ∈ limit, ds.length ≤ k) :
    number limit (ds ++ rest) = .ok (Nat.ofDigitChars 10 ds 0, rest) := by
  have hstop : ∀ n, (rest.take n).takeWhile Char.isDigit = [] := by
    intro n
    cases rest with
    | nil => simp
    | cons c rest =>
      cases n with
      | zero => rfl
      | succ n => simp [hrest c rfl]
  have htake : (limit.elim (ds ++ rest) (ds ++ rest).take).takeWhile Char.isDigit = ds := by
    cases limit with
    | none =>
      have hall := hstop rest.length
      rw [List.take_length] at hall
      simp [List.takeWhile_append_of_pos hds, hall]
    | some k =>
      simp [List.take_append, List.take_of_length_le (hlimit k rfl),
        List.takeWhile_append_of_pos hds, hstop]
  simp [number, htake, hne, Nat.ofDigitChars_eq_foldl]

theorem number_pad (limit : Option Nat) (width n : Nat) {rest : List Char}
    (hrest : ∀ c ∈ rest.head?, c.isDigit = false)
    (hlimit : ∀ k ∈ limit, (pad width n).toList.length ≤ k) :
    number limit ((pad width n).toList ++ rest) = .ok (n, rest) := by
  rw [number_append limit (fun c hc => isDigit_of_mem_pad hc) (toList_pad_ne_nil width n) hrest
    hlimit, ofDigitChars_pad]

theorem isBlank_of_isDigit {c : Char} (hc : c.isDigit) : Text.isBlank c = false :=
  Text.isBlank_of_isAlphanum (by rw [Char.isAlphanum, hc, Bool.or_true])

/-- A padded number starts with a digit. -/
theorem exists_cons_of_pad (width n : Nat) (rest : List Char) :
    ∃ c cs, (pad width n).toList ++ rest = c :: cs ∧ c.isDigit := by
  obtain ⟨c, cs, hcons⟩ := List.exists_cons_of_ne_nil (toList_pad_ne_nil width n)
  have hdigit : c.isDigit := isDigit_of_mem_pad (hcons ▸ List.mem_cons_self)
  exact ⟨c, cs ++ rest, by rw [hcons, List.cons_append], hdigit⟩

theorem dropBlanks_pad (width n : Nat) (rest : List Char) :
    Text.dropBlanks ((pad width n).toList ++ rest) = (pad width n).toList ++ rest := by
  obtain ⟨c, cs, hcons, hdigit⟩ := exists_cons_of_pad width n rest
  rw [hcons, Text.dropBlanks, List.dropWhile_cons_of_neg (by simp [isBlank_of_isDigit hdigit])]

/-- A month or a day is read from its two digits. -/
theorem upTo_pad {greatest n : Nat} {rest : List Char} (hone : 1 ≤ n) (hn : n ≤ greatest)
    (hgreatest : greatest < 100) (hrest : ∀ c ∈ rest.head?, c.isDigit = false) :
    upTo greatest ((pad 2 n).toList ++ rest) = .ok (n, rest) := by
  have hlength : (pad 2 n).toList.length = 2 := length_pad (by decide) (show n < 100 by omega)
  rw [upTo, dropBlanks_pad]
  exact bind_eq_ok.2 ⟨_, number_pad (some 2) 2 n hrest (by simp [hlength]), if_pos ⟨hone, hn⟩⟩

theorem signedYear_pad {n : Nat} {rest : List Char} (hn : n < 10000)
    (hrest : ∀ c ∈ rest.head?, c.isDigit = false) :
    signedYear ((pad 4 n).toList ++ rest) = .ok (Int.ofNat n, rest) := by
  have hlength : (pad 4 n).toList.length = 4 := length_pad (by decide) hn
  obtain ⟨c, cs, hcons, hdigit⟩ := exists_cons_of_pad 4 n rest
  have hnumber := number_pad (some 4) 4 n hrest (by simp [hlength])
  rw [signedYear, dropBlanks_pad]
  rw [hcons] at hnumber ⊢
  split
  · rename_i heq
    cases heq
    simp at hdigit
  · rename_i heq
    cases heq
    simp at hdigit
  · exact bind_eq_ok.2 ⟨_, hnumber, rfl⟩

theorem signedYear_minus {n : Nat} {cs rest : List Char} (h : number none cs = .ok (n, rest)) :
    signedYear ('-' :: cs) = .ok (-Int.ofNat n, rest) := by
  have hdrop : Text.dropBlanks ('-' :: cs) = '-' :: cs := by
    simp [Text.dropBlanks, Text.isBlank]
  rw [signedYear, hdrop]
  exact bind_eq_ok.2 ⟨_, h, rfl⟩

theorem signedYear_plus {n : Nat} {cs rest : List Char} (h : number none cs = .ok (n, rest)) :
    signedYear ('+' :: cs) = .ok (Int.ofNat n, rest) := by
  have hdrop : Text.dropBlanks ('+' :: cs) = '+' :: cs := by
    simp [Text.dropBlanks, Text.isBlank]
  rw [signedYear, hdrop]
  exact bind_eq_ok.2 ⟨_, h, rfl⟩

/-- A year is read from its text. -/
theorem signedYear_yearText (y : Int) {rest : List Char}
    (hrest : ∀ c ∈ rest.head?, c.isDigit = false) :
    signedYear ((yearText y).toList ++ rest) = .ok (y, rest) := by
  have hnumber := number_pad none 4 y.natAbs hrest (by simp)
  by_cases hneg : y < 0
  · have htext : (yearText y).toList ++ rest = '-' :: ((pad 4 y.natAbs).toList ++ rest) := by
      simp [yearText, hneg, Int.not_le.2 hneg]
    have hvalue : -Int.ofNat y.natAbs = y := by
      rw [Int.ofNat_eq_natCast]
      omega
    rw [htext, signedYear_minus hnumber, hvalue]
  · have hvalue : Int.ofNat y.natAbs = y := Int.natAbs_of_nonneg (Int.not_lt.1 hneg)
    by_cases hfour : y ≤ 9999
    · rw [yearText, if_pos ⟨Int.not_lt.1 hneg, hfour⟩, signedYear_pad (by omega) hrest, hvalue]
    · have htext : (yearText y).toList ++ rest = '+' :: ((pad 4 y.natAbs).toList ++ rest) := by
        simp [yearText, hneg, hfour]
      rw [htext, signedYear_plus hnumber, hvalue]

theorem yearNumber_yearText {y : Int} {rest : List Char} (hlow : Calendar.firstYear ≤ y)
    (hhigh : y ≤ Calendar.lastYear) (hrest : ∀ c ∈ rest.head?, c.isDigit = false) :
    yearNumber ((yearText y).toList ++ rest) = .ok (y, rest) := by
  simp only [Calendar.firstYear, Calendar.lastYear] at hlow hhigh
  exact bind_eq_ok.2 ⟨_, signedYear_yearText y hrest, if_pos ⟨by omega, by omega⟩⟩

theorem hyphen_cons (spaced : Bool) (rest : List Char) :
    hyphen spaced ('-' :: rest) = .ok rest := by
  simp [hyphen, Text.dropBlanks, Text.isBlank]

end Reader

/-- A date is read from its text, whether blanks are allowed in it or not. -/
theorem read_text (spaced : Bool) (d : Date) : read spaced d.text.toList = .ok d := by
  have htext : d.text.toList = (yearText d.year).toList ++ ('-' :: ((pad 2 d.month).toList ++
      ('-' :: ((pad 2 d.day).toList ++ [])))) := by
    simp [text, monthLabel]
  obtain ⟨hfirst, hlast, hmonth, hmonths, hday, hdays⟩ := d.hasDay
  have hyphenated : ∀ cs : List Char, ∀ c ∈ ('-' :: cs).head?, c.isDigit = false := by
    simp
  rw [htext]
  refine bind_eq_ok.2 ⟨_, Reader.yearNumber_yearText hfirst hlast (hyphenated _), ?_⟩
  refine bind_eq_ok.2 ⟨_, Reader.hyphen_cons spaced _, ?_⟩
  refine bind_eq_ok.2 ⟨_, Reader.upTo_pad hmonth hmonths (by decide) (hyphenated _), ?_⟩
  refine bind_eq_ok.2 ⟨_, Reader.hyphen_cons spaced _, ?_⟩
  refine bind_eq_ok.2 ⟨_, Reader.upTo_pad hday ?_ (by decide) (by simp), ?_⟩
  · exact hdays.trans (Calendar.daysIn_le d.year d.month)
  · have hof : of? d.year d.month d.day = some d := of?_eq_some_iff.2 ⟨rfl, rfl, rfl⟩
    simp [Text.dropBlanks, hof]
    rfl

theorem ofText_text (d : Date) : ofText d.text = .ok d :=
  read_text true d

end Date

end ProForma
