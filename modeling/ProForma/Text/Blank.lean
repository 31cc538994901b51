/-!
Blanks: the characters that Unicode gives the property White_Space, and what is left of a text
without them at its ends.
-/

namespace ProForma.Text

/-- The characters with the Unicode property White_Space. -/
def isBlank (c : Char) : Bool :=
  let n := c.toNat
  (0x09 ≤ n && n ≤ 0x0d) || n == 0x20 || n == 0x85 || n == 0xa0 || n == 0x1680 ||
    (0x2000 ≤ n && n ≤ 0x200a) || n == 0x2028 || n == 0x2029 || n == 0x202f || n == 0x205f ||
    n == 0x3000

def dropBlanks (cs : List Char) : List Char :=
  cs.dropWhile isBlank

def trimChars (cs : List Char) : List Char :=
  (dropBlanks (dropBlanks cs).reverse).reverse

/-- The text without the blanks at its ends. -/
def trim (s : String) : String :=
  String.ofList (trimChars s.toList)

theorem isAlphanum_iff {c : Char} :
    c.isAlphanum ↔ (65 ≤ c.toNat ∧ c.toNat ≤ 90) ∨ (97 ≤ c.toNat ∧ c.toNat ≤ 122) ∨
      (48 ≤ c.toNat ∧ c.toNat ≤ 57) := by
  have hrange : ∀ low high : Char,
      (decide (low.val ≤ c.val) && decide (c.val ≤ high.val)) = true ↔
        low.toNat ≤ c.toNat ∧ c.toNat ≤ high.toNat := by
    intro low high
    rw [Bool.and_eq_true, decide_eq_true_iff, decide_eq_true_iff]
    rfl
  have hcapital : c.isUpper = true ↔ 65 ≤ c.toNat ∧ c.toNat ≤ 90 := decide_eq_true_iff
  have hsmall : c.isLower = true ↔ 97 ≤ c.toNat ∧ c.toNat ≤ 122 := hrange 'a' 'z'
  have hdigit : c.isDigit = true ↔ 48 ≤ c.toNat ∧ c.toNat ≤ 57 := hrange '0' '9'
  change (c.isUpper || c.isLower || c.isDigit) = true ↔ _
  rw [Bool.or_eq_true, Bool.or_eq_true, hcapital, hsmall, hdigit, or_assoc]

/-- No letter and no digit is a blank. -/
theorem isBlank_of_isAlphanum {c : Char} (hc : c.isAlphanum) : isBlank c = false := by
  rw [isAlphanum_iff] at hc
  simp only [isBlank, Bool.or_eq_false_iff, Bool.and_eq_false_iff, decide_eq_false_iff_not,
    beq_eq_false_iff_ne]
  omega

/-- Trimming takes blanks away and nothing else. -/
theorem exists_blanks_around (cs : List Char) :
    ∃ lead trail, cs = lead ++ (trimChars cs ++ trail) ∧ (∀ c ∈ lead, isBlank c = true) ∧
      ∀ c ∈ trail, isBlank c = true := by
  have hblank : ∀ xs : List Char, ∀ c ∈ xs.takeWhile isBlank, isBlank c = true :=
    fun xs c hc => List.all_eq_true.1 List.all_takeWhile c hc
  refine ⟨cs.takeWhile isBlank, ((dropBlanks cs).reverse.takeWhile isBlank).reverse, ?_,
    hblank cs, fun c hc => hblank _ c (List.mem_reverse.1 hc)⟩
  rw [trimChars, ← List.reverse_append, dropBlanks, dropBlanks, List.takeWhile_append_dropWhile,
    List.reverse_reverse, List.takeWhile_append_dropWhile]

end ProForma.Text
