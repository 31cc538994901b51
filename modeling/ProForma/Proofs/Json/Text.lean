import ProForma.Json.Printer
import ProForma.Json.Reader
import Mathlib.Tactic.Common

/-!
Strings that are read back: what quoting escapes is what reading takes apart.
-/

namespace ProForma.Json

/-! ### Pieces -/

/-- A piece of a string in quotes that stands for a character. -/
def Piece.StandsFor (piece : Piece) (c : Char) : Prop :=
  ∀ pieces, assemble? (piece :: pieces) = (assemble? pieces).map (c :: ·)

theorem standsFor_char (c : Char) : (Piece.char c).StandsFor c := by
  intro pieces
  rw [assemble?]
  cases assemble? pieces <;> rfl

theorem standsFor_unit {c : Char} (hc : c.toNat < 0xd800) : (Piece.unit c.toNat).StandsFor c := by
  intro pieces
  have hhigh : ¬(0xd800 ≤ c.toNat ∧ c.toNat < 0xdc00) := by omega
  have hlow : ¬(0xdc00 ≤ c.toNat ∧ c.toNat < 0xe000) := by omega
  have hnone : ¬(0xd800 ≤ c.toNat ∧ c.toNat < 0xe000) := by omega
  have halone :
      assemble? (.unit c.toNat :: pieces) = (assemble? pieces).bind fun cs => some (c :: cs) := by
    rcases pieces with _ | ⟨d | low, pieces⟩
    · simp [assemble?, hnone]
    · simp [assemble?, hnone]
    · simp [assemble?, hhigh, hlow]
  rw [halone, Option.map_eq_bind]
  rfl

/-! ### Escapes -/

theorem hexUnit?_hexChar :
    ∀ n < 0x20, hexUnit? '0' '0' (hexChar (n / 16)) (hexChar (n % 16)) = some n := by
  decide

variable (cs : List Char)

theorem pieces?_shorthand {c e : Char} (h : escaped? c = some e) :
    pieces? ('\\' :: c :: cs) = (pieces? cs).map fun p => (.char e :: p.1, p.2) := by
  have hu : c ≠ 'u' := by
    rintro rfl
    simp [escaped?] at h
  rw [pieces?, h]
  · cases pieces? cs <;> rfl
  · exact fun _ _ _ _ _ heq => absurd heq hu

theorem pieces?_unit {a b c d : Char} {n : Nat} (h : hexUnit? a b c d = some n) :
    pieces? ('\\' :: 'u' :: a :: b :: c :: d :: cs) =
      (pieces? cs).map fun p => (.unit n :: p.1, p.2) := by
  rw [pieces?, h]
  cases pieces? cs <;> rfl

theorem pieces?_plain {c : Char} (hquote : c ≠ '"') (hslash : c ≠ '\\') (hc : ¬c.toNat < 0x20) :
    pieces? (c :: cs) = (pieces? cs).map fun p => (.char c :: p.1, p.2) := by
  rw [pieces?, if_neg (not_or.2 ⟨hc, hslash⟩)]
  · cases pieces? cs <;> rfl
  · exact hquote
  · exact fun _ _ _ _ _ heq => absurd heq hslash
  · exact fun _ _ heq => absurd heq hslash

/-- An escaped character is read as a piece that stands for it. -/
theorem exists_piece (c : Char) : ∃ piece : Piece, piece.StandsFor c ∧
    ∀ cs, pieces? (escape c ++ cs) = (pieces? cs).map fun p => (piece :: p.1, p.2) := by
  unfold escape
  split
  case h_8 hquote hslash _ _ _ _ _ =>
    split
    · rename_i hc
      exact ⟨.unit c.toNat, standsFor_unit (by omega), fun cs =>
        pieces?_unit cs (hexUnit?_hexChar c.toNat hc)⟩
    · rename_i hc
      exact ⟨.char c, standsFor_char c, fun cs => pieces?_plain cs hquote hslash hc⟩
  all_goals exact ⟨.char _, standsFor_char _, fun cs => pieces?_shorthand cs rfl⟩

/-! ### Strings -/

/-- A quoted string is read back. -/
theorem string?_quote (s : String) (rest : List Char) :
    string? (s.toList.flatMap escape ++ '"' :: rest) = some (some s, rest) := by
  suffices h : ∀ cs : List Char, ∃ pieces,
      pieces? (cs.flatMap escape ++ '"' :: rest) = some (pieces, rest) ∧
        assemble? pieces = some cs by
    obtain ⟨pieces, hpieces, hassemble⟩ := h s.toList
    simp [string?, hpieces, hassemble]
  intro cs
  induction cs with
  | nil => exact ⟨[], by simp [pieces?], by simp [assemble?]⟩
  | cons c cs ih =>
    obtain ⟨pieces, hpieces, hassemble⟩ := ih
    obtain ⟨piece, hstands, hread⟩ := exists_piece c
    refine ⟨piece :: pieces, ?_, ?_⟩
    · rw [List.flatMap_cons, List.append_assoc, hread, hpieces]
      simp
    · rw [hstands, hassemble]
      simp

end ProForma.Json
