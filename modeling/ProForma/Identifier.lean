/-!
Identifiers of accounts and periods, and the cells they address. Cells are ordered by account,
then by period, each by the code points of its text.
-/

namespace ProForma

structure AccountId where
  text : String
deriving DecidableEq

structure PeriodId where
  text : String
deriving DecidableEq

/-- The place of one account's value in one period. -/
structure CellKey where
  account : AccountId
  period : PeriodId
deriving DecidableEq

namespace CellKey

protected def lt (a b : CellKey) : Prop :=
  a.account.text < b.account.text ∨ a.account = b.account ∧ a.period.text < b.period.text

instance : LT CellKey := ⟨CellKey.lt⟩

instance (a b : CellKey) : Decidable (a < b) := by
  change Decidable (CellKey.lt a b); unfold CellKey.lt; infer_instance

theorem lt_irrefl (a : CellKey) : ¬a < a := by
  rintro (h | ⟨_, h⟩) <;> exact String.lt_irrefl _ h

theorem lt_trans {a b c : CellKey} (hab : a < b) (hbc : b < c) : a < c := by
  rcases hab with hab | ⟨hab, hab'⟩ <;> rcases hbc with hbc | ⟨hbc, hbc'⟩
  · exact .inl (String.lt_trans hab hbc)
  · exact .inl (hbc ▸ hab)
  · exact .inl (hab ▸ hbc)
  · exact .inr ⟨hab.trans hbc, String.lt_trans hab' hbc'⟩

theorem lt_of_not_lt_of_ne {a b : CellKey} (h : ¬a < b) (hne : a ≠ b) : b < a := by
  obtain ⟨⟨a⟩, ⟨p⟩⟩ := a
  obtain ⟨⟨b⟩, ⟨q⟩⟩ := b
  have hle : ¬a < b := fun hab => h (.inl hab)
  by_cases hab : b < a
  · exact .inl hab
  · obtain rfl : a = b := String.le_antisymm (String.not_lt.1 hab) (String.not_lt.1 hle)
    have hpq : ¬p < q := fun hpq => h (.inr ⟨rfl, hpq⟩)
    have hqp : q < p := by
      by_cases hqp : q < p
      · exact hqp
      · exact absurd (String.le_antisymm (String.not_lt.1 hqp) (String.not_lt.1 hpq))
          fun heq => hne (by rw [heq])
    exact .inr ⟨rfl, hqp⟩

end CellKey

end ProForma
