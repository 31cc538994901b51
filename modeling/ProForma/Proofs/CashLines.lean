import ProForma.Proofs.Review
import ProForma.Reconciliation

/-!
# What a reconciliation writes

A reconciliation writes the cells of four cash lines in its period. In a model that passes review
these are lines of different accounts, so that none of the four is overwritten by another one, and
writing them once more makes no difference.
-/

namespace ProForma.Reconciliation

/-! ### Lines -/

section Lines

variable {α : Type} {chart : Chart α} {period : PeriodId} {lines : List (KeyLine × α)}
  {line : KeyLine × α} {a : Account α} {key : CellKey}

def writeLine (chart : Chart α) (period : PeriodId) (ledger : Ledger α) (line : KeyLine × α) :
    Ledger α :=
  match chart.key? line.1 with
  | some a => ledger.derive ⟨a.id, period⟩ line.2
  | none => ledger

theorem cell?_writeLine (ledger : Ledger α) (ha : chart.key? line.1 = some a) :
    (writeLine chart period ledger line).cell? ⟨a.id, period⟩ = some ⟨line.2, true⟩ := by
  unfold writeLine
  rw [ha]
  exact (Ledger.cell?_insert _ _ _ _).trans (if_pos rfl)

theorem cell?_writeLine_of_ne (ledger : Ledger α)
    (h : ∀ a, chart.key? line.1 = some a → key ≠ ⟨a.id, period⟩) :
    (writeLine chart period ledger line).cell? key = ledger.cell? key := by
  unfold writeLine
  split
  · rename_i a ha
    exact (Ledger.cell?_insert _ _ _ _).trans (if_neg (h a ha))
  · rfl

theorem cell?_foldl_writeLine_of_ne (ledger : Ledger α)
    (h : ∀ line ∈ lines, ∀ a, chart.key? line.1 = some a → key ≠ ⟨a.id, period⟩) :
    (lines.foldl (writeLine chart period) ledger).cell? key = ledger.cell? key := by
  induction lines generalizing ledger with
  | nil => rfl
  | cons first rest ih =>
      rw [List.foldl_cons, ih _ fun line hline => h line (List.mem_cons_of_mem _ hline)]
      apply cell?_writeLine_of_ne
      exact h first List.mem_cons_self

/-- Different key lines are on accounts with different identifiers. -/
theorem id_ne_of_key? (hfaults : chart.faults = []) {key other : KeyLine} {a b : Account α}
    (ha : chart.key? key = some a) (hb : chart.key? other = some b) (hne : key ≠ other) :
    a.id ≠ b.id := by
  intro hid
  have hnodup := Chart.nodup_ids_of_faults hfaults
  have hkey : a.key = some key := by simpa using List.find?_some ha
  have hother : b.key = some other := by simpa using List.find?_some hb
  obtain rfl : a = b := List.inj_on_of_nodup_map hnodup (List.mem_of_find?_eq_some ha)
    (List.mem_of_find?_eq_some hb) hid
  exact hne (Option.some.inj (hkey.symm.trans hother))

theorem cell?_foldl_writeLine (hfaults : chart.faults = []) (ledger : Ledger α)
    (hnodup : (lines.map Prod.fst).Nodup) (hline : line ∈ lines)
    (ha : chart.key? line.1 = some a) :
    (lines.foldl (writeLine chart period) ledger).cell? ⟨a.id, period⟩ = some ⟨line.2, true⟩ := by
  induction lines generalizing ledger with
  | nil => cases hline
  | cons first rest ih =>
      rw [List.map_cons, List.nodup_cons] at hnodup
      rw [List.foldl_cons]
      rcases List.mem_cons.1 hline with rfl | hline
      · -- The lines that come later are on other accounts.
        rw [cell?_foldl_writeLine_of_ne, cell?_writeLine ledger ha]
        intro later hlater b hb hkey
        have hne : line.1 ≠ later.1 := fun hsame =>
          hnodup.1 (hsame ▸ List.mem_map_of_mem hlater)
        exact id_ne_of_key? hfaults ha hb hne (congrArg CellKey.account hkey)
      · exact ih _ hnodup.2 hline

end Lines

/-! ### The cash lines -/

variable {α : Type} [Amount α] {m : Model α} {a : Account α} {key : CellKey} {line : KeyLine × α}
  {r : Reconciliation α}

/-- The cash lines, with the amounts that are written for them. -/
def lines (r : Reconciliation α) : List (KeyLine × α) :=
  [(.cashBeginningBalance, r.beginning), (.cashChange, r.change), (.cashEndingBalance, r.ending),
    (.cashTotal, r.ending)]

theorem written_eq_foldl (r : Reconciliation α) (m : Model α) :
    r.written m = r.lines.foldl (writeLine m.chart r.period) m.ledger :=
  rfl

theorem cell?_written_of_line (hfaults : m.chart.faults = []) (hline : line ∈ r.lines)
    (ha : m.chart.key? line.1 = some a) :
    (r.written m).cell? ⟨a.id, r.period⟩ = some ⟨line.2, true⟩ := by
  have hnodup : (r.lines.map Prod.fst).Nodup := by
    change [KeyLine.cashBeginningBalance, .cashChange, .cashEndingBalance, .cashTotal].Nodup
    decide
  exact cell?_foldl_writeLine hfaults m.ledger hnodup hline ha

theorem cell?_written_of_ne
    (h : ∀ line ∈ r.lines, ∀ a, m.chart.key? line.1 = some a → key ≠ ⟨a.id, r.period⟩) :
    (r.written m).cell? key = m.ledger.cell? key :=
  cell?_foldl_writeLine_of_ne m.ledger h

/-- Writing the same amounts again makes no difference. -/
theorem written_written (hfaults : m.chart.faults = []) :
    r.written { m with ledger := r.written m } = r.written m := by
  ext key : 1
  by_cases hkey : ∃ line ∈ r.lines, ∃ a, m.chart.key? line.1 = some a ∧ key = ⟨a.id, r.period⟩
  · obtain ⟨line, hline, a, ha, rfl⟩ := hkey
    calc (r.written { m with ledger := r.written m }).cell? ⟨a.id, r.period⟩
        = some ⟨line.2, true⟩ := by
          apply cell?_written_of_line (m := { m with ledger := r.written m }) hfaults hline ha
      _ = (r.written m).cell? ⟨a.id, r.period⟩ := (cell?_written_of_line hfaults hline ha).symm
  · apply cell?_written_of_ne
    exact fun line hline a ha hsame => hkey ⟨line, hline, a, ha, hsame⟩

end ProForma.Reconciliation
