import ProForma.Proofs.Ledger.Canonical
import ProForma.Proofs.Plan.Fill
import ProForma.Proofs.Review
import ProForma.Revision

/-!
# Edits of cells

A revision may enter values and clear cells, one edit after another. What is left in a cell is up to
the last edit of this cell, and the revision passes review whenever the edited cells are those of
accounts in periods of the model.
-/

namespace ProForma

open Book

variable {α : Type}

/-- A value that is entered for a cell, or the cell cleared. -/
structure CellEdit (α : Type) where
  key : CellKey
  value? : Option α

namespace CellEdit

def edit (e : CellEdit α) : Edit α :=
  match e.value? with
  | some x => .enter e.key x
  | none => .clear e.key

/-- The cell that the edit leaves. -/
def cell? (e : CellEdit α) : Option (Cell α) :=
  e.value?.map (⟨·, false⟩)

def applyTo (ledger : Ledger α) (e : CellEdit α) : Ledger α :=
  match e.value? with
  | some x => ledger.insert e.key ⟨x, false⟩
  | none => ledger.erase e.key

/-- The edit in the book of a ledger. -/
def write (book : Book α) (e : CellEdit α) : Book α :=
  match e.value? with
  | some x => book.insert e.key ⟨x, false⟩
  | none => (book.remove e.key).2

/-- The edits of one cell, in their order. -/
def on (key : CellKey) (edits : List (CellEdit α)) : List (CellEdit α) :=
  edits.filter (·.key = key)

/-! ### Ledgers and books -/

variable {edits edits' : List (CellEdit α)} {ledger : Ledger α} {book : Book α} {key : CellKey}

theorem cell?_applyTo (ledger : Ledger α) (e : CellEdit α) (key : CellKey) :
    (applyTo ledger e).cell? key = if key = e.key then e.cell? else ledger.cell? key := by
  obtain ⟨edited, _ | x⟩ := e
  · exact ledger.cell?_erase edited key
  · exact ledger.cell?_insert edited key ⟨x, false⟩

/-- The last edit of a cell decides. -/
theorem cell?_foldl_applyTo (edits : List (CellEdit α)) (ledger : Ledger α) (key : CellKey) :
    (edits.foldl applyTo ledger).cell? key =
      (on key edits).getLast?.elim (ledger.cell? key) CellEdit.cell? := by
  induction edits using List.reverseRecOn with
  | nil => rfl
  | append_singleton edits e ih =>
      rw [List.foldl_concat, cell?_applyTo]
      unfold on at ih ⊢
      by_cases h : key = e.key
      · simp [h]
      · simp [h, Ne.symm h, ih]

theorem foldl_applyTo_eq_of_on_eq (h : ∀ key, on key edits' = on key edits) (ledger : Ledger α) :
    edits'.foldl applyTo ledger = edits.foldl applyTo ledger := by
  apply Ledger.ext_cells
  intro key
  rw [cell?_foldl_applyTo, cell?_foldl_applyTo, h]

theorem kept_write (h : Kept ledger book) (e : CellEdit α) :
    Kept (applyTo ledger e) (write book e) := by
  obtain ⟨key, _ | x⟩ := e
  · exact h.remove key
  · exact h.insert key ⟨x, false⟩

theorem kept_foldl (h : Kept ledger book) (edits : List (CellEdit α)) :
    Kept (edits.foldl applyTo ledger) (edits.foldl write book) := by
  induction edits generalizing ledger book with
  | nil => exact h
  | cons e edits ih => exact ih (kept_write h e)

end CellEdit

/-! ### Models -/

namespace Model

open CellEdit

variable {m : Model α} {edits edits' : List (CellEdit α)} {e : CellEdit α} {key : CellKey}

/-- The cell is of an account in a period of the model. -/
def Knows (m : Model α) (key : CellKey) : Prop :=
  (∃ a ∈ m.accounts, a.id = key.account) ∧ ∃ p ∈ m.periods, p.id = key.period

/-- The model with the edits made. -/
def edited (m : Model α) (edits : List (CellEdit α)) : Model α :=
  { m with ledger := edits.foldl applyTo m.ledger }

theorem apply_edit (h : m.Knows e.key) : Edit.apply m e.edit = .ok (m.edited [e]) := by
  obtain ⟨key, _ | x⟩ := e
  · rfl
  · obtain ⟨haccount, p, hp, hid⟩ := h
    obtain ⟨a, haccount⟩ : ∃ a, m.chart.account key.account = .ok a := Chart.exists_account haccount
    obtain ⟨q, hq⟩ : ∃ q, m.period? key.period = some q :=
      Option.isSome_iff_exists.1 (List.find?_isSome.2 ⟨p, hp, decide_eq_true hid⟩)
    have hperiod : m.period key.period = .ok q := by
      unfold period
      rw [hq]
    exact bind_eq_ok.2 ⟨a, haccount, bind_eq_ok.2 ⟨q, hperiod, rfl⟩⟩

theorem foldlM_apply_edit (h : ∀ e ∈ edits, m.Knows e.key) :
    (edits.map CellEdit.edit).foldlM Edit.apply m = .ok (m.edited edits) := by
  induction edits generalizing m with
  | nil => rfl
  | cons e edits ih =>
      obtain ⟨hfirst, hrest⟩ := List.forall_mem_cons.1 h
      rw [List.map_cons, List.foldlM_cons, apply_edit hfirst]
      exact ih (m := m.edited [e]) hrest

theorem check_edited (hcheck : m.check = .ok ()) (h : ∀ e ∈ edits, m.Knows e.key) :
    (m.edited edits).check = .ok () := by
  refine check_withLedger hcheck fun key => ?_
  rw [cell?_foldl_applyTo]
  cases hlast : (on key edits).getLast? with
  | none => exact .inl rfl
  | some e =>
      have hmem := List.mem_filter.1 (List.mem_of_getLast? hlast)
      obtain rfl : e.key = key := of_decide_eq_true hmem.2
      exact .inr (cellFaults_eq_nil_iff.2 (h e hmem.1))

theorem apply_eq_edited (hcheck : m.check = .ok ()) (h : ∀ e ∈ edits, m.Knows e.key) :
    Revision.apply ⟨[], edits.map CellEdit.edit⟩ m = .ok (m.edited edits) := by
  unfold Revision.apply
  refine bind_eq_ok.2 ⟨m.edited edits, ?_, bind_eq_ok.2 ⟨(), check_edited hcheck h, rfl⟩⟩
  simp only [List.append_nil]
  exact foldlM_apply_edit h

theorem knows_of_on_eq (h : ∀ e ∈ edits, m.Knows e.key)
    (hsame : ∀ key, on key edits' = on key edits) : ∀ e ∈ edits', m.Knows e.key := by
  intro e he
  have hon : e ∈ on e.key edits' := List.mem_filter.2 ⟨he, decide_eq_true rfl⟩
  rw [hsame] at hon
  exact h e (List.mem_filter.1 hon).1

/-- A value entered for a blank cell is gone when the cell is cleared. -/
theorem edited_enter_clear (hblank : m.ledger.cell? key = none) (x : α) :
    m.edited [⟨key, some x⟩, ⟨key, none⟩] = m := by
  have hledger : [⟨key, some x⟩, ⟨key, none⟩].foldl applyTo m.ledger = m.ledger := by
    apply Ledger.ext_cells
    intro k
    rw [cell?_foldl_applyTo]
    by_cases hk : k = key
    · simp [on, hk, CellEdit.cell?, hblank]
    · simp [on, Ne.symm hk]
  unfold edited
  rw [hledger]

/-- **Edits of cells.** A revision that only edits cells, of accounts in periods of the model, ends
well. It leaves everything but the ledger, where a cell has what its last edit leaves, and the other
cells stay. So edits that are the same cell by cell give the same model, and a value entered for a
blank cell and cleared gives the model as it was. All this is so for the book of the ledger as
well. -/
theorem apply_cellEdits (hcheck : m.check = .ok ()) (hknown : ∀ e ∈ edits, m.Knows e.key) :
    (∃ m', Revision.apply ⟨[], edits.map CellEdit.edit⟩ m = .ok m' ∧
      m' = { m with ledger := m'.ledger } ∧
      (∀ key, m'.ledger.cell? key =
        (on key edits).getLast?.elim (m.ledger.cell? key) CellEdit.cell?) ∧
      ∀ book, Kept m.ledger book → Kept m'.ledger (edits.foldl write book)) ∧
    (∀ edits', (∀ key, on key edits' = on key edits) →
      Revision.apply ⟨[], edits'.map CellEdit.edit⟩ m =
        Revision.apply ⟨[], edits.map CellEdit.edit⟩ m ∧
      ∀ book, Kept m.ledger book → edits'.foldl write book = edits.foldl write book) ∧
    ∀ key x, m.Knows key → m.ledger.cell? key = none →
      Revision.apply ⟨[], [.enter key x, .clear key]⟩ m = .ok m ∧
      (∃ m₁, (Revision.ofEdit (.enter key x)).apply m = .ok m₁ ∧
        (Revision.ofEdit (.clear key)).apply m₁ = .ok m) ∧
      ∀ book, Kept m.ledger book → ((book.insert key ⟨x, false⟩).remove key).2 = book := by
  refine ⟨⟨m.edited edits, apply_eq_edited hcheck hknown, rfl,
    cell?_foldl_applyTo edits m.ledger, fun book h => kept_foldl h edits⟩,
    fun edits' hsame => ⟨?same, fun book h => ?samePages⟩, fun key x hkey hblank => ?back⟩
  case same =>
    rw [apply_eq_edited hcheck hknown, apply_eq_edited hcheck (knows_of_on_eq hknown hsame),
      edited, edited, foldl_applyTo_eq_of_on_eq hsame]
  case samePages =>
    refine ((kept_foldl h edits).eq_of_cell?_eq (kept_foldl h edits') ?_).2
    rw [foldl_applyTo_eq_of_on_eq hsame]
  case back =>
    have hback := edited_enter_clear hblank x
    have hboth : ∀ e ∈ [⟨key, some x⟩, (⟨key, none⟩ : CellEdit α)], m.Knows e.key := by
      simpa using hkey
    have hone (x? : Option α) : ∀ e ∈ [(⟨key, x?⟩ : CellEdit α)], m.Knows e.key := by
      simpa using hkey
    refine ⟨(apply_eq_edited hcheck hboth).trans (congrArg _ hback),
      ⟨m.edited [⟨key, some x⟩], apply_eq_edited hcheck (hone (some x)), ?_⟩, fun book h => ?_⟩
    · have hcleared := apply_eq_edited (check_edited hcheck (hone (some x))) (hone none)
      exact hcleared.trans (congrArg _ hback)
    · refine (h.eq_of_cell?_eq (kept_foldl h [⟨key, some x⟩, ⟨key, none⟩]) ?_).2
      exact congrArg (fun m => m.ledger.cell?) hback

/-- Sales of the year to come are entered, cleared and entered anew. The tax is entered and
cleared. -/
def shopEdits : List (CellEdit ℚ) :=
  [⟨⟨⟨"sales"⟩, ⟨"2025"⟩⟩, some 90⟩, ⟨⟨⟨"tax"⟩, ⟨"2025"⟩⟩, some 3⟩,
    ⟨⟨⟨"sales"⟩, ⟨"2025"⟩⟩, none⟩, ⟨⟨⟨"tax"⟩, ⟨"2025"⟩⟩, none⟩,
    ⟨⟨⟨"sales"⟩, ⟨"2025"⟩⟩, some 95⟩]

theorem apply_cellEdits_shop :
    Plan.shop.check = .ok () ∧ (∀ e ∈ shopEdits, Plan.shop.Knows e.key) ∧
    ∃ m', Revision.apply ⟨[], shopEdits.map CellEdit.edit⟩ Plan.shop = .ok m' ∧
      m'.ledger.cell? ⟨⟨"sales"⟩, ⟨"2025"⟩⟩ = some ⟨95, false⟩ ∧
      m'.ledger.cell? ⟨⟨"tax"⟩, ⟨"2025"⟩⟩ = none ∧
      m'.ledger.cell? ⟨⟨"sales"⟩, ⟨"2024"⟩⟩ = some ⟨100, false⟩ := by
  have hcheck : Plan.shop.check = .ok () := rfl
  have hknown : ∀ e ∈ shopEdits, Plan.shop.Knows e.key := by
    unfold Knows
    decide
  obtain ⟨⟨m', happly, -, hcells, -⟩, -, -⟩ := apply_cellEdits hcheck hknown
  exact ⟨hcheck, hknown, m', happly, hcells _, hcells _, hcells _⟩

end Model

end ProForma
