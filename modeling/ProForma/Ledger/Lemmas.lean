import ProForma.Ledger.Basic

/-!
What each operation on a ledger does to its cells, and that the cells make the ledger.
-/

namespace ProForma.Ledger

variable {α : Type}

theorem lookup_cons_eq_ite (key k : CellKey) (cell : Cell α) (entries : List (CellKey × Cell α)) :
    ((key, cell) :: entries).lookup k = if k = key then some cell else entries.lookup k := by
  by_cases h : k = key
  · simp [h]
  · simp [List.lookup_cons, beq_eq_false_iff_ne.2 h, h]

theorem lookup_place (key k : CellKey) (cell : Cell α) (entries : List (CellKey × Cell α)) :
    (place key cell entries).lookup k = if k = key then some cell else entries.lookup k := by
  induction entries with
  | nil => simp [place, lookup_cons_eq_ite]
  | cons entry rest ih =>
    obtain ⟨other, held⟩ := entry
    unfold place
    split
    · simp [lookup_cons_eq_ite]
    · split
      · rename_i heq
        subst heq
        by_cases h : k = key <;> simp [lookup_cons_eq_ite, h]
      · rename_i hne
        by_cases h : k = other
        · subst h
          simp [Ne.symm hne]
        · simp [lookup_cons_eq_ite, h, ih]

theorem lookup_filter (keep : CellKey → Bool) (k : CellKey) (entries : List (CellKey × Cell α)) :
    (entries.filter fun entry => keep entry.1).lookup k =
      if keep k then entries.lookup k else none := by
  induction entries with
  | nil => simp
  | cons entry rest ih =>
    obtain ⟨other, held⟩ := entry
    by_cases h : k = other
    · subst h
      cases hk : keep k <;> simp [hk, ih]
    · cases hk : keep other <;> simp [lookup_cons_eq_ite, hk, h, ih]

@[simp]
theorem cell?_empty (k : CellKey) : (empty : Ledger α).cell? k = none := rfl

@[simp]
theorem cell?_insert (ledger : Ledger α) (key k : CellKey) (cell : Cell α) :
    (ledger.insert key cell).cell? k = if k = key then some cell else ledger.cell? k :=
  lookup_place key k cell ledger.entries

@[simp]
theorem cell?_filter (ledger : Ledger α) (keep : CellKey → Bool) (k : CellKey) :
    (ledger.filter keep).cell? k = if keep k then ledger.cell? k else none :=
  lookup_filter keep k ledger.entries

@[simp]
theorem cell?_erase (ledger : Ledger α) (key k : CellKey) :
    (ledger.erase key).cell? k = if k = key then none else ledger.cell? k := by
  by_cases h : k = key <;> simp [erase, h]

@[simp]
theorem cell?_eraseAccount (ledger : Ledger α) (account : AccountId) (k : CellKey) :
    (ledger.eraseAccount account).cell? k =
      if k.account = account then none else ledger.cell? k := by
  by_cases h : k.account = account <;> simp [eraseAccount, h]

/-- The cells of a ledger are its entries. -/
theorem cell?_eq_some_iff {ledger : Ledger α} {k : CellKey} {cell : Cell α} :
    ledger.cell? k = some cell ↔ (k, cell) ∈ ledger.entries := by
  obtain ⟨entries, hsorted⟩ := ledger
  change entries.lookup k = some cell ↔ _
  induction entries with
  | nil => simp
  | cons entry rest ih =>
    obtain ⟨other, held⟩ := entry
    obtain ⟨hfirst, hrest⟩ := List.pairwise_cons.1 hsorted
    by_cases h : k = other
    · subst h
      have habsent : (k, cell) ∉ rest := fun hmem => CellKey.lt_irrefl k (hfirst _ hmem)
      simp [habsent, eq_comm]
    · simp [lookup_cons_eq_ite, h, ih hrest]

/-- Cells written one after another in ascending order: none is written over by a later one. -/
theorem cell?_foldl_insert {entries : List (CellKey × Cell α)}
    (hsorted : entries.Pairwise fun a b => a.1 < b.1) (ledger : Ledger α) (k : CellKey) :
    (entries.foldl (fun merged entry => merged.insert entry.1 entry.2) ledger).cell? k =
      (entries.lookup k).or (ledger.cell? k) := by
  induction entries generalizing ledger with
  | nil => simp
  | cons entry rest ih =>
    obtain ⟨key, cell⟩ := entry
    obtain ⟨hfirst, hrest⟩ := List.pairwise_cons.1 hsorted
    rw [List.foldl_cons, ih hrest, cell?_insert, lookup_cons_eq_ite]
    by_cases h : k = key
    · subst h
      have habsent : rest.lookup k = none := by
        refine Option.eq_none_iff_forall_ne_some.2 fun held hheld => ?_
        have hcell : cell? ⟨rest, hrest⟩ k = some held := hheld
        exact CellKey.lt_irrefl k (hfirst _ (cell?_eq_some_iff.1 hcell))
      simp [habsent]
    · simp [h]

/-- A merged ledger has the cells of the updates, and those of the first ledger elsewhere. -/
@[simp]
theorem cell?_merge (ledger updates : Ledger α) (k : CellKey) :
    (ledger.merge updates).cell? k = (updates.cell? k).or (ledger.cell? k) :=
  cell?_foldl_insert updates.sorted ledger k

theorem eq_of_mem_iff {a b : List (CellKey × Cell α)}
    (ha : a.Pairwise fun x y => x.1 < y.1) (hb : b.Pairwise fun x y => x.1 < y.1)
    (h : ∀ entry, entry ∈ a ↔ entry ∈ b) : a = b := by
  induction a generalizing b with
  | nil =>
    cases b with
    | nil => rfl
    | cons y b => exact absurd ((h y).2 List.mem_cons_self) List.not_mem_nil
  | cons x a ih =>
    cases b with
    | nil => exact absurd ((h x).1 List.mem_cons_self) List.not_mem_nil
    | cons y b =>
      obtain ⟨hx, hxs⟩ := List.pairwise_cons.1 ha
      obtain ⟨hy, hys⟩ := List.pairwise_cons.1 hb
      have hxy : x = y := by
        rcases List.mem_cons.1 ((h x).1 List.mem_cons_self) with hxy | hxb
        · exact hxy
        · rcases List.mem_cons.1 ((h y).2 List.mem_cons_self) with hyx | hya
          · exact hyx.symm
          · exact absurd (CellKey.lt_trans (hy x hxb) (hx y hya)) (CellKey.lt_irrefl _)
      subst hxy
      refine congrArg (x :: ·) (ih hxs hys fun entry => ⟨fun hmem => ?_, fun hmem => ?_⟩)
      · rcases List.mem_cons.1 ((h entry).1 (List.mem_cons_of_mem _ hmem)) with rfl | hmem'
        · exact absurd (hx _ hmem) (CellKey.lt_irrefl _)
        · exact hmem'
      · rcases List.mem_cons.1 ((h entry).2 (List.mem_cons_of_mem _ hmem)) with rfl | hmem'
        · exact absurd (hy _ hmem) (CellKey.lt_irrefl _)
        · exact hmem'

/-- Ledgers with the same cells are the same. -/
@[ext]
theorem ext_cells {a b : Ledger α} (h : ∀ k, a.cell? k = b.cell? k) : a = b := by
  have hmem : ∀ entry, entry ∈ a.entries ↔ entry ∈ b.entries := fun (k, cell) => by
    rw [← cell?_eq_some_iff, ← cell?_eq_some_iff, h k]
  have hentries := eq_of_mem_iff a.sorted b.sorted hmem
  obtain ⟨entriesA, _⟩ := a
  obtain ⟨entriesB, _⟩ := b
  subst hentries
  rfl

/-- Nothing changes where there is no cell. -/
theorem erase_eq_self {ledger : Ledger α} {key : CellKey} (h : ledger.cell? key = none) :
    ledger.erase key = ledger := by
  ext k : 1
  rw [cell?_erase]
  split
  · rename_i hkey
    rw [hkey, h]
  · rfl

end ProForma.Ledger
