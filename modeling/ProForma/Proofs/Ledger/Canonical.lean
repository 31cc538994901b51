import Mathlib.Data.Finset.Card
import ProForma.Proofs.Ledger.Book

/-!
A ledger and its book side by side. Whatever changes a ledger has been through, the book that went
through the same ones lists the same entries, has no blank page, and is the only such book with its
cells.
-/

namespace ProForma

variable {α : Type}

/-- The size of a ledger is the number of its keys. -/
theorem Ledger.exists_keys (ledger : Ledger α) :
    ∃ keys : Finset CellKey, (∀ k, k ∈ keys ↔ (ledger.cell? k).isSome) ∧
      ledger.size = keys.card := by
  have hnodup : (ledger.entries.map Prod.fst).Nodup := by
    refine List.pairwise_map.2 (ledger.sorted.imp fun {a b} hlt heq => ?_)
    exact CellKey.lt_irrefl b.1 (heq ▸ hlt)
  refine ⟨(ledger.entries.map Prod.fst).toFinset, fun k => ?_, ?_⟩
  · simp [Option.isSome_iff_exists, cell?_eq_some_iff]
  · rw [List.toFinset_card_of_nodup hnodup, List.length_map, size]

namespace Book

open Std

/-- The entries of all pages as one ledger. -/
def ledger (book : Book α) : Ledger α := ⟨book.entries, book.entries_sorted⟩

@[simp]
theorem cell?_ledger (book : Book α) (k : CellKey) : book.ledger.cell? k = book.cell? k :=
  Option.ext fun _ => Ledger.cell?_eq_some_iff.trans mem_entries

theorem ledger_empty : (empty : Book α).ledger = .empty := by
  ext k
  simp

theorem ledger_insert (book : Book α) (key : CellKey) (cell : Cell α) :
    (book.insert key cell).ledger = book.ledger.insert key cell := by
  apply Ledger.ext_cells
  intro k
  simp [cell?_insert]

theorem ledger_remove (book : Book α) (key : CellKey) :
    (book.remove key).2.ledger = book.ledger.erase key := by
  apply Ledger.ext_cells
  intro k
  simp [cell?_remove]

theorem ledger_removeAccount (book : Book α) (account : AccountId) :
    (book.removeAccount account).ledger = book.ledger.eraseAccount account := by
  apply Ledger.ext_cells
  intro k
  simp [cell?_removeAccount]

theorem ledger_foldl_insert (entries : List (CellKey × Cell α)) (book : Book α) :
    (entries.foldl (fun merged entry => merged.insert entry.1 entry.2) book).ledger =
      entries.foldl (fun merged entry => merged.insert entry.1 entry.2) book.ledger := by
  induction entries generalizing book with
  | nil => rfl
  | cons entry rest ih => rw [List.foldl_cons, List.foldl_cons, ih, ledger_insert]

theorem ledger_merge (book updates : Book α) :
    (book.merge updates).ledger = book.ledger.merge updates.ledger :=
  ledger_foldl_insert updates.entries book

/-- Postings are recorded in a book as they are in a ledger, and fail at the same one. -/
theorem map_ledger_post (postings : List (Posting α)) (book : Book α) :
    (book.post postings).map ledger = book.ledger.post postings := by
  induction postings generalizing book with
  | nil => rfl
  | cons p postings ih =>
    unfold post Ledger.post
    rw [cell?_ledger]
    split
    · rfl
    · rw [ih, ledger_insert]

theorem map_ledger_ofPostings? (postings : List (Posting α)) :
    (ofPostings? postings).map ledger = Ledger.ofPostings? postings := by
  rw [ofPostings?, map_ledger_post, ledger_empty, Ledger.ofPostings?]

/-! ### No blank page -/

def NoBlankPage (book : Book α) : Prop :=
  ∀ (account : AccountId) (page : ExtTreeMap PeriodId (Cell α)),
    book.pages[account]? = some page → page ≠ ∅

namespace NoBlankPage

variable {book updates : Book α}

theorem empty : (empty : Book α).NoBlankPage := by
  intro account page hpage
  simp [Book.empty] at hpage

theorem insert (h : book.NoBlankPage) (key : CellKey) (cell : Cell α) :
    (book.insert key cell).NoBlankPage := by
  intro account page hpage
  simp only [Book.insert, ExtTreeMap.getElem?_alter, Std.compare_eq_iff_eq] at hpage
  split at hpage
  · rw [← Option.some.inj hpage]
    exact ExtTreeMap.insert_ne_empty
  · exact h account page hpage

theorem remove (h : book.NoBlankPage) (key : CellKey) : (book.remove key).2.NoBlankPage := by
  intro account page hpage
  rw [getElem?_pages_remove] at hpage
  split at hpage
  · simpa using (Option.filter_eq_some_iff.1 hpage).2
  · exact h account page hpage

theorem removeAccount (h : book.NoBlankPage) (account : AccountId) :
    (book.removeAccount account).NoBlankPage := by
  intro other page hpage
  simp only [Book.removeAccount, ExtTreeMap.getElem?_erase] at hpage
  split at hpage
  · cases hpage
  · exact h other page hpage

theorem merge (h : book.NoBlankPage) (updates : Book α) : (book.merge updates).NoBlankPage := by
  unfold Book.merge
  induction updates.entries generalizing book with
  | nil => exact h
  | cons entry rest ih => exact ih (h.insert entry.1 entry.2)

theorem post {postings : List (Posting α)} {posted : Book α} (h : book.NoBlankPage)
    (hposted : book.post postings = .ok posted) : posted.NoBlankPage := by
  induction postings generalizing book with
  | nil =>
    cases hposted
    exact h
  | cons p postings ih =>
    unfold Book.post at hposted
    split at hposted
    · cases hposted
    · exact ih (h.insert p.key p.cell) hposted

/-- The cells of an account decide its page, which is missing when there are none. -/
theorem getElem?_pages (h : book.NoBlankPage) (account : AccountId) :
    book.pages[account]? =
      (some (book.pages[account]?.getD ∅)).filter fun page => !page.isEmpty := by
  cases hpage : book.pages[account]? with
  | none => simp [Option.filter]
  | some page => simp [Option.filter, h account page hpage]

theorem eq_of_cell?_eq {other : Book α} (h : book.NoBlankPage) (hother : other.NoBlankPage)
    (hcells : book.cell? = other.cell?) : book = other := by
  have hpage (account : AccountId) :
      book.pages[account]?.getD ∅ = other.pages[account]?.getD ∅ := by
    apply ExtTreeMap.ext_getElem?
    intro period
    calc (book.pages[account]?.getD ∅)[period]?
        = book.cell? ⟨account, period⟩ := getElem?_getD_pages book account period
      _ = other.cell? ⟨account, period⟩ := congrFun hcells _
      _ = (other.pages[account]?.getD ∅)[period]? :=
          (getElem?_getD_pages other account period).symm
  have hpages : book.pages = other.pages := by
    apply ExtTreeMap.ext_getElem?
    intro account
    rw [h.getElem?_pages, hother.getElem?_pages, hpage]
  cases book; cases other; congr

end NoBlankPage

/-! ### Side by side -/

/-- A ledger and a book that went through the same changes, from nothing or from recorded
postings on. -/
inductive Kept : Ledger α → Book α → Prop
  | empty : Kept .empty .empty
  | load {postings : List (Posting α)} {ledger : Ledger α} {book : Book α}
      (hledger : Ledger.ofPostings? postings = .ok ledger)
      (hbook : ofPostings? postings = .ok book) : Kept ledger book
  | insert {ledger : Ledger α} {book : Book α} (key : CellKey) (cell : Cell α)
      (h : Kept ledger book) : Kept (ledger.insert key cell) (book.insert key cell)
  | remove {ledger : Ledger α} {book : Book α} (key : CellKey) (h : Kept ledger book) :
      Kept (ledger.erase key) (book.remove key).2
  | removeAccount {ledger : Ledger α} {book : Book α} (account : AccountId)
      (h : Kept ledger book) : Kept (ledger.eraseAccount account) (book.removeAccount account)
  | merge {ledger updates : Ledger α} {book pages : Book α} (h : Kept ledger book)
      (hupdates : Kept updates pages) : Kept (ledger.merge updates) (book.merge pages)

/-- Both give these cells. -/
def Shows (ledger : Ledger α) (book : Book α) (cells : CellKey → Option (Cell α)) : Prop :=
  ledger.cell? = cells ∧ book.cell? = cells

namespace Kept

variable {ledger : Ledger α} {book : Book α}

theorem ledger_eq (h : Kept ledger book) : book.ledger = ledger := by
  induction h with
  | empty => exact ledger_empty
  | @load postings ledger book hledger hbook =>
    have hmap := map_ledger_ofPostings? postings
    rw [hledger, hbook] at hmap
    exact Except.ok.inj hmap
  | insert key cell _ ih => rw [ledger_insert, ih]
  | remove key _ ih => rw [ledger_remove, ih]
  | removeAccount account _ ih => rw [ledger_removeAccount, ih]
  | merge _ _ ih ihupdates => rw [ledger_merge, ih, ihupdates]

theorem noBlankPage (h : Kept ledger book) : book.NoBlankPage := by
  induction h with
  | empty => exact .empty
  | load _ hbook => exact NoBlankPage.empty.post hbook
  | insert key cell _ ih => exact ih.insert key cell
  | remove key _ ih => exact ih.remove key
  | removeAccount account _ ih => exact ih.removeAccount account
  | merge _ _ ih _ => exact ih.merge _

theorem shows {cells : CellKey → Option (Cell α)} (h : Kept ledger book)
    (hcells : ∀ k, ledger.cell? k = cells k) : Shows ledger book cells := by
  have hledger : ledger.cell? = cells := funext hcells
  refine ⟨hledger, ?_⟩
  calc book.cell? = book.ledger.cell? := (funext book.cell?_ledger).symm
    _ = ledger.cell? := by rw [h.ledger_eq]
    _ = cells := hledger

/-- The cells decide the ledger and its book, whatever changes led to them. -/
theorem eq_of_cell?_eq {ledger' : Ledger α} {book' : Book α} (h : Kept ledger book)
    (h' : Kept ledger' book') (hcells : ledger'.cell? = ledger.cell?) :
    ledger' = ledger ∧ book' = book := by
  constructor
  · exact Ledger.ext_cells (congrFun hcells)
  · apply h'.noBlankPage.eq_of_cell?_eq h.noBlankPage
    calc book'.cell? = ledger'.cell? := (h'.shows fun _ => rfl).2
      _ = ledger.cell? := hcells
      _ = book.cell? := (h.shows fun _ => rfl).2.symm

theorem size_eq (h : Kept ledger book) : ledger.size = book.size :=
  calc ledger.size = book.ledger.size := by rw [h.ledger_eq]
    _ = book.size := book.length_entries

/-- Ledgers are finite maps by account and period, also in the form that has a page for each
account: each operation does to the cells what it does to a finite map, no change leaves a blank
page behind, so that the pages do not tell what changes led to them, the size counts the keys, and
the entries have each key once, by account and then by period. -/
theorem canonical (h : Kept ledger book) :
    Shows ledger book ledger.cell? ∧
    (∀ key cell, Shows (ledger.insert key cell) (book.insert key cell)
      (Function.update ledger.cell? key (some cell))) ∧
    (∀ key, (book.remove key).1 = ledger.cell? key ∧
      Shows (ledger.erase key) (book.remove key).2 (Function.update ledger.cell? key none)) ∧
    (∀ account, Shows (ledger.eraseAccount account) (book.removeAccount account) fun k =>
      if k.account = account then none else ledger.cell? k) ∧
    (∀ updates pages, Kept updates pages → Shows (ledger.merge updates) (book.merge pages) fun k =>
      (updates.cell? k).or (ledger.cell? k)) ∧
    book.NoBlankPage ∧
    (∀ ledger' book', Kept ledger' book' → ledger'.cell? = ledger.cell? →
      ledger' = ledger ∧ book' = book) ∧
    (∃ keys : Finset CellKey, (∀ k, k ∈ keys ↔ (ledger.cell? k).isSome) ∧
      ledger.size = keys.card ∧ book.size = keys.card) ∧
    book.entries = ledger.entries ∧
    (∀ k cell, (k, cell) ∈ ledger.entries ↔ ledger.cell? k = some cell) ∧
    ledger.entries.Pairwise fun a b => a.1 < b.1 := by
  have hshows : Shows ledger book ledger.cell? := h.shows fun _ => rfl
  refine ⟨hshows, fun key cell => ?insert, fun key => ⟨?removed, ?remove⟩, fun account => ?account,
    fun updates pages hupdates => ?merge, h.noBlankPage, fun ledger' book' h' => ?unique, ?size,
    ?entries, fun k cell => Ledger.cell?_eq_some_iff.symm, ledger.sorted⟩
  case insert =>
    apply (h.insert key cell).shows
    intro k
    rw [Ledger.cell?_insert, Function.update_apply]
  case removed => rw [remove_fst, hshows.2]
  case remove =>
    apply (h.remove key).shows
    intro k
    rw [Ledger.cell?_erase, Function.update_apply]
  case account => exact (h.removeAccount account).shows (ledger.cell?_eraseAccount account)
  case merge => exact (h.merge hupdates).shows (ledger.cell?_merge updates)
  case unique => exact h.eq_of_cell?_eq h'
  case size =>
    obtain ⟨keys, hkeys, hsize⟩ := ledger.exists_keys
    exact ⟨keys, hkeys, hsize, h.size_eq ▸ hsize⟩
  case entries => exact congrArg Ledger.entries h.ledger_eq

/-- The only sale of a year taken back leaves the book of the rent alone, with no page for sales. -/
theorem canonical_sale_taken_back :
    let rent : CellKey := ⟨⟨"rent"⟩, ⟨"2024"⟩⟩
    let sales : CellKey := ⟨⟨"sales"⟩, ⟨"2024"⟩⟩
    let paid : Book Int := Book.empty.insert rent ⟨30, false⟩
    ((paid.insert sales ⟨50, true⟩).remove sales).2 = paid ∧ paid.size = 1 := by
  intro rent sales paid
  have hpaid : Kept (Ledger.empty.insert rent ⟨30, false⟩) paid := .insert _ _ .empty
  have hback := (hpaid.insert sales ⟨50, true⟩).remove sales
  obtain ⟨-, -, -, -, -, -, hunique, -, -⟩ := canonical hpaid
  refine ⟨(hunique _ _ hback ?_).2, hpaid.size_eq.symm⟩
  have hne : sales ≠ rent := by decide
  funext k
  by_cases hk : k = sales
  · simp [hk, hne]
  · simp [hk]

end Kept

end Book

end ProForma
