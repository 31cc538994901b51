import Mathlib.Algebra.GroupWithZero.Nat
import Mathlib.Tactic.Common
import ProForma.Ledger.Lemmas

/-!
Ledgers by pages: one page for each account, with one cell for each period. A change goes to one
page, and a page that loses its last cell is torn out. The entries of all pages are in the order of
a ledger.
-/

namespace ProForma

open Std

instance : Ord AccountId := ⟨compareOn AccountId.text⟩

instance : Ord PeriodId := ⟨compareOn PeriodId.text⟩

instance : TransOrd AccountId := inferInstanceAs (TransCmp (compareOn AccountId.text))

instance : TransOrd PeriodId := inferInstanceAs (TransCmp (compareOn PeriodId.text))

theorem AccountId.compare_eq_lt {a b : AccountId} : compare a b = .lt ↔ a.text < b.text :=
  compareOfLessAndEq_eq_lt

theorem PeriodId.compare_eq_lt {p q : PeriodId} : compare p q = .lt ↔ p.text < q.text :=
  compareOfLessAndEq_eq_lt

instance : LawfulEqOrd AccountId where
  compare_self {a} := compare_self (a := a.text)
  eq_of_compare {a b} h := by
    have htext : a.text = b.text := LawfulEqOrd.eq_of_compare (α := String) h
    cases a; cases b; congr

instance : LawfulEqOrd PeriodId where
  compare_self {p} := compare_self (a := p.text)
  eq_of_compare {p q} h := by
    have htext : p.text = q.text := LawfulEqOrd.eq_of_compare (α := String) h
    cases p; cases q; congr

structure Book (α : Type) where
  pages : ExtTreeMap AccountId (ExtTreeMap PeriodId (Cell α))

namespace Book

variable {α : Type}

def empty : Book α := ⟨∅⟩

def cell? (book : Book α) (key : CellKey) : Option (Cell α) :=
  book.pages[key.account]?.bind fun page => page[key.period]?

/-- Writes a cell. An account without a page gets a blank one first. -/
def insert (book : Book α) (key : CellKey) (cell : Cell α) : Book α :=
  ⟨book.pages.alter key.account fun page? => some ((page?.getD ∅).insert key.period cell)⟩

/-- Takes a cell out, and the page with its last one. -/
def remove (book : Book α) (key : CellKey) : Option (Cell α) × Book α :=
  match book.pages[key.account]? with
  | none => (none, book)
  | some page =>
    let rest := page.erase key.period
    (page[key.period]?,
      ⟨if rest.isEmpty then book.pages.erase key.account
        else book.pages.insert key.account rest⟩)

def removeAccount (book : Book α) (account : AccountId) : Book α :=
  ⟨book.pages.erase account⟩

def size (book : Book α) : Nat :=
  (book.pages.toList.map fun entry => entry.2.size).sum

def pageEntries (account : AccountId) (page : ExtTreeMap PeriodId (Cell α)) :
    List (CellKey × Cell α) :=
  page.toList.map fun entry => (⟨account, entry.1⟩, entry.2)

/-- The cells, page by page. -/
def entries (book : Book α) : List (CellKey × Cell α) :=
  book.pages.toList.flatMap fun entry => pageEntries entry.1 entry.2

/-- Writes the cells of another book over this one. -/
def merge (book updates : Book α) : Book α :=
  updates.entries.foldl (fun merged entry => merged.insert entry.1 entry.2) book

/-- Records postings one after another. Fails with the first cell that is there already. -/
def post : Book α → List (Posting α) → Except CellKey (Book α)
  | book, [] => .ok book
  | book, p :: postings =>
    if (book.cell? p.key).isSome then .error p.key
    else post (book.insert p.key p.cell) postings

def ofPostings? (postings : List (Posting α)) : Except CellKey (Book α) :=
  empty.post postings

/-! ### Cells -/

@[simp]
theorem cell?_empty (k : CellKey) : (empty : Book α).cell? k = none := by
  simp [empty, cell?]

theorem getElem?_getD_pages (book : Book α) (account : AccountId) (period : PeriodId) :
    (book.pages[account]?.getD ∅)[period]? = book.cell? ⟨account, period⟩ := by
  unfold cell?
  cases book.pages[account]? <;> simp

theorem cell?_insert (book : Book α) (key k : CellKey) (cell : Cell α) :
    (book.insert key cell).cell? k = if k = key then some cell else book.cell? k := by
  obtain ⟨account, period⟩ := key
  obtain ⟨a, p⟩ := k
  unfold cell? insert
  simp only [ExtTreeMap.getElem?_alter, Std.compare_eq_iff_eq, CellKey.mk.injEq]
  by_cases ha : account = a
  · subst ha
    cases book.pages[account]? <;>
      simp [ExtTreeMap.getElem?_insert, eq_comm (a := period)]
  · simp [ha, Ne.symm ha]

theorem remove_fst (book : Book α) (key : CellKey) : (book.remove key).1 = book.cell? key := by
  unfold remove cell?
  cases book.pages[key.account]? <;> rfl

/-- A removal leaves the pages of the other accounts alone. The page of its account is missing when
it has become blank. -/
theorem getElem?_pages_remove (book : Book α) (key : CellKey) (a : AccountId) :
    (book.remove key).2.pages[a]? =
      if key.account = a then
        (book.pages[a]?.map (·.erase key.period)).filter fun page => !page.isEmpty
      else book.pages[a]? := by
  unfold remove
  by_cases ha : key.account = a
  · subst ha
    cases hpage : book.pages[key.account]? with
    | none => simp [hpage]
    | some page => by_cases hrest : (page.erase key.period).isEmpty <;> simp [hrest, Option.filter]
  · cases book.pages[key.account]? with
    | none => simp [ha]
    | some page =>
      by_cases hrest : (page.erase key.period).isEmpty <;>
        simp [hrest, ha, ExtTreeMap.getElem?_erase, ExtTreeMap.getElem?_insert]

theorem cell?_remove (book : Book α) (key k : CellKey) :
    (book.remove key).2.cell? k = if k = key then none else book.cell? k := by
  obtain ⟨account, period⟩ := key
  obtain ⟨a, p⟩ := k
  unfold cell?
  rw [getElem?_pages_remove]
  by_cases ha : account = a
  · subst ha
    cases book.pages[account]? with
    | none => simp
    | some page =>
      -- A blank page and a missing one show the same cells.
      have hshown : ((some (page.erase period)).filter fun page => !page.isEmpty).bind
          (fun page => page[p]?) = (page.erase period)[p]? := by
        by_cases hblank : page.erase period = ∅ <;> simp [Option.filter, hblank]
      simp [hshown, ExtTreeMap.getElem?_erase, eq_comm (a := period)]
  · simp [ha, Ne.symm ha]

theorem cell?_removeAccount (book : Book α) (account : AccountId) (k : CellKey) :
    (book.removeAccount account).cell? k =
      if k.account = account then none else book.cell? k := by
  unfold removeAccount cell?
  by_cases h : account = k.account
  · simp [h]
  · simp [ExtTreeMap.getElem?_erase, h, Ne.symm h]

theorem mem_entries {book : Book α} {k : CellKey} {cell : Cell α} :
    (k, cell) ∈ book.entries ↔ book.cell? k = some cell := by
  obtain ⟨a, p⟩ := k
  simp only [entries, pageEntries, cell?, List.mem_flatMap, List.mem_map, Prod.exists,
    ExtTreeMap.mem_toList_iff_getElem?_eq_some, Option.bind_eq_some_iff, Prod.mk.injEq,
    CellKey.mk.injEq]
  constructor
  · rintro ⟨_, page, hpage, _, _, hcell, ⟨rfl, rfl⟩, rfl⟩
    exact ⟨page, hpage, hcell⟩
  · rintro ⟨page, hpage, hcell⟩
    exact ⟨a, page, hpage, p, cell, hcell, ⟨rfl, rfl⟩, rfl⟩

theorem entries_sorted (book : Book α) : book.entries.Pairwise fun a b => a.1 < b.1 := by
  refine List.pairwise_flatMap.2 ⟨fun (account, page) _ => ?_, ?_⟩
  · refine List.pairwise_map.2 (ExtTreeMap.ordered_keys_toList.imp fun hlt => ?_)
    exact .inr ⟨rfl, PeriodId.compare_eq_lt.1 hlt⟩
  · refine ExtTreeMap.ordered_keys_toList.imp fun hlt x hx y hy => ?_
    obtain ⟨_, _, rfl⟩ := List.mem_map.1 hx
    obtain ⟨_, _, rfl⟩ := List.mem_map.1 hy
    exact .inl (AccountId.compare_eq_lt.1 hlt)

theorem length_entries (book : Book α) : book.entries.length = book.size := by
  simp [entries, pageEntries, size]

end Book

end ProForma
