import Mathlib.Data.List.Nodup
import ProForma.Proofs.Ledger.Canonical
import ProForma.Proofs.Record.Model
import ProForma.Workbook

/-!
# Ledgers as lists of postings

Postings are recorded one after another, up to the first whose cell is taken. If there is none, the
ledger lists the postings again, in order; and what a ledger lists gives the ledger back.
-/

namespace ProForma

variable {α : Type}

/-- The posting is the first one whose cell an earlier one takes. -/
def Posting.IsFirstRepeat (p : Posting α) (postings : List (Posting α)) : Prop :=
  ∃ earlier later, postings = earlier ++ p :: later ∧ (earlier.map Posting.key).Nodup ∧
    p.key ∈ earlier.map Posting.key

namespace Ledger

variable {ledger posted : Ledger α} {postings : List (Posting α)} {key : CellKey}

theorem perm_place {cell : Cell α} {entries : List (CellKey × Cell α)}
    (h : ∀ entry ∈ entries, key ≠ entry.1) :
    (place key cell entries).Perm ((key, cell) :: entries) := by
  induction entries with
  | nil => exact .refl _
  | cons first rest ih =>
      obtain ⟨hfirst, hrest⟩ := List.forall_mem_cons.1 h
      unfold place
      rw [if_neg hfirst]
      split
      · exact .refl _
      · exact ((ih hrest).cons first).trans (.swap ..)

theorem toPostings_empty : (empty : Ledger α).toPostings = [] := rfl

theorem mem_keys_toPostings :
    key ∈ ledger.toPostings.map Posting.key ↔ (ledger.cell? key).isSome = true := by
  simp [toPostings, Option.isSome_iff_exists, cell?_eq_some_iff]

theorem pairwise_toPostings (ledger : Ledger α) :
    ledger.toPostings.Pairwise fun p q => p.key < q.key :=
  List.pairwise_map.2 ledger.sorted

theorem nodup_keys_toPostings (ledger : Ledger α) :
    (ledger.toPostings.map Posting.key).Nodup := by
  refine List.pairwise_map.2 (ledger.pairwise_toPostings.imp fun {p q} hlt heq => ?_)
  exact CellKey.lt_irrefl q.key (heq ▸ hlt)

theorem perm_toPostings_insert {p : Posting α} (h : (ledger.cell? p.key).isSome = false) :
    (ledger.insert p.key p.cell).toPostings.Perm (p :: ledger.toPostings) := by
  have habsent : ∀ entry ∈ ledger.entries, p.key ≠ entry.1 := by
    rintro ⟨key, cell⟩ hentry rfl
    rw [cell?_eq_some_iff.2 hentry] at h
    cases h
  exact (perm_place habsent).map _

/-! ### Recording postings -/

/-- What has been recorded is listed, besides what was listed before. -/
theorem perm_of_post (h : ledger.post postings = .ok posted) :
    posted.toPostings.Perm (postings ++ ledger.toPostings) := by
  induction postings generalizing ledger with
  | nil =>
      cases h
      exact .refl _
  | cons p postings ih =>
      unfold post at h
      split at h
      · cases h
      · rename_i habsent
        calc posted.toPostings
            _ |>.Perm (postings ++ (ledger.insert p.key p.cell).toPostings) := ih h
            _ |>.Perm (postings ++ p :: ledger.toPostings) :=
              (perm_toPostings_insert (by simpa using habsent)).append_left postings
            _ |>.Perm (p :: postings ++ ledger.toPostings) := List.perm_middle

/-- Recording fails at a posting, when those before it have been recorded and its cell is taken. -/
theorem exists_of_post_eq_error (h : ledger.post postings = .error key) :
    ∃ earlier p later midway, postings = earlier ++ p :: later ∧ p.key = key ∧
      ledger.post earlier = .ok midway ∧ (midway.cell? key).isSome = true := by
  induction postings generalizing ledger with
  | nil => cases h
  | cons p postings ih =>
      unfold post at h
      split at h
      · rename_i htaken
        cases h
        exact ⟨[], p, postings, ledger, rfl, rfl, rfl, htaken⟩
      · rename_i habsent
        obtain ⟨earlier, q, later, midway, rfl, hkey, hpost, htaken⟩ := ih h
        refine ⟨p :: earlier, q, later, midway, rfl, hkey, ?_, htaken⟩
        rw [post, if_neg habsent, hpost]

theorem perm_of_ofPostings? (h : ofPostings? postings = .ok ledger) :
    ledger.toPostings.Perm postings := by
  have hperm := perm_of_post h
  rwa [toPostings_empty, List.append_nil] at hperm

theorem nodup_of_ofPostings? (h : ofPostings? postings = .ok ledger) :
    (postings.map Posting.key).Nodup :=
  ((perm_of_ofPostings? h).map Posting.key).nodup_iff.1 ledger.nodup_keys_toPostings

theorem exists_isFirstRepeat (h : ofPostings? postings = .error key) :
    ∃ p : Posting α, p.IsFirstRepeat postings ∧ p.key = key := by
  obtain ⟨earlier, p, later, midway, hsplit, rfl, hpost, htaken⟩ := exists_of_post_eq_error h
  refine ⟨p, ⟨earlier, later, hsplit, nodup_of_ofPostings? hpost, ?_⟩, rfl⟩
  exact ((perm_of_ofPostings? hpost).map Posting.key).mem_iff.1 (mem_keys_toPostings.2 htaken)

theorem not_nodup_of_isFirstRepeat {p : Posting α}
    (h : p.IsFirstRepeat postings) : ¬ (postings.map Posting.key).Nodup := by
  obtain ⟨earlier, later, rfl, -, hearlier⟩ := h
  rw [List.map_append, List.map_cons]
  intro hnodup
  exact (List.nodup_append.1 hnodup).2.2 _ hearlier _ List.mem_cons_self rfl

theorem exists_ofPostings?_iff :
    (∃ ledger, ofPostings? postings = .ok ledger) ↔ (postings.map Posting.key).Nodup := by
  refine ⟨fun ⟨_, h⟩ => nodup_of_ofPostings? h, fun hnodup => ?_⟩
  cases h : ofPostings? postings with
  | ok ledger => exact ⟨ledger, rfl⟩
  | error key =>
      obtain ⟨p, hp, -⟩ := exists_isFirstRepeat h
      exact absurd hnodup (not_nodup_of_isFirstRepeat hp)

end Ledger

/-! ### By pages -/

namespace Book

variable {ledger : Ledger α} {book : Book α} {postings : List (Posting α)}

def toPostings (book : Book α) : List (Posting α) :=
  book.entries.map fun entry => ⟨entry.1, entry.2⟩

theorem toPostings_ledger (book : Book α) : book.ledger.toPostings = book.toPostings := rfl

theorem exists_ofPostings?_of_ledger (h : Ledger.ofPostings? postings = .ok ledger) :
    ∃ book, ofPostings? postings = .ok book ∧ book.ledger = ledger := by
  rw [← map_ledger_ofPostings?] at h
  exact map_eq_ok.1 h

theorem ofPostings?_eq_error {key : CellKey} (h : Ledger.ofPostings? postings = .error key) :
    ofPostings? postings = .error key := by
  rw [← map_ledger_ofPostings?] at h
  cases hbook : ofPostings? postings with
  | ok book =>
      rw [hbook] at h
      cases h
  | error taken =>
      rw [hbook] at h
      cases h
      rfl

/-- What a book lists gives the book back, if it has no blank page. -/
theorem ofPostings?_toPostings (h : book.NoBlankPage) : ofPostings? book.toPostings = .ok book := by
  obtain ⟨read, hread, hledger⟩ :=
    exists_ofPostings?_of_ledger (Ledger.ofPostings?_toPostings book.ledger)
  rw [toPostings_ledger] at hread
  have hcells : read.cell? = book.cell? := by
    funext k
    rw [← cell?_ledger, hledger, cell?_ledger]
  rw [hread, (NoBlankPage.empty.post hread).eq_of_cell?_eq h hcells]

end Book

/-! ### Lists of postings and ledgers -/

namespace Workbook

variable {postings : List (Posting α)}

theorem ledgerOf_eq_ok_iff {ledger : Ledger α} :
    ledgerOf postings = .ok ledger ↔ Ledger.ofPostings? postings = .ok ledger := by
  unfold ledgerOf
  cases Ledger.ofPostings? postings <;> simp [Except.mapError]

theorem ledgerOf_eq_error_iff {fault : Fault α} : ledgerOf postings = .error fault ↔
    ∃ key, Ledger.ofPostings? postings = .error key ∧ .duplicateValue key = fault := by
  unfold ledgerOf
  cases Ledger.ofPostings? postings <;> simp [Except.mapError]

end Workbook

open Workbook Book

/-- **Ledgers and lists of postings.** Postings make a ledger exactly if no two are of the same
cell. The ledger lists them in order of their cells. Otherwise the fault names the cell of the first
posting whose cell an earlier one takes. What a ledger lists makes the ledger again. All this is so
for books as well. -/
theorem postings_round_trip (postings : List (Posting α)) :
    ((∃ ledger, ledgerOf postings = .ok ledger) ↔ (postings.map Posting.key).Nodup) ∧
    (∀ ledger, ledgerOf postings = .ok ledger → ledger.toPostings.Perm postings ∧
      (ledger.toPostings.Pairwise fun p q => p.key < q.key) ∧
      ∃ book, Book.ofPostings? postings = .ok book ∧ book.toPostings = ledger.toPostings) ∧
    (∀ fault, ledgerOf postings = .error fault → ∃ p : Posting α, p.IsFirstRepeat postings ∧
      fault = .duplicateValue p.key ∧ Book.ofPostings? postings = .error p.key) ∧
    ∀ (ledger : Ledger α) (book : Book α), Kept ledger book →
      ledgerOf ledger.toPostings = .ok ledger ∧ Book.ofPostings? book.toPostings = .ok book := by
  refine ⟨?posted, fun ledger h => ?listed, fun fault h => ?repeats, fun ledger book h => ?again⟩
  case posted =>
    rw [← Ledger.exists_ofPostings?_iff]
    exact exists_congr fun ledger => ledgerOf_eq_ok_iff
  case listed =>
    rw [ledgerOf_eq_ok_iff] at h
    obtain ⟨book, hbook, rfl⟩ := exists_ofPostings?_of_ledger h
    exact ⟨Ledger.perm_of_ofPostings? h, book.ledger.pairwise_toPostings, book, hbook, rfl⟩
  case repeats =>
    obtain ⟨key, hkey, rfl⟩ := ledgerOf_eq_error_iff.1 h
    obtain ⟨p, hp, rfl⟩ := Ledger.exists_isFirstRepeat hkey
    exact ⟨p, hp, rfl, Book.ofPostings?_eq_error hkey⟩
  case again =>
    exact ⟨ledgerOf_eq_ok_iff.2 ledger.ofPostings?_toPostings,
      Book.ofPostings?_toPostings h.noBlankPage⟩

/-- Sales and rent of a year make a ledger. A correction of the sales would be a second value. -/
theorem postings_round_trip_year :
    let sales : Posting Int := ⟨⟨⟨"sales"⟩, ⟨"2024"⟩⟩, ⟨50, false⟩⟩
    let rent : Posting Int := ⟨⟨⟨"rent"⟩, ⟨"2024"⟩⟩, ⟨30, false⟩⟩
    let corrected : Posting Int := ⟨⟨⟨"sales"⟩, ⟨"2024"⟩⟩, ⟨55, false⟩⟩
    (∃ ledger book, ledgerOf [sales, rent] = .ok ledger ∧ Kept ledger book ∧
      ledger.toPostings.Perm [sales, rent] ∧ ledgerOf ledger.toPostings = .ok ledger ∧
      Book.ofPostings? book.toPostings = .ok book) ∧
    ∃ p : Posting Int, p.IsFirstRepeat [sales, rent, corrected] ∧
      Book.ofPostings? [sales, rent, corrected] = .error p.key := by
  intro sales rent corrected
  have hdistinct : ([sales, rent].map Posting.key).Nodup := by decide
  obtain ⟨hposted, hlisted, -, hagain⟩ := postings_round_trip [sales, rent]
  obtain ⟨ledger, hledger⟩ := hposted.2 hdistinct
  obtain ⟨hperm, -, book, hbook, -⟩ := hlisted ledger hledger
  have hkept : Kept ledger book := .load (ledgerOf_eq_ok_iff.1 hledger) hbook
  refine ⟨⟨ledger, book, hledger, hkept, hperm, hagain ledger book hkept⟩, ?_⟩
  obtain ⟨hposted, -, hrepeats, -⟩ := postings_round_trip [sales, rent, corrected]
  cases hledger : ledgerOf [sales, rent, corrected] with
  | ok ledger => exact absurd (hposted.1 ⟨ledger, hledger⟩) (by decide)
  | error fault =>
      obtain ⟨p, hp, -, hpage⟩ := hrepeats fault hledger
      exact ⟨p, hp, hpage⟩

end ProForma
