import ProForma.Proofs.Ledger.Postings
import ProForma.Proofs.Workbook.Names

/-!
# Imports

A workbook that can be imported becomes a model with an account for each line, a period for each
column and a cell for each entry, and nothing else. Its links become relations of the accounts that
they name. While links are put on accounts, the relations so far are those of the links so far.
-/

namespace ProForma

variable {α : Type}

/-- The account without its relation. -/
def Account.unlinked (a : Account α) : Account α :=
  { a with relation := none }

namespace Workbook

open scoped List

/-! ### What the parts of a workbook stand for -/

/-- A link stands for a relation of an account. -/
inductive Link.StandsFor (book : Workbook α) : Link → AccountId × Relation → Prop
  | fixedAsset {asset investment depreciation : String} {owner invested depreciated : AccountId}
      (howner : book.Resolves asset owner) (hinvestment : book.Resolves investment invested)
      (hdepreciation : book.Resolves depreciation depreciated) :
      StandsFor book (.fixedAsset asset investment depreciation)
        (owner, .fixedAsset invested depreciated)
  | retainedEarnings {account profit : String} {owner earned : AccountId}
      (howner : book.Resolves account owner) (hprofit : book.Resolves profit earned) :
      StandsFor book (.retainedEarnings account profit) (owner, .retainedEarnings earned)

/-- A column, which stands at a position, describes the period. -/
structure Column.Describes (column : Column) (position : Nat) (p : Period) : Prop where
  id : p.id.text = Text.trim column.label
  label : p.label = Text.trim column.label
  order : p.order = position
  finish : ∃ span, Span.ofText column.label = .ok span ∧ p.finish = some span.finish
  actual : p.isActual = column.isActual
  imported : p.isImported = column.isImported

/-- An entry is of an account and one of the periods, and its value is not calculated. -/
structure Entry.StandsFor (entry : Entry α) (book : Workbook α) (periods : List Period)
    (p : Posting α) : Prop where
  account : book.Resolves entry.account p.key.account
  period : ∃ period ∈ periods, period.label = Text.trim entry.period ∧ period.id = p.key.period
  cell : p.cell = ⟨entry.value, false⟩

/-- The relations of accounts, each with its owner. -/
def relationsOf (accounts : List (Account α)) : List (AccountId × Relation) :=
  accounts.filterMap fun a => a.relation.map (a.id, ·)

/-- Everything in the model is there for a part of the workbook, and the other way round. -/
structure Imported (book : Workbook α) (m : Model α) : Prop where
  name : m.name = book.name
  settings : m.settings = book.settings
  accounts : List.Forall₂ book.Describes book.lines m.accounts
  accountIds : (m.accounts.map Account.id).Nodup
  relations : ∃ placed, List.Forall₂ (Link.StandsFor book) book.links placed ∧
    (relationsOf m.accounts).Perm placed
  periods : List.Forall₂ (fun column p => column.1.Describes column.2 p) book.columns.zipIdx
    m.periods
  periodIds : (m.periods.map Period.id).Nodup
  cells : ∃ postings, List.Forall₂ (fun entry p => entry.StandsFor book m.periods p) book.entries
    postings ∧ (postings.map Posting.key).Nodup ∧ m.ledger.toPostings.Perm postings

/-! ### Relations -/

variable {book : Workbook α} {names : Names} {m : Model α} {a : Account α}
  {accounts linked : List (Account α)} {links : List Link} {owner : AccountId}
  {relation : Relation}

/-- A relation is put on one account, which has had none. -/
theorem exists_split_of_attach (h : attach owner relation accounts = .ok linked) :
    ∃ before a after, accounts = before ++ a :: after ∧ a.id = owner ∧ a.relation = none ∧
      linked = before ++ { a with relation := some relation } :: after := by
  induction accounts generalizing linked with
  | nil => cases h
  | cons a accounts ih =>
      unfold attach at h
      split at h
      · rename_i hid
        split at h
        · cases h
        · rename_i hnone
          cases h
          exact ⟨[], a, accounts, rfl, hid, Option.not_isSome_iff_eq_none.1 hnone, rfl⟩
      · obtain ⟨rest, hrest, h⟩ := bind_eq_ok.1 h
        cases h
        obtain ⟨before, b, after, rfl, hid, hnone, rfl⟩ := ih hrest
        exact ⟨a :: before, b, after, rfl, hid, hnone, rfl⟩

theorem relationsOf_of_attach (h : attach owner relation accounts = .ok linked) :
    (relationsOf linked).Perm ((owner, relation) :: relationsOf accounts) ∧
      linked.map Account.unlinked = accounts.map Account.unlinked := by
  obtain ⟨before, a, after, rfl, rfl, hnone, rfl⟩ := exists_split_of_attach h
  constructor
  · have hadded : relationsOf (before ++ { a with relation := some relation } :: after) =
        relationsOf before ++ (a.id, relation) :: relationsOf after := by
      simp [relationsOf]
    have hbefore : relationsOf (before ++ a :: after) =
        relationsOf before ++ relationsOf after := by
      simp [relationsOf, hnone]
    rw [hadded, hbefore]
    exact List.perm_middle
  · rw [List.map_append, List.map_append]
    rfl

theorem standsFor_of_toRelation (hnames : namesOf [] book.lines = .ok names) {link : Link}
    {owned : AccountId × Relation}
    (h : (link.toRelation names : Except (Fault α) (AccountId × Relation)) = .ok owned) :
    link.StandsFor book owned := by
  cases link with
  | fixedAsset asset investment depreciation =>
      obtain ⟨owner, howner, h⟩ := bind_eq_ok.1 h
      obtain ⟨invested, hinvested, h⟩ := bind_eq_ok.1 h
      obtain ⟨depreciated, hdepreciated, h⟩ := bind_eq_ok.1 h
      cases h
      exact .fixedAsset (resolves_of_idOf hnames howner) (resolves_of_idOf hnames hinvested)
        (resolves_of_idOf hnames hdepreciated)
  | retainedEarnings account profit =>
      obtain ⟨owner, howner, h⟩ := bind_eq_ok.1 h
      obtain ⟨earned, hearned, h⟩ := bind_eq_ok.1 h
      cases h
      exact .retainedEarnings (resolves_of_idOf hnames howner) (resolves_of_idOf hnames hearned)

/-- After links have been put on accounts, there are their relations besides those before, and
nothing else about the accounts is different. -/
theorem exists_placed_of_foldlM (hnames : namesOf [] book.lines = .ok names)
    (h : links.foldlM (attachLink names) accounts = .ok linked) :
    ∃ placed, List.Forall₂ (Link.StandsFor book) links placed ∧
      (relationsOf linked).Perm (placed ++ relationsOf accounts) ∧
      linked.map Account.unlinked = accounts.map Account.unlinked := by
  induction links generalizing accounts with
  | nil =>
      cases h
      exact ⟨[], .nil, .refl _, rfl⟩
  | cons link links ih =>
      rw [List.foldlM_cons] at h
      obtain ⟨midway, hlink, h⟩ := bind_eq_ok.1 h
      obtain ⟨⟨owner, relation⟩, howned, hattach⟩ := bind_eq_ok.1 hlink
      obtain ⟨hone, hsame⟩ := relationsOf_of_attach hattach
      obtain ⟨placed, hplaced, hperm, hrest⟩ := ih h
      refine ⟨(owner, relation) :: placed, .cons (standsFor_of_toRelation hnames howned) hplaced,
        ?_, hrest.trans hsame⟩
      calc relationsOf linked
        _ ~ placed ++ relationsOf midway := hperm
        _ ~ placed ++ (owner, relation) :: relationsOf accounts := hone.append_left placed
        _ ~ (owner, relation) :: placed ++ relationsOf accounts := List.perm_middle

/-! ### Accounts, periods and cells -/

theorem describes_unlinked_iff {line : Line α} :
    book.Describes line a.unlinked ↔ book.Describes line a :=
  ⟨fun h => { h with }, fun h => { h with }⟩

theorem describes_of_unlinked_eq {lines : List (Line α)}
    (h : List.Forall₂ book.Describes lines accounts)
    (hsame : linked.map Account.unlinked = accounts.map Account.unlinked) :
    List.Forall₂ book.Describes lines linked := by
  have hunlinked : List.Forall₂ book.Describes lines (accounts.map Account.unlinked) :=
    List.forall₂_map_right_iff.2 (h.imp fun _ _ h => describes_unlinked_iff.2 h)
  rw [← hsame] at hunlinked
  exact (List.forall₂_map_right_iff.1 hunlinked).imp fun _ _ h => describes_unlinked_iff.1 h

/-- The accounts of lines carry no relations. -/
theorem describes_of_mapM (hnames : namesOf [] book.lines = .ok names)
    (h : book.lines.mapM (Line.toAccount names) = .ok accounts) :
    List.Forall₂ (fun line a => book.Describes line a ∧ a.relation = none) book.lines accounts := by
  have hlines : List.Forall₂ (fun line a => line ∈ book.lines ∧ line.toAccount names = .ok a)
      book.lines accounts :=
    List.forall₂_and_left _ _ |>.2 ⟨fun _ hline => hline, forall₂_of_mapM h⟩
  exact hlines.imp fun _ _ ⟨hline, h⟩ => describes_of_toAccount hnames hline h

theorem relationsOf_eq_nil {lines : List (Line α)}
    (h : List.Forall₂ (fun line a => book.Describes line a ∧ a.relation = none) lines accounts) :
    relationsOf accounts = [] := by
  induction h with
  | nil => rfl
  | cons hline _ ih => rw [relationsOf, List.filterMap_cons, hline.2, ← ih]; rfl

theorem describes_of_toPeriod {column : Column} {position : Nat} {p : Period}
    (h : (column.toPeriod position : Except (Fault α) Period) = .ok p) :
    column.Describes position p := by
  unfold Column.toPeriod at h
  split at h
  · cases h
  · rename_i span hspan
    cases h
    exact ⟨rfl, rfl, rfl, ⟨span, hspan, rfl⟩, rfl, rfl⟩

theorem standsFor_of_toPosting (hnames : namesOf [] book.lines = .ok names) {entry : Entry α}
    {periods : List Period} {p : Posting α} (h : entry.toPosting names periods = .ok p) :
    entry.StandsFor book periods p := by
  unfold Entry.toPosting at h
  split at h
  · cases h
  · rename_i period hperiod
    obtain ⟨account, haccount, h⟩ := bind_eq_ok.1 h
    cases h
    exact ⟨resolves_of_idOf hnames haccount, ⟨period, List.mem_of_find?_eq_some hperiod,
      by simpa using List.find?_some hperiod, rfl⟩, rfl⟩

/-! ### Workbooks -/

/-- **Import.** What a workbook becomes has an account for each line, in order, with the identifier
given or made from the name. Each name in the workbook stands for the account of the one line with
this name. Each link is a relation of the account that it names, and there are no other relations.
There is a period for each column, in order, and a cell for each entry. -/
theorem imported_of_toModel (h : book.toModel = .ok m) : book.Imported m := by
  obtain ⟨names, hnames, h⟩ := bind_eq_ok.1 h
  obtain ⟨accounts, haccounts, h⟩ := bind_eq_ok.1 h
  obtain ⟨linked, hlinked, h⟩ := bind_eq_ok.1 h
  obtain ⟨periods, hperiods, h⟩ := bind_eq_ok.1 h
  obtain ⟨postings, hpostings, h⟩ := bind_eq_ok.1 h
  obtain ⟨ledger, hledger, h⟩ := bind_eq_ok.1 h
  obtain ⟨⟨⟩, hcheck, h⟩ := bind_eq_ok.1 h
  cases h
  have hlines := describes_of_mapM hnames haccounts
  obtain ⟨placed, hplaced, hperm, hsame⟩ := exists_placed_of_foldlM hnames hlinked
  rw [relationsOf_eq_nil hlines, List.append_nil] at hperm
  have hwell := Model.check_eq_ok_iff_wellFormed.1 hcheck
  rw [ledgerOf_eq_ok_iff] at hledger
  refine ⟨rfl, rfl, ?_, hwell.accountIds, ⟨placed, hplaced, hperm⟩, ?_, hwell.periodIds,
    ⟨postings, ?_, Ledger.nodup_of_ofPostings? hledger, Ledger.perm_of_ofPostings? hledger⟩⟩
  · exact describes_of_unlinked_eq (hlines.imp fun _ _ h => h.1) hsame
  · exact (forall₂_of_mapM hperiods).imp fun _ _ h => describes_of_toPeriod h
  · exact (forall₂_of_mapM hpostings).imp fun _ _ h => standsFor_of_toPosting hnames h

/-- A café: names with blanks around them, one account with an identifier of its own, and a link. -/
def cafe : Workbook Int :=
  { name := "Café"
    lines :=
      [{ (Line.flow "Net Profit" : Line Int) with isBaseProfit := true },
        { (Line.stock "Capital" .credit : Line Int) with id := some "own-capital" },
        Line.stock "Retained Earnings" .credit,
        { (Line.stock "Equity" .credit : Line Int) with
          terms := [⟨"Capital ", none, 0⟩, ⟨" Retained Earnings", some "add", 0⟩] }]
    columns := [.imported " 2024-01:2024-12", .forecast "2025-01:2025-12"]
    entries := [⟨"Capital", "2024-01:2024-12 ", 50⟩]
    links := [.retainedEarnings "Retained Earnings " "Net Profit"]
    settings := { passes := 16, tolerance := 0, carriesForward := true } }

theorem imported_of_toModel_cafe : ∃ m, cafe.toModel = .ok m ∧ cafe.Imported m := by
  have hok : cafe.toModel.toOption.isSome = true := by decide +kernel
  obtain ⟨m, hm⟩ := exists_eq_ok_of_isSome hok
  exact ⟨m, hm, imported_of_toModel hm⟩

end Workbook

end ProForma
