import ProForma.Identifier

/-!
Ledgers: the values of accounts in periods, at most one for each cell. The entries are sorted, so
that two ledgers with the same cells are the same ledger.
-/

namespace ProForma

structure Cell (α : Type) where
  value : α
  /-- Derived, and not entered or imported. -/
  isCalculated : Bool
deriving DecidableEq

/-- A value as it is recorded, with its place. -/
structure Posting (α : Type) where
  key : CellKey
  cell : Cell α
deriving DecidableEq

structure Ledger (α : Type) where
  entries : List (CellKey × Cell α)
  sorted : entries.Pairwise fun a b => a.1 < b.1

namespace Ledger

variable {α : Type}

/-- Puts a cell into its place among entries, instead of one with the same key. -/
def place (key : CellKey) (cell : Cell α) : List (CellKey × Cell α) → List (CellKey × Cell α)
  | [] => [(key, cell)]
  | entry :: entries =>
    if key < entry.1 then (key, cell) :: entry :: entries
    else if key = entry.1 then (key, cell) :: entries
    else entry :: place key cell entries

theorem mem_place {key : CellKey} {cell : Cell α} {entries : List (CellKey × Cell α)}
    {entry : CellKey × Cell α} (h : entry ∈ place key cell entries) :
    entry = (key, cell) ∨ entry ∈ entries := by
  induction entries with
  | nil => simpa [place] using h
  | cons first rest ih =>
    unfold place at h
    split at h
    · simpa using h
    · split at h
      · simp only [List.mem_cons] at h ⊢
        exact h.imp_right .inr
      · simp only [List.mem_cons] at h ⊢
        rcases h with rfl | h
        · exact .inr (.inl rfl)
        · exact (ih h).imp_right .inr

theorem place_sorted {key : CellKey} {cell : Cell α} {entries : List (CellKey × Cell α)}
    (h : entries.Pairwise fun a b => a.1 < b.1) :
    (place key cell entries).Pairwise fun a b => a.1 < b.1 := by
  induction entries with
  | nil => simp [place]
  | cons first rest ih =>
    obtain ⟨hfirst, hrest⟩ := List.pairwise_cons.1 h
    unfold place
    split
    · rename_i hlt
      refine List.pairwise_cons.2 ⟨fun entry hentry => ?_, h⟩
      rcases List.mem_cons.1 hentry with rfl | hentry
      · exact hlt
      · exact CellKey.lt_trans hlt (hfirst entry hentry)
    · split
      · rename_i heq
        exact List.pairwise_cons.2 ⟨fun entry hentry => heq ▸ hfirst entry hentry, hrest⟩
      · rename_i hlt hne
        refine List.pairwise_cons.2 ⟨fun entry hentry => ?_, ih hrest⟩
        rcases mem_place hentry with rfl | hentry
        · exact CellKey.lt_of_not_lt_of_ne hlt hne
        · exact hfirst entry hentry

def empty : Ledger α := ⟨[], .nil⟩

instance : Inhabited (Ledger α) := ⟨empty⟩

def size (ledger : Ledger α) : Nat :=
  ledger.entries.length

def isEmpty (ledger : Ledger α) : Bool :=
  ledger.entries.isEmpty

def cell? (ledger : Ledger α) (key : CellKey) : Option (Cell α) :=
  ledger.entries.lookup key

def value? (ledger : Ledger α) (key : CellKey) : Option α :=
  (ledger.cell? key).map Cell.value

/-- The value of a cell. A cell that is not there counts as zero. -/
def value [Zero α] (ledger : Ledger α) (key : CellKey) : α :=
  (ledger.value? key).getD 0

/-- The cell is there and was not derived. -/
def isEntered (ledger : Ledger α) (key : CellKey) : Bool :=
  (ledger.cell? key).any fun cell => !cell.isCalculated

def insert (ledger : Ledger α) (key : CellKey) (cell : Cell α) : Ledger α :=
  ⟨place key cell ledger.entries, place_sorted ledger.sorted⟩

/-- Writes a derived value. -/
def derive (ledger : Ledger α) (key : CellKey) (value : α) : Ledger α :=
  ledger.insert key ⟨value, true⟩

/-- Keeps the cells whose key passes a test. -/
def filter (ledger : Ledger α) (keep : CellKey → Bool) : Ledger α :=
  ⟨ledger.entries.filter fun entry => keep entry.1, ledger.sorted.filter _⟩

def erase (ledger : Ledger α) (key : CellKey) : Ledger α :=
  ledger.filter (· ≠ key)

def eraseAccount (ledger : Ledger α) (account : AccountId) : Ledger α :=
  ledger.filter (·.account ≠ account)

/-- Writes the cells of another ledger over this one. -/
def merge (ledger updates : Ledger α) : Ledger α :=
  updates.entries.foldl (fun merged entry => merged.insert entry.1 entry.2) ledger

/-- The cells of one period, by account. -/
def ofPeriod (ledger : Ledger α) (period : PeriodId) : List (AccountId × Cell α) :=
  ledger.entries.filterMap fun entry =>
    if entry.1.period = period then some (entry.1.account, entry.2) else none

/-- Records postings one after another. Fails with the first cell that is there already. -/
def post : Ledger α → List (Posting α) → Except CellKey (Ledger α)
  | ledger, [] => .ok ledger
  | ledger, p :: postings =>
    if (ledger.cell? p.key).isSome then .error p.key
    else post (ledger.insert p.key p.cell) postings

def ofPostings? (postings : List (Posting α)) : Except CellKey (Ledger α) :=
  empty.post postings

def toPostings (ledger : Ledger α) : List (Posting α) :=
  ledger.entries.map fun entry => ⟨entry.1, entry.2⟩

end Ledger

end ProForma
