import ProForma.Fault

/-!
A memo of computed cells. A cell is computed at most once, and a computation that comes back to a
cell it is still busy with fails.
-/

namespace ProForma

/-- An account at a position in the sequence of periods. -/
structure Slot where
  account : AccountId
  position : Int
deriving DecidableEq

structure Memo (α : Type) where
  known : List (Slot × α)
  /-- The cells that are being computed. -/
  pending : List Slot

/-- A computation that reads and extends a memo and keeps a record of type `ω` on the side. Both
outlast a failure. -/
abbrev Computation (ω α : Type) := ExceptT (Fault α) (StateM (Memo α × ω))

namespace Computation

variable {ω α β : Type}

/-- Runs a computation and gives its outcome, failure or not. -/
def observe (c : Computation ω α β) : Computation ω α (Except (Fault α) β) :=
  ExceptT.lift c.run

end Computation

namespace Memo

variable {α ω : Type}

def empty : Memo α := ⟨[], []⟩

def value? (memo : Memo α) (slot : Slot) : Option α :=
  memo.known.lookup slot

def size (memo : Memo α) : Nat :=
  memo.known.length

def start (memo : Memo α) (slot : Slot) : Memo α :=
  { memo with pending := slot :: memo.pending }

def stop (memo : Memo α) (slot : Slot) : Memo α :=
  { memo with pending := memo.pending.erase slot }

def learn (memo : Memo α) (slot : Slot) (x : α) : Memo α :=
  { memo with known := (slot, x) :: memo.known }

/-- The value of a cell: the known one, or else the computed one, which is known from then on. A
cell that is being computed already has no value to give. -/
def demand (slot : Slot) (compute : Computation ω α α) : Computation ω α α :=
  ExceptT.mk fun (memo, record) =>
    match memo.value? slot with
    | some x => (.ok x, memo, record)
    | none =>
      if slot ∈ memo.pending then (.error (.circular slot.account), memo, record)
      else
        match compute.run (memo.start slot, record) with
        | (.ok x, memo, record) => (.ok x, (memo.stop slot).learn slot x, record)
        | (.error fault, memo, record) => (.error fault, memo.stop slot, record)

/-- Adds to the record. -/
def note (update : ω → ω) : Computation ω α Unit :=
  modify fun (memo, record) => (memo, update record)

end Memo

end ProForma
