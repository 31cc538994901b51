import ProForma.Memo.Basic

/-!
Programs over a memo: finite nestings of demands for cells, in which what comes next may depend on
what a demand gave, failures included. A run keeps a journal of what happens to cells.
-/

namespace ProForma

inductive Program (α : Type) where
  | done (result : Except (Fault α) α)
  /-- Goes on with the number of cells known so far. -/
  | size (next : Nat → Program α)
  /-- Demands a cell, to be computed by `body` if need be, and goes on with what that gives. -/
  | cell (slot : Slot) (body : Program α) (next : Except (Fault α) α → Program α)

/-- What happens to a cell. -/
inductive Memo.Event (α : Type) where
  | started (slot : Slot)
  | finished (slot : Slot) (result : Except (Fault α) α)
  | answered (slot : Slot) (result : Except (Fault α) α)

namespace Program

variable {α : Type}

/-- Computes a cell by a program, with its start and end in the journal. -/
def journaled (slot : Slot) (compute : Computation (List (Memo.Event α)) α α) :
    Computation (List (Memo.Event α)) α α := do
  Memo.note (· ++ [.started slot])
  let result ← compute.observe
  Memo.note (· ++ [.finished slot result])
  liftExcept result

def run : Program α → Computation (List (Memo.Event α)) α α
  | .done result => liftExcept result
  | .size next => do
    let (memo, _) ← get
    (next memo.size).run
  | .cell slot body next => do
    let result ← (Memo.demand slot (journaled slot body.run)).observe
    Memo.note (· ++ [.answered slot result])
    (next result).run

/-- A program, and another one that goes on with its result. -/
def andThen : Program α → (Except (Fault α) α → Program α) → Program α
  | .done result, next => next result
  | .size k, next => .size fun n => (k n).andThen next
  | .cell slot body k, next => .cell slot body fun result => (k result).andThen next

/-- Adds results to a sum, from the left, up to the first failure. -/
def sumFrom [Add α] (acc : α) : List (Program α) → Program α
  | [] => .done (.ok acc)
  | program :: programs =>
    program.andThen fun
      | .ok x => sumFrom (acc + x) programs
      | .error fault => .done (.error fault)

end Program

end ProForma
