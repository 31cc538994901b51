import ProForma.Review

/-!
Revisions: edits of a model, applied one after another and reviewed at the end.
-/

namespace ProForma

inductive Edit (α : Type) where
  /-- Gives an account another parameter. -/
  | assign (account : AccountId) (parameter : Parameter α)
  /-- Moves an account below another one, or to the top. -/
  | move (account : AccountId) (parent : Option AccountId)
  /-- Enters a value, which recomputes leave alone. -/
  | enter (key : CellKey) (value : α)
  /-- Drops a value, so that it can be derived again. -/
  | clear (key : CellKey)
  | rename (account : AccountId) (name : String)
  /-- Removes an account and its values. Its children move to the top. -/
  | remove (account : AccountId)

/-- Accounts to add, and edits, which may be of the added accounts. -/
structure Revision (α : Type) where
  newAccounts : List (Account α)
  edits : List (Edit α)

namespace Model

variable {α : Type}

/-- Changes the first account with an identifier. -/
def updateFirst (id : AccountId) (change : Account α → Account α) :
    List (Account α) → List (Account α)
  | [] => []
  | a :: accounts => if a.id = id then change a :: accounts else a :: updateFirst id change accounts

def update (m : Model α) (id : AccountId) (change : Account α → Account α) :
    Except (Fault α) (Model α) := do
  let _ ← m.chart.account id
  pure { m with accounts := updateFirst id change m.accounts }

/-- Takes an account out of a list and out of its parents. -/
def withoutAccount (id : AccountId) (accounts : List (Account α)) : List (Account α) :=
  (accounts.filter (·.id ≠ id)).map fun a =>
    if a.parent = some id then { a with parent := none } else a

end Model

namespace Edit

variable {α : Type}

def apply (m : Model α) : Edit α → Except (Fault α) (Model α)
  | .assign account parameter => m.update account fun a => { a with parameter }
  | .move account parent => do
    parent.forM fun id => do let _ ← m.chart.account id
    m.update account fun a => { a with parent }
  | .enter key value => do
    let _ ← m.chart.account key.account
    let _ ← m.period key.period
    pure { m with ledger := m.ledger.insert key ⟨value, false⟩ }
  | .clear key => pure { m with ledger := m.ledger.erase key }
  | .rename account name => m.update account fun a => { a with name }
  | .remove account => do
    let _ ← m.chart.account account
    pure
      { m with
        accounts := Model.withoutAccount account m.accounts
        ledger := m.ledger.eraseAccount account }

end Edit

namespace Revision

variable {α : Type}

/-- The revised model, if it passes review. -/
def apply (revision : Revision α) (m : Model α) : Except (Fault α) (Model α) := do
  let added := { m with accounts := m.accounts ++ revision.newAccounts }
  let revised ← revision.edits.foldlM Edit.apply added
  revised.check
  pure revised

def ofEdit (edit : Edit α) : Revision α :=
  ⟨[], [edit]⟩

end Revision

end ProForma
