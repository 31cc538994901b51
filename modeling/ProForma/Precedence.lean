import ProForma.Identifier

/-!
Which accounts have to be computed before which, within one period, and an order that respects it.
A link may lead to an account that is no node; the order ignores such links.
-/

namespace ProForma

/-- The nodes in order of their first mention, each with the accounts it waits for. -/
structure Precedence where
  entries : List (AccountId × List AccountId)

namespace Precedence

def empty : Precedence := ⟨[]⟩

def nodes (g : Precedence) : List AccountId :=
  g.entries.map Prod.fst

def hasNode (g : Precedence) (id : AccountId) : Bool :=
  id ∈ g.nodes

/-- What an account waits for. -/
def waitsFor (g : Precedence) (id : AccountId) : List AccountId :=
  (g.entries.lookup id).getD []

/-- All links, by node. -/
def links (g : Precedence) : List (AccountId × AccountId) :=
  g.entries.flatMap fun entry => entry.2.map (entry.1, ·)

def insertNode (g : Precedence) (id : AccountId) : Precedence :=
  if g.hasNode id then g else ⟨g.entries ++ [(id, [])]⟩

/-- Makes one account wait for another. The waiting account becomes a node. -/
def insertLink (g : Precedence) (source target : AccountId) : Precedence :=
  ⟨(g.insertNode source).entries.map fun entry =>
    if entry.1 = source ∧ target ∉ entry.2 then (entry.1, entry.2 ++ [target]) else entry⟩

/-- The dependencies that are nodes. -/
def successors (g : Precedence) (id : AccountId) : List AccountId :=
  (g.waitsFor id).filter g.hasNode

/-- Puts a node behind everything it waits for, after the accounts in `done`. Fails with the
account at which a cycle closes: one of those in `waiting`, which are on the way to this node. They
are distinct, so `fuel` for one step more than there are nodes is enough. -/
def visit (g : Precedence) : Nat → List AccountId → List AccountId → AccountId →
    Except AccountId (List AccountId)
  | 0, _, _, id => .error id
  | fuel + 1, waiting, done, id =>
    if id ∈ done then .ok done
    else if id ∈ waiting then .error id
    else do
      let done ← (g.successors id).foldlM (g.visit fuel (id :: waiting)) done
      pure (done ++ [id])

/-- The nodes, each after what it waits for and otherwise in their own order; or an account on a
cycle. -/
def order (g : Precedence) : Except AccountId (List AccountId) :=
  g.nodes.foldlM (g.visit (g.nodes.length + 1) []) []

end Precedence

end ProForma
