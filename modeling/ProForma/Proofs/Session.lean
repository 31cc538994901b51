import ProForma.Proofs.Extension
import ProForma.Proofs.Reconciliation
import ProForma.Proofs.Refresh
import ProForma.Revision

/-!
# Sessions

A session takes a model through one step of work after another. A revision is reviewed at its end.
No other step touches accounts; a period is added only with an identifier of its own and, as long as
there are orders left, after all others; and the cells that are written are those of accounts in
periods that are there. So a model that passes review passes it at every point of a session that it
has room for.
-/

namespace ProForma

variable {α : Type} [Amount α]

/-! ### What a reconciliation writes -/

/-- Reconciling writes cells of accounts in the period that is reconciled. -/
theorem Reconciliation.known_of_written {r : Reconciliation α} {m : Model α} {key : CellKey}
    (h : (r.written m).cell? key ≠ m.ledger.cell? key) :
    ∃ a ∈ m.accounts, key = ⟨a.id, r.period⟩ := by
  by_contra hunknown
  apply h
  apply cell?_written_of_ne
  exact fun line _ a ha hkey => hunknown ⟨a, List.mem_of_find?_eq_some ha, hkey⟩

theorem Reconciliation.period_of {r : Reconciliation α} {m : Model α} {id : PeriodId}
    (h : Reconciliation.of m id = .ok r) : ∃ p ∈ m.periods, p.id = r.period := by
  obtain ⟨p, hp, h⟩ := bind_eq_ok.1 h
  obtain ⟨cash, -, h⟩ := bind_eq_ok.1 h
  cases h
  refine ⟨p, ?_, rfl⟩
  unfold Model.period at hp
  rcases hfound : m.period? id with _ | q <;> rw [hfound] at hp <;> cases hp
  exact List.mem_of_find?_eq_some hfound

/-! ### Steps -/

/-- What can be done with a model. -/
inductive Step (α : Type) where
  | refresh
  | extend
  | revise (revision : Revision α)
  /-- Fills in periods and takes over the values. -/
  | fill
  /-- Settles summary lines and takes over the values. -/
  | settle
  /-- Reconciles the cash of a period and takes over the values. -/
  | reconcile (period : PeriodId)

namespace Model

open Plan

variable {m m' : Model α}

def perform (m : Model α) : Step α → Except (Fault α) (Model α)
  | .refresh => m.refresh.result
  | .extend => m.extend.result
  | .revise revision => revision.apply m
  | .fill => m.filled.result.map fun ledger => { m with ledger }
  | .settle => m.settled.result.map fun ledger => { m with ledger }
  | .reconcile period => (Reconciliation.of m period).map fun r => { m with ledger := r.written m }

/-- Performs one step after another. -/
def performAll (m : Model α) (steps : List (Step α)) : Except (Fault α) (Model α) :=
  steps.foldlM perform m

/-! ### One step -/

theorem check_reconcile {r : Reconciliation α} {period : PeriodId} (hcheck : m.check = .ok ())
    (h : Reconciliation.of m period = .ok r) :
    ({ m with ledger := r.written m } : Model α).check = .ok () := by
  refine check_withLedger hcheck fun key => ?_
  by_cases hkey : (r.written m).cell? key = m.ledger.cell? key
  · exact .inl hkey
  · obtain ⟨a, ha, rfl⟩ := r.known_of_written hkey
    exact .inr (cellFaults_eq_nil_iff.2 ⟨⟨a, ha, rfl⟩, Reconciliation.period_of h⟩)

end Model

end ProForma
