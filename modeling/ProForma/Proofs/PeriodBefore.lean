import ProForma.Proofs.Plan.Afresh
import ProForma.Proofs.Timeline
import ProForma.Reconciliation

/-!
# One period before

A pass over a model puts the periods in order and counts positions back from the one that it is at.
A reconciliation looks for the period of the greatest order below that of its own. If no identifier
and no order is used twice, both come to the same period.
-/

namespace ProForma

variable {α : Type} {m : Model α} {i : Nat} {p : Period}

/-! ### Positions -/

theorem Model.position_before (hids : (m.periods.map Period.id).Nodup)
    (horders : (m.periods.map Period.order).Nodup) (hp : m.timeline[i]? = some p) :
    (if 0 ≤ (i : Int) - 1 then m.timeline[((i : Int) - 1).toNat]? else none) =
      m.periodBefore? p.id := by
  rw [periodBefore?_eq_getElem? hids horders hp]
  cases i with
  | zero => rfl
  | succ i =>
      have hbefore : ((i + 1 : Nat) : Int) - 1 = (i : Nat) := by omega
      rw [hbefore, if_pos (Int.natCast_nonneg i), Int.toNat_natCast, if_neg (Nat.succ_ne_zero i),
        Nat.add_sub_cancel]

variable [Amount α]

/-- What an account held in the period before, and zero in the first one. -/
theorem Model.stored_before (hids : (m.periods.map Period.id).Nodup)
    (horders : (m.periods.map Period.order).Nodup) (hp : m.timeline[i]? = some p)
    (account : AccountId) : m.stored account ((i : Int) - 1) =
      (m.periodBefore? p.id).elim 0 fun q => m.ledger.value ⟨account, q.id⟩ := by
  unfold stored
  rw [position_before hids horders hp]
  cases m.periodBefore? p.id <;> rfl

/-! ### Reconciliations -/

namespace Reconciliation

/-- Where cash is classified, the period at a position can be reconciled. It begins with the cash of
the position before it, and counts changes of balances from there. -/
theorem of_eq_of_position (hids : (m.periods.map Period.id).Nodup)
    (horders : (m.periods.map Period.order).Nodup) (hp : m.timeline[i]? = some p) :
    Reconciliation.of m p.id = (m.chart.key .cashTotal).map fun cash =>
      { period := p.id
        beginning := m.stored cash.id ((i : Int) - 1)
        contributions :=
          profits m.chart (m.stored · i) ++ adjustments m.chart (m.stored · i) ++
            if i = 0 then []
            else changes m.chart (m.stored · i) (m.stored · ((i : Int) - 1)) } := by
  have hmem : p ∈ m.periods := Model.mem_timeline.1 (List.mem_of_getElem? hp)
  have hcurrent : (m.stored · i) = fun account => m.ledger.value ⟨account, p.id⟩ :=
    funext (Model.stored_of_getElem? hp)
  simp only [hcurrent, Model.stored_before hids horders hp]
  unfold Reconciliation.of Model.period
  rw [Model.period?_eq_some_of_mem hids hmem, Model.periodBefore?_eq_getElem? hids horders hp]
  rcases m.chart.key .cashTotal with fault | cash
  · rfl
  · cases i with
    | zero => rfl
    | succ i =>
        obtain ⟨q, hq⟩ := Model.exists_before hp
        rw [if_neg (Nat.succ_ne_zero i), if_neg (Nat.succ_ne_zero i), Nat.add_sub_cancel, hq]
        rfl

end Reconciliation

/-! ### Passes -/

/-- What a pass reads for an account one period back is what its ledger holds in the period
before. -/
theorem Plan.eval_ref_one {plan : Plan α} (hplan : Plan.of m = .ok plan)
    (hids : (m.periods.map Period.id).Nodup) (horders : (m.periods.map Period.order).Nodup)
    (hp : m.timeline[i]? = some p) {n : Type → Type} [Monad n] [MonadExceptOf (Fault α) n]
    (ledger : Ledger α) (read : AccountId → n α) (account : AccountId) :
    (Formula.ref account 1).eval
        (fun ref t => if t = (i : Int) then read ref else pure (plan.stored ledger ref t)) i =
      pure ((m.periodBefore? p.id).elim 0 fun q => ledger.value ⟨account, q.id⟩) := by
  have hstored : plan.stored ledger = ({ m with ledger } : Model α).stored :=
    Model.stored_eq (m := { m with ledger }) (of_eq_ok_iff.1 hplan).2.2.1
  have hearlier : (i : Int) - (1 : Nat) ≠ i := by omega
  simp only [Formula.eval]
  rw [if_neg hearlier, hstored]
  exact congrArg pure (Model.stored_before (m := { m with ledger }) hids horders hp account)

/-- **One period before.** If no identifier and no order is used twice, the period before the one at
a position is the one at the position before, and the latest period is the last on the timeline.
That is the period that passes read one period back, and the one from which a reconciliation takes
the cash that it begins with and the balances that have changed since. -/
theorem Model.periodBefore?_at_position (hids : (m.periods.map Period.id).Nodup)
    (horders : (m.periods.map Period.order).Nodup) :
    m.latestPeriod? = m.timeline.getLast? ∧
    ∀ (i : Nat) (p : Period), m.timeline[i]? = some p →
      m.periodBefore? p.id = (if i = 0 then none else m.timeline[i - 1]?) ∧
      (∀ plan, Plan.of m = .ok plan → plan.periodAt? ((i : Int) - 1) = m.periodBefore? p.id ∧
        ∀ ledger (read : AccountId → Plan.Filling α α) account,
          (Formula.ref account 1).eval
              (fun ref t => if t = (i : Int) then read ref else pure (plan.stored ledger ref t)) i =
            pure ((m.periodBefore? p.id).elim 0 fun q => ledger.value ⟨account, q.id⟩)) ∧
      Reconciliation.of m p.id = (m.chart.key .cashTotal).map fun cash =>
        { period := p.id
          beginning := m.stored cash.id ((i : Int) - 1)
          contributions :=
            Reconciliation.profits m.chart (m.stored · i) ++
              Reconciliation.adjustments m.chart (m.stored · i) ++
              if i = 0 then []
              else Reconciliation.changes m.chart (m.stored · i)
                (m.stored · ((i : Int) - 1)) } := by
  refine ⟨latestPeriod?_eq_getLast? horders, fun i p hp => ⟨?_, fun plan hplan => ⟨?_, ?_⟩, ?_⟩⟩
  · exact periodBefore?_eq_getElem? hids horders hp
  · rw [← position_before hids horders hp, ← (Plan.of_eq_ok_iff.1 hplan).2.2.1]
    rfl
  · exact fun ledger read account => Plan.eval_ref_one hplan hids horders hp ledger read account
  · exact Reconciliation.of_eq_of_position hids horders hp

/-- A bakery whose years are listed out of order, with gaps between them. -/
def bakery : Model Float where
  name := "Bakery"
  accounts := [
    { Account.stock ⟨"cash"⟩ "Cash" .debit with key := some .cashTotal },
    { Account.stock ⟨"flour"⟩ "Flour" .debit with feedsCashFlow := true }]
  periods := [.plain ⟨"third"⟩ 7, .imported ⟨"first"⟩ (-3), .imported ⟨"second"⟩ 0]
  ledger :=
    (Ledger.empty.insert ⟨⟨"cash"⟩, ⟨"second"⟩⟩ ⟨40, false⟩).insert ⟨⟨"flour"⟩, ⟨"second"⟩⟩
      ⟨15, false⟩
  settings := .standard

theorem Model.periodBefore?_bakery :
    (bakery.periods.map Period.id).Nodup ∧ (bakery.periods.map Period.order).Nodup ∧
    bakery.latestPeriod? = some (.plain ⟨"third"⟩ 7) ∧
    bakery.periodBefore? ⟨"third"⟩ = some (.imported ⟨"second"⟩ 0) ∧
    bakery.periodBefore? ⟨"first"⟩ = none ∧
    (∃ plan, Plan.of bakery = .ok plan ∧ plan.periodAt? 1 = some (.imported ⟨"second"⟩ 0)) ∧
    ∃ r, Reconciliation.of bakery ⟨"third"⟩ = .ok r ∧ r.beginning = bakery.stored ⟨"cash"⟩ 1 := by
  have hids : (bakery.periods.map Period.id).Nodup := by decide
  have horders : (bakery.periods.map Period.order).Nodup := by decide
  have hfirst : bakery.timeline[0]? = some (.imported ⟨"first"⟩ (-3)) := rfl
  have hthird : bakery.timeline[2]? = some (.plain ⟨"third"⟩ 7) := rfl
  obtain ⟨hlatest, hpositions⟩ := periodBefore?_at_position hids horders
  obtain ⟨hbefore, hpasses, hreconciled⟩ := hpositions 2 _ hthird
  obtain ⟨plan, hplan⟩ : ∃ plan, Plan.of bakery = .ok plan :=
    exists_eq_ok_of_isSome (by decide +kernel)
  exact ⟨hids, horders, hlatest, hbefore, (hpositions 0 _ hfirst).1,
    ⟨plan, hplan, (hpasses plan hplan).1.trans hbefore⟩, _, hreconciled, rfl⟩

end ProForma
