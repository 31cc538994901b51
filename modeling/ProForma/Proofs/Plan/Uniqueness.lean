import ProForma.Proofs.Plan.Scope

/-!
# What a plan determines

A filled ledger describes itself by the rules of its accounts, and so does a settled one by what its
lines ask for. Each of these descriptions has one solution: read in the order of periods, and in a
period in the order of computation, a cell is given by the cells before it. So a ledger that fits
the description is what the pass comes to, however it was found.
-/

namespace ProForma.Plan

open Chart Ledger

variable {α : Type} [Amount α] {plan : Plan α} {before filled filled' : Ledger α}

/-- The second ledger differs only in cells of accounts and periods of the plan. -/
def Confined (plan : Plan α) (before filled : Ledger α) : Prop :=
  ∀ key, filled.cell? key ≠ before.cell? key →
    (∃ a ∈ plan.chart.accounts, a.id = key.account) ∧ ∃ p ∈ plan.timeline, p.id = key.period

theorem confined_fillAfresh (hplan : plan.Reviewed) (hfill : plan.fillAfresh before = .ok filled) :
    plan.Confined before filled :=
  fun _ => known_of_fillAfresh hplan hfill

theorem confined_settle (hplan : plan.Reviewed)
    (hsettle : (plan.settle before).result = .ok filled) : plan.Confined before filled :=
  fun _ => known_of_settle hplan hsettle

theorem alike_self (plan : Plan α) : Alike plan plan fun _ _ => True where
  settings := rfl
  period _ := rfl
  account _ := rfl
  formula _ _ := rfl
  reads _ _ _ := trivial

namespace Confined

omit [Amount α] in
theorem cell?_of_account? (h : plan.Confined before filled)
    (haccount : ∀ a ∈ plan.chart.accounts, plan.chart.account? a.id = some a) {id : AccountId}
    (hid : plan.chart.account? id = none) (period : PeriodId) :
    filled.cell? ⟨id, period⟩ = before.cell? ⟨id, period⟩ := by
  by_contra hkey
  obtain ⟨⟨a, ha, rfl⟩, -⟩ := h _ hkey
  rw [haccount a ha] at hid
  cases hid

omit [Amount α] in
/-- Ledgers that come from one and the same agree outside the periods of the plan. -/
theorem eq_of_agreeOn (h : plan.Confined before filled) (h' : plan.Confined before filled')
    (hagree : plan.AgreeOn (fun _ _ => True) filled filled') : filled' = filled := by
  ext key : 1
  by_cases hperiod : ∃ p ∈ plan.timeline, p.id = key.period
  · obtain ⟨p, hp, hid⟩ := hperiod
    obtain ⟨n, hn⟩ := List.mem_iff_getElem?.1 hp
    have hcell := hagree key.account n p trivial hn
    rwa [hid] at hcell
  · have hcell : filled.cell? key = before.cell? key := by
      by_contra hkey
      exact hperiod (h key hkey).2
    have hcell' : filled'.cell? key = before.cell? key := by
      by_contra hkey
      exact hperiod (h' key hkey).2
    exact hcell'.trans hcell.symm

end Confined

/-- There is one ledger that describes itself by the rules of its accounts. -/
theorem SelfConsistent.unique (hplan : plan.Reviewed) (h : plan.SelfConsistent before filled)
    (h' : plan.SelfConsistent before filled') (hconfined : plan.Confined before filled)
    (hconfined' : plan.Confined before filled') : filled' = filled := by
  apply hconfined.eq_of_agreeOn hconfined'
  apply agreeOn_of_below
  intro id n p _ hp hbelow
  rcases ha : plan.chart.account? id with _ | a
  · rw [hconfined.cell?_of_account? hplan.account ha, hconfined'.cell?_of_account? hplan.account ha]
  · obtain ⟨hmem, rfl⟩ := mem_of_account? ha
    cases himported : p.isImported with
    | true => rw [h.imported hp himported, h'.imported hp himported]
    | false =>
        cases hentered : before.isEntered ⟨a.id, p.id⟩ with
        | true =>
            rw [h.entered hp himported a hmem hentered, h'.entered hp himported a hmem hentered]
        | false =>
            obtain ⟨x, hx, hfollows⟩ := h.derived hp himported a hmem hentered
            obtain ⟨y, hy, hfollows'⟩ := h'.derived hp himported a hmem hentered
            have hreads := plan.alike_self.agreeOn_reads hmem trivial hplan hbelow
            rw [hx, hy,
              hfollows'.unique (plan.alike_self.follows hmem trivial hreads rfl hfollows)]

/-- The lines of the ledger are what they ask for over the ledger itself, and all other cells are
what they were. -/
def SettledFrom (plan : Plan α) (before settled : Ledger α) : Prop :=
  ∀ n p a, plan.timeline[n]? = some p → a ∈ plan.chart.accounts →
    settled.cell? ⟨a.id, p.id⟩ =
      if plan.settings.passes ≠ 0 ∧ a.isDerived = true then
        settledCell (before.cell? ⟨a.id, p.id⟩) (plan.asked settled ⟨p, n, a⟩)
      else before.cell? ⟨a.id, p.id⟩

theorem settledFrom_settle (hplan : plan.Reviewed)
    (hsettle : (plan.settle before).result = .ok filled) : plan.SettledFrom before filled :=
  fun _ _ _ hp ha => cell?_settle hplan hsettle hp ha

/-- There is one ledger that settling can come to. -/
theorem SettledFrom.unique (hplan : plan.Reviewed) (h : plan.SettledFrom before filled)
    (h' : plan.SettledFrom before filled') (hconfined : plan.Confined before filled)
    (hconfined' : plan.Confined before filled') : filled' = filled := by
  apply hconfined.eq_of_agreeOn hconfined'
  apply agreeOn_of_below
  intro id n p _ hp hbelow
  rcases ha : plan.chart.account? id with _ | a
  · rw [hconfined.cell?_of_account? hplan.account ha, hconfined'.cell?_of_account? hplan.account ha]
  · obtain ⟨hmem, rfl⟩ := mem_of_account? ha
    have hreads := plan.alike_self.agreeOn_reads hmem trivial hplan hbelow
    rw [h n p a hp hmem, h' n p a hp hmem, plan.alike_self.asked_eq hmem trivial hreads]

end ProForma.Plan
