import ProForma.Proofs.Chart.Rearrangement
import ProForma.Proofs.Plan.Uniqueness
import ProForma.Proofs.Reconciliation
import ProForma.Proofs.Refresh

/-!
# The order of a listing

Models list their accounts and periods in some order, which says nothing about them. Periods are put
in order before anything is computed. The order of accounts decides in which order they are
searched, computed and added up, but the filled and the settled ledger are described without it, and
there is one ledger that fits each description.
-/

namespace ProForma

/-! ### Plans -/

namespace Plan

/-- The plans are for the same accounts and periods, with the accounts in another order. -/
structure Rearranges (plan plan' : Plan ℚ) : Prop where
  chart : plan.chart.Rearranges plan'.chart
  timeline : plan'.timeline = plan.timeline
  settings : plan'.settings = plan.settings

namespace Rearranges

variable {plan plan' : Plan ℚ} {ledger before filled filled' : Ledger ℚ}

theorem stored_eq (h : plan.Rearranges plan') (ledger : Ledger ℚ) :
    plan'.stored ledger = plan.stored ledger := by
  unfold stored periodAt?
  rw [h.timeline]

/-- Lines ask for the same, or fail with the same fault. -/
theorem asked_eq (h : plan.Rearranges plan') (ledger : Ledger ℚ) (line : Line ℚ) :
    plan'.asked ledger line = plan.asked ledger line := by
  have hformula :=
    (h.chart.reorders_formula? (timing line.period line.position) line.account).corresponds
  unfold asked target
  rw [h.stored_eq]
  generalize plan.chart.formula? (timing line.period line.position) line.account = answer
    at hformula ⊢
  generalize plan'.chart.formula? (timing line.period line.position) line.account = answer'
    at hformula ⊢
  cases hformula with
  | same => rfl
  | sums hmatches =>
      simp only [bind, Except.bind, hmatches.value]

theorem follows (h : plan.Rearranges plan') {position : Nat} {period : Period} {a : Account ℚ}
    {x : ℚ} (hx : plan'.Follows before filled position period a x) :
    plan.Follows before filled position period a x := by
  have hformula := (h.chart.reorders_formula? (timing period position) a).corresponds
  unfold Follows carried at hx ⊢
  rw [h.stored_eq, h.settings] at hx
  generalize plan.chart.formula? (timing period position) a = answer at hformula ⊢
  generalize plan'.chart.formula? (timing period position) a = answer' at hformula hx
  cases hformula with
  | same => exact hx
  | sums hmatches =>
      simp only [hmatches.value] at hx
      exact hx

theorem selfConsistent (h : plan.Rearranges plan') (hself : plan'.SelfConsistent before filled) :
    plan.SelfConsistent before filled where
  imported hp := hself.imported (by rwa [h.timeline])
  entered hp himported a ha :=
    hself.entered (by rwa [h.timeline]) himported a (h.chart.mem_iff.2 ha)
  derived hp himported a ha hentered := by
    obtain ⟨x, hx, hfollows⟩ :=
      hself.derived (by rwa [h.timeline]) himported a (h.chart.mem_iff.2 ha) hentered
    exact ⟨x, hx, h.follows hfollows⟩

theorem settledFrom (h : plan.Rearranges plan') (hsettled : plan'.SettledFrom before filled) :
    plan.SettledFrom before filled := by
  intro n p a hp ha
  rw [hsettled n p a (by rwa [h.timeline]) (h.chart.mem_iff.2 ha), h.asked_eq, h.settings]

theorem confined (h : plan.Rearranges plan') (hconfined : plan'.Confined before filled) :
    plan.Confined before filled := by
  intro key hkey
  obtain ⟨⟨a, ha, hid⟩, p, hp, hperiod⟩ := hconfined key hkey
  rw [h.timeline] at hp
  exact ⟨⟨a, h.chart.mem_iff.1 ha, hid⟩, p, hp, hperiod⟩

theorem fillAfresh_eq (h : plan.Rearranges plan') (hplan : plan.Reviewed) (hplan' : plan'.Reviewed)
    (hfill : plan.fillAfresh ledger = .ok filled) (hfill' : plan'.fillAfresh ledger = .ok filled') :
    filled' = filled :=
  (selfConsistent_of_fillAfresh hplan hfill).unique hplan
    (h.selfConsistent (selfConsistent_of_fillAfresh hplan' hfill'))
    (confined_fillAfresh hplan hfill) (h.confined (confined_fillAfresh hplan' hfill'))

theorem settle_eq (h : plan.Rearranges plan') (hplan : plan.Reviewed) (hplan' : plan'.Reviewed)
    (hsettle : (plan.settle ledger).result = .ok filled)
    (hsettle' : (plan'.settle ledger).result = .ok filled') : filled' = filled :=
  (settledFrom_settle hplan hsettle).unique hplan
    (h.settledFrom (settledFrom_settle hplan' hsettle'))
    (confined_settle hplan hsettle) (h.confined (confined_settle hplan' hsettle'))

end Rearranges

end Plan

/-! ### Models -/

namespace Model

open Plan

/-- The models differ in the order in which they list their accounts and their periods. -/
structure Rearranges {α : Type} (m m' : Model α) : Prop where
  name : m'.name = m.name
  accounts : m.accounts.Perm m'.accounts
  periods : m.periods.Perm m'.periods
  ledger : m'.ledger = m.ledger
  settings : m'.settings = m.settings

namespace Rearranges

variable {α : Type} {m m' : Model α}

/-- On the timeline, periods have one order. -/
theorem timeline_eq (h : m.Rearranges m') (hcheck : m.check = .ok ()) :
    m'.timeline = m.timeline := by
  have hperm : m'.timeline.Perm m.timeline :=
    ((Period.perm_inOrder _).trans h.periods.symm).trans (Period.perm_inOrder _).symm
  have hsorted := pairwise_timeline hcheck
  have hsorted' : m'.timeline.Pairwise fun p later => p.order < later.order := by
    apply Period.pairwise_lt_inOrder_iff.2
    exact (h.periods.map Period.order).nodup_iff.1 (nodup_periods_of_check hcheck).2
  refine hperm.eq_of_pairwise (fun p q _ _ hlt hgt => ?_) hsorted' hsorted
  omega

theorem check_eq_ok (h : m.Rearranges m') (hcheck : m.check = .ok ()) : m'.check = .ok () := by
  obtain ⟨hchart, hperiods, hcells⟩ := check_eq_ok_iff_parts.1 hcheck
  have hrearranges : m.chart.Rearranges m'.chart := Chart.rearranges_of_faults hchart h.accounts
  refine check_eq_ok_iff_parts.2 ⟨hrearranges.faults_eq_nil hchart, ?_, fun key cell hcell => ?_⟩
  · obtain ⟨hids, horders⟩ := periodFaults_eq_nil_iff.1 hperiods
    exact periodFaults_eq_nil_iff.2
      ⟨(h.periods.map _).nodup_iff.1 hids, (h.periods.map _).nodup_iff.1 horders⟩
  · rw [h.ledger] at hcell
    obtain ⟨⟨a, ha, hid⟩, p, hp, hperiod⟩ := cellFaults_eq_nil_iff.1 (hcells key cell hcell)
    exact cellFaults_eq_nil_iff.2
      ⟨⟨a, h.accounts.mem_iff.1 ha, hid⟩, p, h.periods.mem_iff.1 hp, hperiod⟩

theorem plan {m m' : Model ℚ} (h : m.Rearranges m') (hcheck : m.check = .ok ())
    {plan plan' : Plan ℚ} (hplan : Plan.of m = .ok plan) (hplan' : Plan.of m' = .ok plan') :
    plan.Rearranges plan' := by
  obtain ⟨-, hchart, htimeline, hsettings⟩ := of_eq_ok_iff.1 hplan
  obtain ⟨-, hchart', htimeline', hsettings'⟩ := of_eq_ok_iff.1 hplan'
  refine ⟨?_, ?_, ?_⟩
  · rw [hchart, hchart']
    exact Chart.rearranges_of_faults (chart_faults_of_check hcheck) h.accounts
  · rw [htimeline, htimeline', h.timeline_eq hcheck]
  · rw [hsettings, hsettings', h.settings]

theorem ledger_eq {m m' r r' : Model ℚ} (h : m.Rearranges m') (hcheck : m.check = .ok ())
    (hr : m.refresh.result = .ok r) (hr' : m'.refresh.result = .ok r') : r'.ledger = r.ledger := by
  have hcheck' := h.check_eq_ok hcheck
  obtain ⟨plan, hplan⟩ := exists_plan_of_refresh hcheck hr
  obtain ⟨plan', hplan'⟩ := exists_plan_of_refresh hcheck' hr'
  have hreviewed := reviewed_of hcheck hplan
  have hreviewed' := reviewed_of hcheck' hplan'
  have hplans := h.plan hcheck hplan hplan'
  obtain ⟨filled, hfill, hsettle, -⟩ := (refresh_eq_ok_iff hcheck hplan).1 hr
  obtain ⟨filled', hfill', hsettle', -⟩ := (refresh_eq_ok_iff hcheck' hplan').1 hr'
  rw [h.ledger] at hfill'
  obtain rfl := hplans.fillAfresh_eq hreviewed hreviewed' hfill hfill'
  exact hplans.settle_eq hreviewed hreviewed' hsettle hsettle'

/-- If only periods are listed in another order, everything but their listing stays as it is. -/
theorem refresh_eq [Amount α] (h : m.Rearranges m') (haccounts : m'.accounts = m.accounts)
    (hcheck : m.check = .ok ()) :
    m'.refresh = (fun r : Model α => { r with periods := m'.periods }) <$> m.refresh := by
  have hplan : m'.plan = m.plan := by
    rw [plan_eq_of_check hcheck, plan_eq_of_check (h.check_eq_ok hcheck)]
    unfold Plan.of chart
    rw [haccounts, h.timeline_eq hcheck, h.settings]
  obtain ⟨name, accounts, periods, ledger, settings⟩ := m'
  obtain ⟨rfl, -, -, rfl, rfl⟩ := h
  obtain rfl : accounts = m.accounts := haccounts
  unfold refresh
  rw [hplan]
  simp only [map_bind, map_pure]

end Rearranges

/-- Where values are carried forward, a refresh fails for want of an order only. -/
theorem exists_refresh_iff {α : Type} [Amount α] {m : Model α} (hcheck : m.check = .ok ())
    (hcarries : m.settings.carriesForward = true) :
    (∃ r, m.refresh.result = .ok r) ↔ ∃ order, m.chart.order = .ok order := by
  constructor
  · rintro ⟨r, hr⟩
    obtain ⟨plan, hplan⟩ := exists_plan_of_refresh hcheck hr
    exact ⟨plan.order, (of_eq_ok_iff.1 hplan).1⟩
  · rintro ⟨order, horder⟩
    have hplan : Plan.of m = .ok ⟨m.chart, m.timeline, m.settings, order⟩ :=
      of_eq_ok_iff.2 ⟨horder, rfl, rfl, rfl⟩
    rcases hresult : m.refresh.result with fault | r
    · have hstrict := (failsOnly_refresh hcheck hplan [] fault hresult).not_carriesForward
      rw [hcarries] at hstrict
      cases hstrict
    · exact ⟨r, rfl⟩

/-- **Listing order is no matter.** If values are carried forward and nothing is rounded, then of
two models that differ in the order in which they list accounts and periods both are refreshed or
neither, and both come to the same ledger. If they differ in the order of periods only, then all
that happens is the same, whatever the numbers. -/
theorem refresh_rearranged :
    (∀ m m' : Model ℚ, m.check = .ok () → m.settings.carriesForward = true → m.Rearranges m' →
      m'.check = .ok () ∧
      ((∃ r, m.refresh.result = .ok r) ↔ ∃ r', m'.refresh.result = .ok r') ∧
      ∀ r r', m.refresh.result = .ok r → m'.refresh.result = .ok r' → r'.ledger = r.ledger) ∧
    ∀ (α : Type) [Amount α] (m m' : Model α), m.check = .ok () → m.Rearranges m' →
      m'.accounts = m.accounts →
      m'.refresh = (fun r : Model α => { r with periods := m'.periods }) <$> m.refresh := by
  refine ⟨fun m m' hcheck hcarries h => ?_, fun α _ m m' hcheck h haccounts => ?_⟩
  · have hcheck' := h.check_eq_ok hcheck
    have hcarries' : m'.settings.carriesForward = true := by rw [h.settings, hcarries]
    have hchart : m.chart.Rearranges m'.chart :=
      Chart.rearranges_of_faults (chart_faults_of_check hcheck) h.accounts
    refine ⟨hcheck', ?_, fun r r' => h.ledger_eq hcheck⟩
    rw [exists_refresh_iff hcheck hcarries, exists_refresh_iff hcheck' hcarries']
    exact hchart.exists_order_iff.symm
  · exact h.refresh_eq haccounts hcheck

/-- The dairy, listed from the last account and the last period. -/
def dairyReversed : Model ℚ :=
  { Reconciliation.dairy with
    accounts := Reconciliation.dairy.accounts.reverse
    periods := Reconciliation.dairy.periods.reverse }

def schoolReversed : Model Float :=
  { school ⟨"first"⟩ with periods := (school ⟨"first"⟩).periods.reverse }

theorem refresh_rearranged_dairy :
    Reconciliation.dairy.check = .ok () ∧ Reconciliation.dairy.Rearranges dairyReversed ∧
    (∃ r r', Reconciliation.dairy.refresh.result = .ok r ∧ dairyReversed.refresh.result = .ok r' ∧
      r'.ledger = r.ledger) ∧
    (school ⟨"first"⟩).check = .ok () ∧ (school ⟨"first"⟩).Rearranges schoolReversed ∧
    schoolReversed.refresh =
      (fun r : Model Float => { r with periods := schoolReversed.periods }) <$>
        (school ⟨"first"⟩).refresh := by
  have hcheck : Reconciliation.dairy.check = .ok () := rfl
  have hdairy : Reconciliation.dairy.Rearranges dairyReversed :=
    ⟨rfl, (List.reverse_perm _).symm, (List.reverse_perm _).symm, rfl, rfl⟩
  have hschool : (school ⟨"first"⟩).Rearranges schoolReversed :=
    ⟨rfl, .refl _, (List.reverse_perm _).symm, rfl, rfl⟩
  have hsuccess : Reconciliation.dairy.refresh.result.toOption.isSome = true := by decide +kernel
  obtain ⟨r, hr⟩ := exists_eq_ok_of_isSome hsuccess
  obtain ⟨-, hboth, hledger⟩ := refresh_rearranged.1 _ _ hcheck rfl hdairy
  obtain ⟨r', hr'⟩ := hboth.1 ⟨r, hr⟩
  exact ⟨hcheck, hdairy, ⟨r, r', hr, hr', hledger r r' hr hr'⟩, rfl, hschool,
    refresh_rearranged.2 Float _ _ rfl hschool rfl⟩

end Model

end ProForma
