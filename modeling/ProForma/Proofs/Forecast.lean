import ProForma.Forecast
import ProForma.Proofs.Plan.Fill
import ProForma.Proofs.Plan.Settle

/-!
# How forecasts fail

A model that passes review has a plan unless accounts wait for one another in a circle, and this
shows before anything is computed. With a plan, the passes work around whatever is wrong with single
accounts. If the settings do not allow this, a division by zero is all that can end them.
-/

namespace ProForma

variable {α : Type} [Amount α] {m : Model α} {plan : Plan α}

namespace Plan

theorem not_onCycle_of_eq_ok (h : Plan.of m = .ok plan) (id : AccountId) :
    ¬ m.chart.precedence.OnCycle id := by
  obtain ⟨horder, -⟩ := of_eq_ok_iff.1 h
  have horder := Chart.order_eq_ok.1 horder
  exact (Precedence.order_isOk_iff m.chart.nodup_nodes_precedence).1 ⟨plan.order, horder⟩ id

theorem onCycle_of_eq_error {fault : Fault α} (h : Plan.of m = .error fault) :
    ∃ id, fault = .circular id ∧ m.chart.precedence.OnCycle id := by
  unfold Plan.of at h
  rcases bind_eq_error.1 h with h | ⟨order, -, h⟩
  · obtain ⟨id, hfault, horder⟩ := Chart.order_eq_error.1 h
    exact ⟨id, hfault, Precedence.onCycle_of_order m.chart.nodup_nodes_precedence horder⟩
  · cases h

end Plan

namespace Model

/-! ### The passes over a plan -/

theorem plan_eq_of_check (hcheck : m.check = .ok ()) : m.plan = Plan.of m := by
  unfold plan
  rw [hcheck]
  rfl

theorem failsOnly_filled (hcheck : m.check = .ok ()) (hplan : Plan.of m = .ok plan) :
    FailsOnly plan.Escapes m.filled := by
  unfold filled
  rw [plan_eq_of_check hcheck, hplan]
  exact Plan.failsOnly_fill (Plan.reviewed_of hcheck hplan) m.ledger

theorem failsOnly_settled (hcheck : m.check = .ok ()) (hplan : Plan.of m = .ok plan) :
    FailsOnly plan.Escapes m.settled := by
  unfold settled
  rw [plan_eq_of_check hcheck, hplan]
  exact Plan.failsOnly_settle (Plan.reviewed_of hcheck hplan) m.ledger

theorem failsOnly_refresh (hcheck : m.check = .ok ()) (hplan : Plan.of m = .ok plan) :
    FailsOnly plan.Escapes m.refresh := by
  have hreviewed := Plan.reviewed_of hcheck hplan
  unfold refresh
  rw [plan_eq_of_check hcheck, hplan]
  exact (Plan.failsOnly_fill hreviewed m.ledger).bind fun ledger =>
    (Plan.failsOnly_settle hreviewed ledger).bind fun _ => failsOnly_pure _

/-! ### What a pass can end with -/

/-- A pass over a model fails with a circular dependency exactly if some account is on a cycle. It
does so for want of a plan, with nothing computed and no warning given. Otherwise no fault of an
account ends a pass that carries values forward, and only a division by zero any other. -/
structure Isolates {β : Type} (m : Model α) (pass : Pass α β) : Prop where
  circular_iff :
    (∃ id, pass.result = .error (.circular id)) ↔ ∃ id, m.chart.precedence.OnCycle id
  upfront (id : AccountId) : pass.result = .error (.circular id) →
    Plan.of m = .error (.circular id) ∧ m.chart.precedence.OnCycle id ∧
      pass.outcome = (.error (.circular id), [])
  lenient : (∀ id, ¬ m.chart.precedence.OnCycle id) → m.settings.carriesForward = true →
    ∃ x, pass.result = .ok x
  strict : (∀ id, ¬ m.chart.precedence.OnCycle id) → m.settings.carriesForward = false →
    ∀ fault, pass.result = .error fault → ∃ whole, fault = .divisionByZero whole

theorem isolates_of_failsOnly {β : Type} {pass : Pass α β}
    (hplanned : ∀ plan, Plan.of m = .ok plan → FailsOnly plan.Escapes pass)
    (hunplanned : ∀ fault, Plan.of m = .error fault → pass.outcome = (.error fault, [])) :
    m.Isolates pass := by
  cases hplan : Plan.of m with
  | error fault =>
      obtain ⟨id, rfl, hcycle⟩ := Plan.onCycle_of_eq_error hplan
      have houtcome := hunplanned _ hplan
      have hresult : pass.result = .error (.circular id) := by rw [Pass.result, houtcome]
      refine ⟨⟨fun _ => ⟨id, hcycle⟩, fun _ => ⟨id, hresult⟩⟩, fun id' hid' => ?_, ?_, ?_⟩
      · rw [hresult] at hid'
        cases hid'
        exact ⟨hplan, hcycle, houtcome⟩
      · intro hacyclic
        exact absurd hcycle (hacyclic id)
      · intro hacyclic
        exact absurd hcycle (hacyclic id)
  | ok plan =>
      have hacyclic := Plan.not_onCycle_of_eq_ok hplan
      have hescapes : ∀ fault, pass.result = .error fault → plan.Escapes fault :=
        hplanned plan hplan []
      have hcircular : ∀ id, pass.result ≠ .error (.circular id) := fun id hid =>
        (hescapes _ hid).ne_circular id rfl
      refine ⟨⟨?_, ?_⟩, fun id hid => absurd hid (hcircular id), fun _ hcarries => ?_, ?_⟩
      · rintro ⟨id, hid⟩
        exact absurd hid (hcircular id)
      · rintro ⟨id, hcycle⟩
        exact absurd hcycle (hacyclic id)
      · cases hresult : pass.result with
        | ok x => exact ⟨x, rfl⟩
        | error fault =>
            obtain ⟨-, -, -, hsettings⟩ := Plan.of_eq_ok_iff.1 hplan
            have hstrict := (hescapes fault hresult).not_carriesForward
            rw [hsettings, hcarries] at hstrict
            cases hstrict
      · intro _ _ fault hfault
        exact (hescapes fault hfault).1

/-- Failures of single accounts are isolated in every pass over a model that passes review. -/
theorem check_isolates (hcheck : m.check = .ok ()) :
    m.Isolates m.filled ∧ m.Isolates m.settled ∧ m.Isolates m.refresh ∧
      ((∀ id, ¬ m.chart.precedence.OnCycle id) →
        ∃ plan, Plan.of m = .ok plan ∧ plan.Grounded) := by
  have hplan := plan_eq_of_check hcheck
  refine ⟨?_, ?_, ?_, fun hacyclic => ?_⟩
  · refine isolates_of_failsOnly (fun _ => failsOnly_filled hcheck) fun fault hfault => ?_
    unfold filled
    rw [hplan, hfault]
    rfl
  · refine isolates_of_failsOnly (fun _ => failsOnly_settled hcheck) fun fault hfault => ?_
    unfold settled
    rw [hplan, hfault]
    rfl
  · refine isolates_of_failsOnly (fun _ => failsOnly_refresh hcheck) fun fault hfault => ?_
    unfold refresh
    rw [hplan, hfault]
    rfl
  · cases hof : Plan.of m with
    | ok plan => exact ⟨plan, rfl, (Plan.reviewed_of hcheck hof).grounded⟩
    | error fault =>
        obtain ⟨id, -, hcycle⟩ := Plan.onCycle_of_eq_error hof
        exact absurd hcycle (hacyclic id)

/-- A shop whose sales follow the burden, which is computed from the sales. -/
def circle : Model ℚ :=
  { Plan.shop with
    accounts := Plan.shop.accounts.map fun a =>
      if a.id = ⟨"sales"⟩ then { a with parameter := .reference ⟨"burden"⟩ } else a }

theorem isolates_shop :
    Plan.shop.check = .ok () ∧ (∃ ledger, Plan.shop.filled.result = .ok ledger) ∧
    circle.check = .ok () ∧ circle.refresh.outcome = (.error (.circular ⟨"burden"⟩), []) := by
  have hshop : Plan.shop.check = .ok () := rfl
  have hplan : Plan.of Plan.shop = .ok Plan.shopPlan := rfl
  have hfilled := (check_isolates hshop).1.lenient (Plan.not_onCycle_of_eq_ok hplan) rfl
  have hcircle : circle.check = .ok () := rfl
  have hnoPlan : Plan.of circle = .error (.circular ⟨"burden"⟩) := rfl
  have hrefresh := (check_isolates hcircle).2.2.1
  obtain ⟨id, -, hcycle⟩ := Plan.onCycle_of_eq_error hnoPlan
  obtain ⟨id', hresult⟩ := hrefresh.circular_iff.2 ⟨id, hcycle⟩
  obtain ⟨hsame, -, houtcome⟩ := hrefresh.upfront id' hresult
  rw [hnoPlan] at hsame
  cases hsame
  exact ⟨hshop, hfilled, hcircle, houtcome⟩

end Model

end ProForma
