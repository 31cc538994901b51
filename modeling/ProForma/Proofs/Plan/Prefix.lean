import ProForma.Proofs.Plan.Scope

/-!
# Plans with a common beginning

Formulas look back and never ahead. So two plans that treat accounts alike and have their periods up
to some position in common ask for the same values in these periods, over ledgers that agree there.
-/

namespace ProForma.Plan

open Chart Formula Ledger

variable {α : Type} [Amount α] {plan plan' : Plan α} {ledger ledger' : Ledger α}
  {bound position : Nat}

/-- The plans treat accounts alike, and agree about the periods before a position and about the
cells of these periods. -/
structure Agree (plan plan' : Plan α) (ledger ledger' : Ledger α) (bound : Nat) : Prop where
  chart : plan'.chart = plan.chart
  settings : plan'.settings = plan.settings
  timeline {n : Nat} : n < bound → plan'.timeline[n]? = plan.timeline[n]?
  cell? {n : Nat} {p : Period} : n < bound → plan.timeline[n]? = some p →
    ∀ account, ledger'.cell? ⟨account, p.id⟩ = ledger.cell? ⟨account, p.id⟩

namespace Agree

/-- Formulas look back and never ahead. -/
theorem alike (h : Agree plan plan' ledger ledger' bound) :
    Alike plan plan' fun _ n => n < bound where
  settings := h.settings
  period hn := h.timeline hn
  account _ := by rw [h.chart]
  formula _ _ := by rw [h.chart]
  reads _ hn hread := by
    cases hread with
    | previous hk => omega
    | ref hf hr hk => omega

omit [Amount α] in
theorem agreeOn (h : Agree plan plan' ledger ledger' bound) :
    plan.AgreeOn (fun _ n => n < bound) ledger ledger' :=
  fun id _ _ hn hp => h.cell? hn hp id

theorem agreeOn_reads (h : Agree plan plan' ledger ledger' bound) (hposition : position < bound)
    {a : Account α} (ha : a ∈ plan.chart.accounts) :
    plan.AgreeOn (plan.Reads a position) ledger ledger' :=
  h.agreeOn.mono fun _ _ hread => h.alike.reads ha hposition hread

theorem settled (h : Agree plan plan' ledger ledger' bound) {line : Line α}
    (hline : plan.Stands line) (hposition : line.position < bound)
    (hsettled : plan.Settled ledger line) : plan'.Settled ledger' line := by
  obtain ⟨ha, -⟩ := mem_of_account? hline.account
  exact h.alike.settled ha hposition (h.agreeOn_reads hposition ha)
    (h.cell? hposition hline.period _) hsettled

end Agree

end ProForma.Plan
