import ProForma.Plan.Fill
import ProForma.Proofs.Review

/-!
# Values computed afresh

What a cell comes to if nothing is remembered: its formula, evaluated over the cells of its period
that it reads, each computed in the same way, and over the ledger for earlier periods. In the order
of computation every account comes after what it reads, so this goes down at most once per account,
and it takes no notice of the values that have been written down already.
-/

namespace ProForma.Plan

open Chart Formula

variable {α : Type} [Amount α] {plan : Plan α} {ledger : Ledger α} {position : Nat}
  {period : Period}

/-! ### Plans of reviewed models -/

/-- The plan of a model that passes review. -/
structure Reviewed (plan : Plan α) : Prop where
  order : plan.chart.order = .ok plan.order
  account : ∀ a ∈ plan.chart.accounts, plan.chart.account? a.id = some a
  supplies : ∀ a ∈ plan.chart.accounts, plan.chart.Supplies a
  timeline : (plan.timeline.map Period.id).Nodup

theorem of_eq_ok_iff {m : Model α} :
    Plan.of m = .ok plan ↔ m.chart.order = .ok plan.order ∧
      plan.chart = m.chart ∧ plan.timeline = m.timeline ∧ plan.settings = m.settings := by
  unfold Plan.of
  constructor
  · intro h
    obtain ⟨order, horder, h⟩ := bind_eq_ok.1 h
    cases h
    exact ⟨horder, rfl, rfl, rfl⟩
  · rintro ⟨horder, hchart, htimeline, hsettings⟩
    rw [horder, ← hchart, ← htimeline, ← hsettings]
    rfl

theorem reviewed_of_parts {m : Model α} (hchart : m.chart.faults = [])
    (hids : (m.periods.map Period.id).Nodup) (hplan : Plan.of m = .ok plan) : plan.Reviewed := by
  obtain ⟨horder, hsame, htimeline, -⟩ := of_eq_ok_iff.1 hplan
  refine ⟨by rw [hsame, horder], ?_, ?_, ?_⟩
  · rw [hsame]
    exact fun a ha => account?_eq_of_mem (nodup_ids_of_faults hchart) ha
  · rw [hsame]
    exact fun a ha => (fits_of_faults hchart ha).supplies
  · rw [htimeline]
    exact ((Period.perm_inOrder m.periods).map Period.id).nodup_iff.2 hids

theorem reviewed_of {m : Model α} (hcheck : m.check = .ok ()) (hplan : Plan.of m = .ok plan) :
    plan.Reviewed :=
  reviewed_of_parts (Model.chart_faults_of_check hcheck) (Model.nodup_periods_of_check hcheck).1
    hplan

theorem Reviewed.exists_formula? (hplan : plan.Reviewed) {id : AccountId} {a : Account α}
    (ha : plan.chart.account? id = some a) (timing : Timing) :
    ∃ f?, plan.chart.formula? timing a = .ok f? :=
  Chart.exists_formula? (hplan.supplies a (mem_of_account? ha).1) timing

/-! ### What an account is derived from -/

section Derive

variable {m : Type → Type} [Monad m] [MonadExceptOf (Fault α) m] {read : AccountId → m α}
  {id : AccountId} {a : Account α} {f : Formula α}

theorem derive_eq_value (hkept : ∀ a, plan.chart.account? id = some a →
      ledger.isEntered ⟨id, period.id⟩ = true) :
    plan.derive ledger position period read id = pure (ledger.value ⟨id, period.id⟩) := by
  unfold derive
  cases ha : plan.chart.account? id with
  | none => rfl
  | some a =>
      dsimp only
      rw [if_pos (hkept a ha)]

theorem derive_eq_held (ha : plan.chart.account? id = some a)
    (hentered : ledger.isEntered ⟨id, period.id⟩ = false)
    (hf : plan.chart.formula? (timing period position) a = .ok none) :
    plan.derive ledger position period read id = pure (plan.held ledger position period a) := by
  unfold derive
  rw [ha]
  dsimp only
  rw [hentered, if_neg Bool.false_ne_true, hf]

theorem derive_eq_eval (ha : plan.chart.account? id = some a)
    (hentered : ledger.isEntered ⟨id, period.id⟩ = false)
    (hf : plan.chart.formula? (timing period position) a = .ok (some f)) :
    plan.derive ledger position period read id =
      f.eval (fun ref t => if t = position then read ref else pure (plan.stored ledger ref t))
        position := by
  unfold derive
  rw [ha]
  dsimp only
  rw [hentered, if_neg Bool.false_ne_true, hf]

end Derive

/-- A cell of a reviewed model is read from the ledger, held, or computed by a formula. -/
theorem Reviewed.derive_cases (hplan : plan.Reviewed) (ledger : Ledger α) (position : Nat)
    (period : Period) (id : AccountId) :
    (∀ a, plan.chart.account? id = some a → ledger.isEntered ⟨id, period.id⟩ = true) ∨
    ∃ a, plan.chart.account? id = some a ∧ ledger.isEntered ⟨id, period.id⟩ = false ∧
      (plan.chart.formula? (timing period position) a = .ok none ∨
        ∃ f, plan.chart.formula? (timing period position) a = .ok (some f)) := by
  cases ha : plan.chart.account? id with
  | none =>
      left
      intro a ha
      cases ha
  | some a =>
      cases hentered : ledger.isEntered ⟨id, period.id⟩ with
      | true =>
          left
          intro _ _
          rfl
      | false =>
          obtain ⟨f?, hf⟩ := hplan.exists_formula? ha (timing period position)
          refine .inr ⟨a, rfl, rfl, ?_⟩
          cases f? with
          | none => exact .inl hf
          | some f => exact .inr ⟨f, hf⟩

/-! ### Reading in two ways -/

/-- Values derived over two ways of reading are related if the accounts of lower rank are. -/
theorem derive_parallel {m n : Type → Type} [Monad m] [MonadExceptOf (Fault α) m] [Monad n]
    [MonadExceptOf (Fault α) n] {Rel : m α → n α → Prop} (h : Parallel Rel) (hplan : plan.Reviewed)
    (ledger : Ledger α) (position : Nat) (period : Period) (read : AccountId → m α)
    (read' : AccountId → n α) (id : AccountId)
    (hread : ∀ ref, rank plan.order ref < rank plan.order id → Rel (read ref) (read' ref)) :
    Rel (plan.derive ledger position period read id)
      (plan.derive ledger position period read' id) := by
  rcases hplan.derive_cases ledger position period id with hkept | ⟨a, ha, hentered, hf | ⟨f, hf⟩⟩
  · rw [derive_eq_value hkept, derive_eq_value hkept]
    exact h.pure _
  · rw [derive_eq_held ha hentered hf, derive_eq_held ha hentered hf]
    exact h.pure _
  · rw [derive_eq_eval ha hentered hf, derive_eq_eval ha hentered hf]
    refine eval_parallel h _ _ position f (.inr (proper_of_formula? hf)) fun r hr => ?_
    split
    · rename_i hposition
      have hlag : r.2 = 0 := by omega
      have hnow : (r.1, 0) ∈ f.refs := hlag ▸ hr
      exact hread r.1 (rank_lt_of_mem_refs hplan.order ha hf hnow)
    · exact h.pure _

theorem derive_congr {m : Type → Type} [Monad m] [MonadExceptOf (Fault α) m] (hplan : plan.Reviewed)
    {read read' : AccountId → m α} {id : AccountId}
    (hread : ∀ ref, rank plan.order ref < rank plan.order id → read ref = read' ref) :
    plan.derive ledger position period read id = plan.derive ledger position period read' id :=
  derive_parallel parallel_eq hplan ledger position period read read' id hread

/-! ### Cells without a memo -/

/-- The outcome of a cell, with the value of the period before for a fault that is worked around. -/
def orBefore (plan : Plan α) (ledger : Ledger α) (position : Nat) (id : AccountId) :
    Except (Fault α) α → Except (Fault α) α
  | .ok x => .ok x
  | .error fault =>
    if plan.isolates fault then .ok (plan.carried ledger id position) else .error fault

def afreshWithin (plan : Plan α) (ledger : Ledger α) (position : Nat) (period : Period) :
    Nat → AccountId → Except (Fault α) α
  | 0, id => .error (.circular id)
  | depth + 1, id =>
    plan.orBefore ledger position id
      (plan.derive ledger position period (plan.afreshWithin ledger position period depth) id)

/-- What a cell comes to, computed without a memo. -/
def afresh (plan : Plan α) (ledger : Ledger α) (position : Nat) (period : Period) (id : AccountId) :
    Except (Fault α) α :=
  plan.afreshWithin ledger position period (plan.chart.accounts.length + 1) id

theorem afreshWithin_eq (hplan : plan.Reviewed) {depth depth' : Nat} {id : AccountId}
    (hdepth : rank plan.order id < depth) (hdepth' : rank plan.order id < depth') :
    plan.afreshWithin ledger position period depth id =
      plan.afreshWithin ledger position period depth' id := by
  induction depth generalizing depth' id with
  | zero => omega
  | succ depth ih =>
      obtain ⟨depth', rfl⟩ : ∃ n, depth' = n + 1 := ⟨depth' - 1, by omega⟩
      unfold afreshWithin
      have hderive : plan.derive ledger position period
            (plan.afreshWithin ledger position period depth) id =
          plan.derive ledger position period
            (plan.afreshWithin ledger position period depth') id :=
        derive_congr hplan fun ref href => ih (by omega) (by omega)
      rw [hderive]

/-- The depth is no matter, so a value computed afresh satisfies the equation of its account. -/
theorem afresh_eq (hplan : plan.Reviewed) (id : AccountId) :
    plan.afresh ledger position period id =
      plan.orBefore ledger position id
        (plan.derive ledger position period (plan.afresh ledger position period) id) := by
  have hrank := rank_le hplan.order id
  rw [afresh, afreshWithin]
  have hderive : plan.derive ledger position period
        (plan.afreshWithin ledger position period plan.chart.accounts.length) id =
      plan.derive ledger position period (plan.afresh ledger position period) id :=
    derive_congr hplan fun ref href => afreshWithin_eq hplan (by omega) (by omega)
  rw [hderive]

end ProForma.Plan
