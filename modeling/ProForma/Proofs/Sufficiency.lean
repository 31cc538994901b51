import ProForma.Proofs.Chart.RollForward
import ProForma.Proofs.Extension

/-!
# What review is enough for

Review looks at parameters, totals and relations one by one, and at no formula. Still it leaves
nothing to be found out later. In a model that passes, every account has its formulas, whatever the
period, and they refer to accounts of the model only. So no pass comes across a reference or a rate
that is missing, neither as the fault that ends it nor as one that it works around. Every demand for
a cell comes from the order of computation or from a formula, so no cell outside the chart is ever
demanded, and it does not matter what would become of it.
-/

namespace ProForma

variable {α : Type}

/-! ### Formulas -/

namespace Chart

variable {chart : Chart α} {a : Account α}

theorem has_of_mayRead (h : chart.faults = []) (ha : a ∈ chart.accounts) {id : AccountId}
    (hid : chart.MayRead a id) : chart.Has id := by
  have hfits := fits_of_faults h ha
  cases hid with
  | self => exact ⟨a, ha, rfl⟩
  | reference hr => exact hfits.references _ hr
  | term htotal ht => exact hfits.terms _ htotal _ ht
  | listed hb => exact ⟨_, hb, rfl⟩
  | flow ht =>
      rcases mem_map_account_flowsInto.1 (List.mem_map_of_mem ht) with ⟨_, b, hb, hid, -⟩ | hlinks
      · exact ⟨b, hb, hid⟩
      · obtain ⟨relation, hrelation, hlink⟩ := hlinks
        obtain ⟨link, hlink, hid⟩ := List.mem_map.1 hlink
        exact hid ▸ hfits.links relation hrelation link hlink

theorem has_of_mem_refs [Amount α] (h : chart.faults = []) (ha : a ∈ chart.accounts)
    {timing : Timing} {f : Formula α} (hf : chart.formula? timing a = .ok (some f))
    {r : AccountId × Nat} (hr : r ∈ f.refs) : chart.Has r.1 :=
  has_of_mayRead h ha (mayRead_of_mem_refs hf hr)

end Chart

/-! ### Faults -/

/-- A reference or a rate is missing. -/
def Fault.isMissing : Fault α → Bool
  | .missingReference .. | .missingRate .. => true
  | _ => false

theorem Plan.Escapes.isMissing_eq_false {plan : Plan α} {fault : Fault α}
    (h : plan.Escapes fault) : fault.isMissing = false := by
  obtain ⟨⟨whole, rfl⟩, -⟩ := h
  rfl

/-- The warning is not about something that is missing. -/
def Warning.Fair (warning : Warning α) : Prop :=
  ∀ fault, warning.fault? = some fault → fault.isMissing = false

/-- The pass ends with the fault, or warns of it. -/
def Pass.Meets {β : Type} (pass : Pass α β) (fault : Fault α) : Prop :=
  pass.result = .error fault ∨ ∃ warning ∈ pass.outcome.2, warning.fault? = some fault

/-- From fair warnings on, nothing is found to be missing. -/
def Pass.MissesNothing {β : Type} (pass : Pass α β) : Prop :=
  Keeps (Warned Warning.Fair) (fun fault : Fault α => fault.isMissing = false) pass

theorem Pass.MissesNothing.isMissing_eq_false {β : Type} {pass : Pass α β}
    (h : pass.MissesNothing) {fault : Fault α} (hmeets : pass.Meets fault) :
    fault.isMissing = false := by
  obtain ⟨hwarned, hfails⟩ := h [] (warned_nil _)
  rcases hmeets with hresult | ⟨warning, hmem, hwarning⟩
  · exact hfails fault hresult
  · exact hwarned warning hmem fault hwarning

/-! ### Demands -/

/-- The memo knows only cells of accounts that are known. -/
def Memo.Within (known : AccountId → Prop) (memo : Memo α) : Prop :=
  ∀ entry ∈ memo.known, known entry.1.account

theorem Memo.within_empty (known : AccountId → Prop) : (Memo.empty : Memo α).Within known := by
  simp [Memo.Within, Memo.empty]

/-- The memo stays within the known accounts, and the warnings are fair. -/
def Plan.Within (known : AccountId → Prop) (state : Memo α × List (Warning α)) : Prop :=
  state.1.Within known ∧ Warned Warning.Fair state.2

namespace Plan

open Chart

variable [Amount α] {plan : Plan α} {known : AccountId → Prop} {ledger : Ledger α} {position : Nat}
  {period : Period} {id : AccountId} {computed : Filling α α}

/-- Nothing is found to be missing, and no cell of an unknown account is remembered. -/
def Confines (known : AccountId → Prop) {β : Type} (c : Filling α β) : Prop :=
  Keeps (Within known) (fun fault : Fault α => fault.isMissing = false) c

omit [Amount α] in
theorem confines_demand {slot : Slot} (hslot : known slot.account) (h : Confines known computed) :
    Confines known (Memo.demand slot computed) := by
  rintro ⟨memo, warnings⟩ hinv
  have hstart : Within known (memo.start slot, warnings) := hinv
  have hcomputed := h _ hstart
  unfold Memo.demand
  rw [ExceptT.run_mk]
  dsimp only
  cases memo.value? slot with
  | some x => exact ⟨hinv, fun _ hfault => by cases hfault⟩
  | none =>
      dsimp only
      split
      · refine ⟨hinv, fun fault hfault => ?_⟩
        cases hfault
        rfl
      · rcases hrun : computed.run (memo.start slot, warnings) with
          ⟨fault | x, memo', warnings'⟩ <;> rw [hrun] at hcomputed
        · exact hcomputed
        · obtain ⟨⟨hmemo, hwarned⟩, -⟩ := hcomputed
          exact ⟨⟨List.forall_mem_cons.2 ⟨hslot, hmemo⟩, hwarned⟩, fun _ hfault => by cases hfault⟩

omit [Amount α] in
theorem missesNothing_ofComputation {c : Filling α (Ledger α)} (h : Confines known c) :
    (Pass.ofComputation c).MissesNothing := by
  intro warnings hwarned
  have hempty : Within known ((Memo.empty : Memo α), warnings) :=
    ⟨Memo.within_empty known, hwarned⟩
  obtain ⟨⟨-, hwarned'⟩, hfails⟩ := h _ hempty
  exact ⟨hwarned', hfails⟩

theorem confines_orCarried (h : Confines known computed) :
    Confines known (plan.orCarried ledger position period id computed) := by
  refine h.tryCatch fun fault hfault => ?_
  split
  · have hfair : (Warning.carried id period.id fault (plan.carried ledger id position)).Fair := by
      intro other hother
      cases hother
      exact hfault
    exact Keeps.bind (keeps_modify fun _ hinv => ⟨hinv.1, hinv.2.append hfair⟩) fun _ =>
      keeps_pure _
  · exact keeps_throw hfault

omit [Amount α] in
theorem parallel_confines (known : AccountId → Prop) :
    Parallel fun (c _ : Filling α α) => Confines known c where
  pure x := keeps_pure x
  bind hc hnext := hc.bind hnext
  divide _ := keeps_throw rfl

/-- Deriving an account of a chart that passes review reads accounts of the chart only. -/
theorem derive_parallel_has {m n : Type → Type} [Monad m] [MonadExceptOf (Fault α) m] [Monad n]
    [MonadExceptOf (Fault α) n] {Rel : m α → n α → Prop} (h : Parallel Rel)
    (hchart : plan.chart.faults = []) (read : AccountId → m α) (read' : AccountId → n α)
    (hread : ∀ ref, plan.chart.Has ref → Rel (read ref) (read' ref)) (hid : plan.chart.Has id) :
    Rel (plan.derive ledger position period read id)
      (plan.derive ledger position period read' id) := by
  obtain ⟨a, ha⟩ := exists_account? hid
  have hmem := (mem_of_account? ha).1
  obtain ⟨f?, hf⟩ := exists_formula? (fits_of_faults hchart hmem).supplies (timing period position)
  cases hentered : ledger.isEntered ⟨id, period.id⟩ with
  | true =>
      rw [derive_eq_value fun _ _ => hentered, derive_eq_value fun _ _ => hentered]
      exact h.pure _
  | false =>
      cases f? with
      | none =>
          rw [derive_eq_held ha hentered hf, derive_eq_held ha hentered hf]
          exact h.pure _
      | some f =>
          rw [derive_eq_eval ha hentered hf, derive_eq_eval ha hentered hf]
          refine Formula.eval_parallel h _ _ position f (.inr (proper_of_formula? hf)) ?_
          intro r hr
          split
          · exact hread r.1 (has_of_mem_refs hchart hmem hf hr)
          · exact h.pure _

theorem confines_cell (hchart : plan.chart.faults = []) (fuel : Nat) (hid : plan.chart.Has id) :
    Confines plan.chart.Has (plan.cell ledger position period fuel id) := by
  induction fuel generalizing id with
  | zero => exact keeps_throw rfl
  | succ fuel ih =>
      unfold cell
      have hderive : Confines plan.chart.Has (plan.derive ledger position period
          (plan.cell ledger position period fuel) id) :=
        derive_parallel_has (parallel_confines _) hchart _ (plan.cell ledger position period fuel)
          (fun _ => ih) hid
      exact confines_demand hid (confines_orCarried hderive)

theorem confines_fillPeriod (hchart : plan.chart.faults = [])
    (horder : ∀ id ∈ plan.order, plan.chart.Has id) (position : Nat) (period : Period)
    (ledger : Ledger α) : Confines plan.chart.Has (plan.fillPeriod position period ledger) := by
  refine Keeps.foldlM (fun id hid ledger => ?_) ledger
  unfold fillCell
  split
  · exact keeps_pure ledger
  · exact Keeps.bind (confines_cell hchart _ (horder id hid)) fun _ => keeps_pure _

theorem confines_fillPeriods (hchart : plan.chart.faults = [])
    (horder : ∀ id ∈ plan.order, plan.chart.Has id) (periods : List (Period × Nat))
    (ledger : Ledger α) : Confines plan.chart.Has (plan.fillPeriods periods ledger) := by
  refine Keeps.foldlM (fun entry _ ledger => ?_) ledger
  dsimp only
  split
  · exact keeps_pure ledger
  · exact confines_fillPeriod hchart horder entry.2 entry.1 ledger

/-- Cells as they are computed, but with `trap` in place of every demand for an account that is not
in the chart. -/
def cellTrapping (plan : Plan α) (trap : AccountId → Filling α α) (ledger : Ledger α)
    (position : Nat) (period : Period) : Nat → AccountId → Filling α α
  | 0, id => throw (.circular id)
  | fuel + 1, id =>
    if (plan.chart.account? id).isNone then trap id
    else
      Memo.demand ⟨id, position⟩
        (plan.orCarried ledger position period id
          (plan.derive ledger position period
            (plan.cellTrapping trap ledger position period fuel) id))

/-- The trap is never sprung. -/
theorem cellTrapping_eq_cell (hchart : plan.chart.faults = []) (trap : AccountId → Filling α α)
    (fuel : Nat) (hid : plan.chart.Has id) :
    plan.cellTrapping trap ledger position period fuel id =
      plan.cell ledger position period fuel id := by
  induction fuel generalizing id with
  | zero => rfl
  | succ fuel ih =>
      obtain ⟨a, ha⟩ := exists_account? hid
      have hderive : plan.derive ledger position period
            (plan.cellTrapping trap ledger position period fuel) id =
          plan.derive ledger position period (plan.cell ledger position period fuel) id :=
        derive_parallel_has Formula.parallel_eq hchart _ _ (fun _ => ih) hid
      unfold cellTrapping cell
      rw [ha, hderive]
      rfl

/-- No account is demanded but those of the chart. The order of computation has no other; what would
happen upon a demand for another one makes no difference to any cell; and after any filling in, the
memo knows cells of the chart only. -/
structure DemandsAccounts (plan : Plan α) : Prop where
  order : ∀ id ∈ plan.order, plan.chart.Has id
  cell : ∀ (trap : AccountId → Filling α α) (ledger : Ledger α) (position : Nat) (period : Period)
    (fuel : Nat) (id : AccountId), plan.chart.Has id →
    plan.cellTrapping trap ledger position period fuel id =
      plan.cell ledger position period fuel id
  memo : ∀ (periods : List (Period × Nat)) (ledger : Ledger α),
    ((plan.fillPeriods periods ledger).run (Memo.empty, [])).2.1.Within plan.chart.Has

theorem demandsAccounts (hchart : plan.chart.faults = [])
    (horder : ∀ id ∈ plan.order, plan.chart.Has id) : plan.DemandsAccounts where
  order := horder
  cell trap _ _ _ fuel _ hid := cellTrapping_eq_cell hchart trap fuel hid
  memo periods ledger := by
    have hempty : Within plan.chart.Has ((Memo.empty : Memo α), []) :=
      ⟨Memo.within_empty _, warned_nil _⟩
    exact (confines_fillPeriods hchart horder periods ledger _ hempty).1.1

/-! ### Passes -/

theorem missesNothing_settleIn (hplan : plan.Reviewed) (periods : List (Period × Nat))
    (passes : Nat) (ledger : Ledger α) : (plan.settleIn periods passes ledger).MissesNothing := by
  have hskipped : ∀ account period whole,
      (Warning.skipped account period (.divisionByZero whole) : Warning α).Fair := by
    intro account period whole fault hfault
    cases hfault
    rfl
  have hunsettled : ∀ passes, (Warning.unsettled passes : Warning α).Fair := by
    intro passes fault hfault
    cases hfault
  exact (keeps_settleIn hskipped hunsettled hplan periods passes ledger).mono fun _ hescapes =>
    hescapes.isMissing_eq_false

end Plan

namespace Model

open Plan

variable [Amount α] {m : Model α} {plan : Plan α}

theorem chart_and_order_of_check (hcheck : m.check = .ok ()) (hchart : plan.chart = m.chart)
    (horder : m.chart.order = .ok plan.order) :
    plan.chart.faults = [] ∧ ∀ id ∈ plan.order, plan.chart.Has id := by
  rw [hchart]
  exact ⟨chart_faults_of_check hcheck, fun id hid => (Chart.mem_order horder).1 hid⟩

theorem missesNothing_fill (hcheck : m.check = .ok ()) (hplan : Plan.of m = .ok plan) :
    (plan.fill m.ledger).MissesNothing := by
  obtain ⟨horder, hchart, -, -⟩ := of_eq_ok_iff.1 hplan
  obtain ⟨hfaults, hhas⟩ := chart_and_order_of_check hcheck hchart horder
  exact missesNothing_ofComputation (confines_fillPeriods hfaults hhas _ m.ledger)

theorem missesNothing_of {m' : Model α} {β : Type} {next : Plan α → Pass α β}
    (h : ∀ plan, Plan.of m' = .ok plan → (next plan).MissesNothing) :
    (liftM (Plan.of m') >>= next : Pass α β).MissesNothing := by
  refine Keeps.liftM_bind (fun fault hfault => ?_) h
  obtain ⟨id, rfl, -⟩ := onCycle_of_eq_error hfault
  rfl

theorem missesNothing_filled (hcheck : m.check = .ok ()) : m.filled.MissesNothing := by
  unfold filled
  rw [plan_eq_of_check hcheck]
  exact missesNothing_of fun plan hplan => missesNothing_fill hcheck hplan

theorem missesNothing_settled (hcheck : m.check = .ok ()) : m.settled.MissesNothing := by
  unfold settled
  rw [plan_eq_of_check hcheck]
  exact missesNothing_of fun plan hplan =>
    missesNothing_settleIn (reviewed_of hcheck hplan) _ _ m.ledger

theorem missesNothing_refresh (hcheck : m.check = .ok ()) : m.refresh.MissesNothing := by
  unfold refresh
  rw [plan_eq_of_check hcheck]
  refine missesNothing_of fun plan hplan => (missesNothing_fill hcheck hplan).bind fun ledger => ?_
  exact (missesNothing_settleIn (reviewed_of hcheck hplan) _ _ ledger).bind fun _ => keeps_pure _

theorem missesNothing_extend (hcheck : m.check = .ok ()) : m.extend.MissesNothing := by
  rcases hp : m.upcomingPeriod with fault | p
  · obtain ⟨reason, rfl⟩ := exists_date_of_upcomingPeriod hp
    rw [extend_of_error hcheck hp]
    exact keeps_throw rfl
  · rw [extend_eq hcheck hp]
    refine missesNothing_of fun plan hplan => ?_
    have hreviewed := (upcoming_of_upcomingPeriod hp).reviewed hcheck hplan
    obtain ⟨horder, hchart, -, -⟩ := of_eq_ok_iff.1 hplan
    obtain ⟨hfaults, hhas⟩ := chart_and_order_of_check hcheck hchart horder
    have hfill := confines_fillPeriod hfaults hhas (m.addedAt p) p m.ledger
    refine (missesNothing_ofComputation hfill).bind fun ledger => ?_
    exact (missesNothing_settleIn hreviewed _ _ ledger).bind fun _ => keeps_pure _

/-- **What review is enough for.** In a model that passes review every account has its formulas, or
none, whatever the period, and these refer to accounts of the model only. So no pass comes across a
reference or a rate that is missing, and none demands a cell of an account that is not in the
model. -/
theorem check_suffices (hcheck : m.check = .ok ()) :
    (∀ a ∈ m.accounts, ∀ timing, ∃ f?, m.chart.formula? timing a = .ok f? ∧
      ∀ f, f? = some f → ∀ r ∈ f.refs, ∃ b ∈ m.accounts, b.id = r.1) ∧
    (∀ fault, m.filled.Meets fault ∨ m.settled.Meets fault ∨ m.refresh.Meets fault ∨
      m.extend.Meets fault → fault.isMissing = false) ∧
    ∀ plan : Plan α, plan.chart = m.chart → m.chart.order = .ok plan.order →
      plan.DemandsAccounts := by
  refine ⟨fun a ha timing => ?_, fun fault hmeets => ?_, fun plan hchart horder => ?_⟩
  · obtain ⟨f?, hf⟩ := Chart.exists_formula? (supplies_of_check hcheck ha) timing
    refine ⟨f?, hf, ?_⟩
    rintro f rfl r hr
    exact Chart.has_of_mem_refs (chart_faults_of_check hcheck) ha hf hr
  · rcases hmeets with hmeets | hmeets | hmeets | hmeets
    · exact (missesNothing_filled hcheck).isMissing_eq_false hmeets
    · exact (missesNothing_settled hcheck).isMissing_eq_false hmeets
    · exact (missesNothing_refresh hcheck).isMissing_eq_false hmeets
    · exact (missesNothing_extend hcheck).isMissing_eq_false hmeets
  · obtain ⟨hfaults, hhas⟩ := chart_and_order_of_check hcheck hchart horder
    exact demandsAccounts hfaults hhas

theorem check_suffices_shop :
    Plan.shop.check = .ok () ∧ Plan.shopPlan.DemandsAccounts ∧
    (∃ a ∈ Plan.shop.accounts, ∃ f, Plan.shop.chart.formula? .steady a = .ok (some f) ∧
      f.refs = [(⟨"sales"⟩, 0), (⟨"tax"⟩, 0)] ∧
      ∀ r ∈ f.refs, ∃ b ∈ Plan.shop.accounts, b.id = r.1) ∧
    (∃ whole, Plan.shop.filled.Meets (.divisionByZero whole)) ∧
    ∀ fault, Plan.shop.filled.Meets fault → fault.isMissing = false := by
  have hcheck : Plan.shop.check = .ok () := rfl
  obtain ⟨hformulas, hmeets, hdemands⟩ := check_suffices hcheck
  obtain ⟨f?, hf, hrefs⟩ := hformulas _ List.mem_cons_self .steady
  cases hf
  refine ⟨hcheck, hdemands _ rfl rfl, ⟨_, List.mem_cons_self, _, rfl, rfl, hrefs _ rfl⟩, ?_,
    fun fault hfault => hmeets fault (.inl hfault)⟩
  -- There is no tax to divide by, which filling in works around.
  exact ⟨_, .inr ⟨.carried ⟨"burden"⟩ ⟨"2025"⟩ _ 7, List.mem_singleton.2 rfl, rfl⟩⟩

end Model

end ProForma
