import ProForma.Proofs.Forecast
import ProForma.Proofs.NextPeriod
import ProForma.Proofs.Plan.Fixpoint
import ProForma.Proofs.Totals

/-!
# Adding a period

Nothing is recorded for a new period, so filling it in computes every account. The summary lines are
computed by the same formulas as all other accounts, so settling finds them as they should be, and
the number of sweeps is no matter. As long as there are orders left, the new period is the last one,
and each account that has nothing to go by takes over its value of the period before.
-/

namespace ProForma

variable {α : Type} [Amount α]

namespace Plan

open Chart Formula Ledger

variable {plan : Plan α} {ledger before filled : Ledger α} {position : Nat} {period : Period}

/-- In a period for which nothing was recorded, every account follows its rule. -/
theorem Computed.follows (hplan : plan.Reviewed) (hperiod : plan.timeline[position]? = some period)
    (h : plan.Computed ledger position period plan.order filled)
    (hnone : ∀ id, ledger.cell? ⟨id, period.id⟩ = none) {a : Account α}
    (ha : a ∈ plan.chart.accounts) :
    ∃ x, filled.cell? ⟨a.id, period.id⟩ = some ⟨x, true⟩ ∧
      plan.Follows ledger filled position period a x := by
  have hentered : ledger.isEntered ⟨a.id, period.id⟩ = false := by
    rw [isEntered, hnone]
    rfl
  obtain ⟨x, hx, hcell⟩ := h.written a.id ((mem_order hplan.order).2 ⟨a, ha, rfl⟩) hentered
  refine ⟨x, hcell, follows_of_afresh hplan ha hentered hx rfl ?_ fun account => ?_⟩
  · intro account t ht
    refine stored_congr account fun p hp => ?_
    obtain ⟨n, rfl, hn⟩ := periodAt?_eq_some_iff.1 hp
    have hne : p.id ≠ period.id := hplan.id_ne (by omega) hn hperiod
    exact (h.kept _ fun hsame => absurd hsame hne).symm
  · rw [stored_of_getElem? hperiod]
    exact h.afresh_eq hplan account

/-! ### The number of sweeps -/

theorem afreshWithin_withPasses (passes depth : Nat) (id : AccountId) :
    (plan.withPasses passes).afreshWithin ledger position period depth id =
      plan.afreshWithin ledger position period depth id := by
  induction depth generalizing id with
  | zero => rfl
  | succ depth ih =>
      unfold afreshWithin
      rw [funext ih]
      rfl

theorem fillPeriodAfresh_withPasses (passes : Nat) :
    (plan.withPasses passes).fillPeriodAfresh position period ledger =
      plan.fillPeriodAfresh position period ledger := by
  have hcell : (plan.withPasses passes).fillCellAfresh position period =
      plan.fillCellAfresh position period := by
    ext current id : 2
    unfold fillCellAfresh afresh
    rw [afreshWithin_withPasses]
    rfl
  unfold fillPeriodAfresh
  rw [hcell]
  rfl

end Plan

namespace Model

open Plan

variable {m m' : Model α} {p : Period} {plan : Plan α}

/-- The model with one more period, for which nothing is recorded yet. -/
def withPeriod (m : Model α) (p : Period) : Model α :=
  { m with periods := m.periods ++ [p] }

/-- The position of a new period on the timeline. -/
def addedAt (m : Model α) (p : Period) : Nat :=
  (m.withPeriod p).timeline.idxOf p

omit [Amount α] in
theorem getElem?_addedAt (m : Model α) (p : Period) :
    (m.withPeriod p).timeline[m.addedAt p]? = some p :=
  List.getElem?_idxOf (mem_timeline.2 (List.mem_append_right _ List.mem_cons_self))

omit [Amount α] in
theorem Latest.latestOrder_eq (hp : m.Latest p) : (m.withPeriod p).latestOrder = p.order := by
  have hgreatest : ((m.withPeriod p).periods.map Period.order).max? = some p.order := by
    refine List.max?_eq_some_iff.2 ⟨?_, fun order horder => ?_⟩
    · exact List.mem_map_of_mem (List.mem_append_right _ List.mem_cons_self)
    · obtain ⟨q, hq, rfl⟩ := List.mem_map.1 horder
      rcases List.mem_append.1 hq with hq | hq
      · exact Int.le_of_lt (hp.last q hq)
      · exact Int.le_of_eq (congrArg Period.order (List.mem_singleton.1 hq))
  rw [latestOrder, hgreatest]
  rfl

omit [Amount α] in
/-- Every new period takes up the room for one. -/
theorem HasRoom.withPeriod {n : Nat} (hroom : m.HasRoom (n + 1)) (hp : m.Upcoming p) :
    (m.withPeriod p).HasRoom n := by
  have hroom' := hroom.mono (Nat.le_add_left 1 n)
  have horder : p.order = m.latestOrder + 1 := hp.order.trans (nextOrder_eq hroom')
  unfold HasRoom at hroom ⊢
  rw [(hp.latest hroom').latestOrder_eq, horder]
  omega

omit [Amount α] in
/-- Nothing is recorded for a period that the model does not have. -/
theorem Upcoming.cell?_eq_none (hcheck : m.check = .ok ()) (hp : m.Upcoming p) (id : AccountId) :
    m.ledger.cell? ⟨id, p.id⟩ = none := by
  by_contra hcell
  obtain ⟨cell, hcell⟩ := Option.ne_none_iff_exists'.1 hcell
  have hfaults := (check_eq_ok_iff_parts.1 hcheck).2.2 _ cell hcell
  obtain ⟨-, q, hq, hid⟩ := cellFaults_eq_nil_iff.1 hfaults
  exact hp.fresh q hq hid

omit [Amount α] in
/-- So nothing has to make way for it. -/
theorem Upcoming.vacated_eq (hcheck : m.check = .ok ()) (hp : m.Upcoming p) :
    (m.withPeriod p).vacated p.id = m.ledger := by
  have hkept : ∀ a : Account α, m.ledger.erase ⟨a.id, p.id⟩ = m.ledger :=
    fun a => Ledger.erase_eq_self (hp.cell?_eq_none hcheck a.id)
  exact List.foldl_fixed' hkept m.accounts

omit [Amount α] in
/-- The identifiers are still all different, wherever the new period stands. -/
theorem Upcoming.nodup_ids (hcheck : m.check = .ok ()) (hp : m.Upcoming p) :
    ((m.withPeriod p).periods.map Period.id).Nodup := by
  rw [withPeriod, List.map_append]
  refine (nodup_periods_of_check hcheck).1.append (List.nodup_singleton _) fun id hid hlast => ?_
  obtain ⟨q, hq, rfl⟩ := List.mem_map.1 hid
  exact hp.fresh q hq (List.mem_singleton.1 hlast)

theorem Upcoming.reviewed (hcheck : m.check = .ok ()) (hp : m.Upcoming p)
    (hplan : Plan.of (m.withPeriod p) = .ok plan) : plan.Reviewed := by
  have hchart : (m.withPeriod p).chart.faults = [] := chart_faults_of_check (m := m) hcheck
  exact reviewed_of_parts hchart (hp.nodup_ids hcheck) hplan

theorem getElem?_timeline_of (hplan : Plan.of (m.withPeriod p) = .ok plan) :
    plan.timeline[m.addedAt p]? = some p := by
  rw [(of_eq_ok_iff.1 hplan).2.2.1]
  exact m.getElem?_addedAt p

/-- The memo starts empty, so it makes no difference. -/
theorem Upcoming.run_fillPeriod (hcheck : m.check = .ok ()) (hp : m.Upcoming p)
    (hplan : Plan.of (m.withPeriod p) = .ok plan) :
    ((plan.fillPeriod (m.addedAt p) p m.ledger).run (Memo.empty, [])).1 =
      plan.fillPeriodAfresh (m.addedAt p) p m.ledger :=
  (fillPeriod_yields (hp.reviewed hcheck hplan) (getElem?_timeline_of hplan) m.ledger Memo.empty []
    nofun nofun).1

/-- What an account has in the last period; zero without periods or without a value. -/
def lastValue (m : Model α) (id : AccountId) : α :=
  match m.timeline.getLast? with
  | some last => m.ledger.value ⟨id, last.id⟩
  | none => 0

theorem Upcoming.carried_eq (hp : m.Upcoming p) (htimeline : plan.timeline = m.timeline ++ [p])
    {ledger : Ledger α} (hkept : ∀ key, key.period ≠ p.id → ledger.cell? key = m.ledger.cell? key)
    (id : AccountId) : plan.carried ledger id m.periods.length = m.lastValue id := by
  unfold carried Plan.stored periodAt? lastValue
  rw [htimeline, ← length_timeline, List.getLast?_eq_getElem?]
  by_cases hempty : m.timeline.length = 0
  · rw [if_neg (by omega), List.length_eq_zero_iff.1 hempty]
    rfl
  · rw [if_pos (by omega), List.getElem?_append_left (by omega)]
    have hindex : ((m.timeline.length : Int) - 1).toNat = m.timeline.length - 1 := by omega
    rw [hindex]
    rcases hlast : m.timeline[m.timeline.length - 1]? with _ | last
    · rfl
    · refine Ledger.value_congr (hkept _ ?_)
      exact hp.fresh last (mem_timeline.1 (List.mem_of_getElem? hlast))

theorem extend_of_error {fault : Fault α} (hcheck : m.check = .ok ())
    (hp : m.upcomingPeriod = .error fault) : m.extend = throw fault := by
  unfold extend
  rw [hcheck, hp]
  rfl

/-- Adding a period plans for the model with the period, fills it in where it stands and settles its
lines. -/
theorem extend_eq (hcheck : m.check = .ok ()) (hp : m.upcomingPeriod = .ok p) :
    m.extend = (do
      let plan ← Plan.of (m.withPeriod p)
      let ledger ← .ofComputation (plan.fillPeriod (m.addedAt p) p m.ledger)
      let ledger ← plan.settleIn [(p, m.addedAt p)] plan.settings.passes ledger
      pure { m.withPeriod p with ledger } : Pass α (Model α)) := by
  have hupcoming := upcoming_of_upcomingPeriod hp
  have hvacated : ({ m with periods := m.periods ++ [p] } : Model α).vacated p.id = m.ledger :=
    hupcoming.vacated_eq hcheck
  unfold extend
  rw [hcheck, hp]
  simp only [liftM_ok_bind, hvacated]
  change (liftM (Plan.of (m.withPeriod p)) >>= _ : Pass α (Model α)) =
    liftM (Plan.of (m.withPeriod p)) >>= _
  rcases hplan : Plan.of (m.withPeriod p) with fault | plan
  · rfl
  · have hposition := (hupcoming.reviewed hcheck hplan).position_eq (getElem?_timeline_of hplan)
    simp only [liftM_ok_bind, hposition]
    rfl

theorem extend_eq_ok (hcheck : m.check = .ok ()) (hp : m.upcomingPeriod = .ok p) :
    m.extend.result = .ok m' ↔ ∃ plan, Plan.of (m.withPeriod p) = .ok plan ∧
      let fill := (plan.fillPeriod (m.addedAt p) p m.ledger).run (Memo.empty, [])
      ∃ filled, fill.1 = .ok filled ∧ ∃ ledger,
        ((plan.settleIn [(p, m.addedAt p)] plan.settings.passes filled).run fill.2.2).1 =
          .ok ledger ∧
        m' = { m with periods := m.periods ++ [p], ledger } := by
  rw [extend_eq hcheck hp]
  unfold Pass.result Pass.outcome
  simp only [run_bind_eq_ok, run_liftM]
  constructor
  · rintro ⟨plan, hplan, filled, hfilled, ledger, hledger, hm'⟩
    exact ⟨plan, hplan, filled, hfilled, ledger, hledger, (Except.ok.inj hm').symm⟩
  · rintro ⟨plan, hplan, filled, hfilled, ledger, hledger, rfl⟩
    exact ⟨plan, hplan, filled, hfilled, ledger, hledger, rfl⟩

/-- A period has been added and filled in, and its lines are to be settled. -/
structure Stage (m : Model α) (p : Period) (plan : Plan α) (filled : Ledger α) : Prop where
  check : m.check = .ok ()
  next : m.upcomingPeriod = .ok p
  planned : Plan.of (m.withPeriod p) = .ok plan
  fill : ((plan.fillPeriod (m.addedAt p) p m.ledger).run (Memo.empty, [])).1 = .ok filled

namespace Stage

variable {filled : Ledger α}

theorem upcoming (h : m.Stage p plan filled) : m.Upcoming p :=
  upcoming_of_upcomingPeriod h.next

theorem reviewed (h : m.Stage p plan filled) : plan.Reviewed :=
  h.upcoming.reviewed h.check h.planned

theorem timeline_eq (h : m.Stage p plan filled) : plan.timeline = (m.withPeriod p).timeline :=
  (of_eq_ok_iff.1 h.planned).2.2.1

theorem chart_eq (h : m.Stage p plan filled) : plan.chart = m.chart :=
  (of_eq_ok_iff.1 h.planned).2.1

theorem period (h : m.Stage p plan filled) : plan.timeline[m.addedAt p]? = some p :=
  getElem?_timeline_of h.planned

theorem afresh (h : m.Stage p plan filled) :
    plan.fillPeriodAfresh (m.addedAt p) p m.ledger = .ok filled := by
  rw [← h.upcoming.run_fillPeriod h.check h.planned, h.fill]

theorem computed (h : m.Stage p plan filled) :
    plan.Computed m.ledger (m.addedAt p) p plan.order filled :=
  computed_fillPeriodAfresh h.reviewed h.period h.afresh

theorem kept (h : m.Stage p plan filled) {key : CellKey} (hkey : key.period ≠ p.id) :
    filled.cell? key = m.ledger.cell? key :=
  h.computed.kept key fun hsame => absurd hsame hkey

theorem follows (h : m.Stage p plan filled) {a : Account α} (ha : a ∈ m.accounts) :
    ∃ x, filled.cell? ⟨a.id, p.id⟩ = some ⟨x, true⟩ ∧
      plan.Follows m.ledger filled (m.addedAt p) p a x := by
  have haccounts : plan.chart.accounts = m.accounts := congrArg Chart.accounts h.chart_eq
  rw [← haccounts] at ha
  exact h.computed.follows h.reviewed h.period (h.upcoming.cell?_eq_none h.check) ha

theorem settled (h : m.Stage p plan filled) :
    ∀ x ∈ plan.lines [(p, m.addedAt p)], plan.Settled filled x := by
  rintro ⟨period, position, a⟩ hx
  obtain ⟨hentry, ha⟩ := mem_lines.1 hx
  obtain ⟨hperiod, hposition⟩ : period = p ∧ position = m.addedAt p :=
    Prod.mk.inj (List.mem_singleton.1 hentry)
  subst hperiod hposition
  have haccount := (Chart.mem_of_account? (account?_of_mem_derivedLines ha)).1
  rw [h.chart_eq] at haccount
  obtain ⟨x, hcell, hfollows⟩ := h.follows haccount
  exact hfollows.settled hcell

theorem result (h : m.Stage p plan filled) :
    m.extend.result = .ok { m with periods := m.periods ++ [p], ledger := filled } := by
  apply (extend_eq_ok h.check h.next).2
  refine ⟨plan, h.planned, filled, h.fill, filled, ?_, rfl⟩
  -- Every line is settled from the start, so settling has nothing to do.
  exact settleIn_of_settled h.settled plan.settings.passes _

theorem withPasses (h : m.Stage p plan filled) (passes : Nat) :
    (m.withPasses passes).Stage p (plan.withPasses passes) filled where
  check := h.check
  next := h.next
  planned := of_withPasses h.planned passes
  fill := by
    have hreviewed := h.reviewed.withPasses passes
    refine (fillPeriod_yields hreviewed h.period m.ledger Memo.empty [] nofun nofun).1.trans ?_
    rw [fillPeriodAfresh_withPasses, h.afresh]

end Stage

end Model

end ProForma
