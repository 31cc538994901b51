import ProForma.Proofs.Refresh
import ProForma.Proofs.Sufficiency

/-!
# Strict and lenient passes

A model says whether a pass works around faults of single accounts by carrying values forward. This
makes a difference only where there is something to work around. Up to its first fault of a single
account a strict pass does, demand by demand and cell by cell, what a lenient one does, and it ends
with that fault. So a strict pass that ends otherwise shows what the lenient pass comes to.
-/

namespace ProForma

/-! ### Computations that are the same up to a fault -/

section Same

variable {ε σ β γ : Type} {excepted : ε → Prop}

/-- From whatever state, the second computation does what the first one does, unless that ends with
an excepted fault. -/
def SameUnless (excepted : ε → Prop) (c c' : ExceptT ε (StateM σ) β) : Prop :=
  ∀ state, c'.run state = c.run state ∨
    ∃ fault last, c.run state = (.error fault, last) ∧ excepted fault

variable {c c' : ExceptT ε (StateM σ) β}

theorem sameUnless_refl (c : ExceptT ε (StateM σ) β) : SameUnless excepted c c :=
  fun _ => .inl rfl

theorem SameUnless.bind {next next' : β → ExceptT ε (StateM σ) γ} (hc : SameUnless excepted c c')
    (hnext : ∀ x, SameUnless excepted (next x) (next' x)) :
    SameUnless excepted (c >>= next) (c' >>= next') := by
  intro state
  rw [run_bind, run_bind]
  rcases hc state with hsame | ⟨fault, last, hrun, hexcepted⟩
  · rw [hsame]
    rcases c.run state with ⟨fault | x, state'⟩
    · exact .inl rfl
    · exact hnext x state'
  · rw [hrun]
    exact .inr ⟨fault, last, rfl, hexcepted⟩

theorem SameUnless.foldlM {step step' : γ → β → ExceptT ε (StateM σ) γ} {xs : List β}
    (h : ∀ acc, ∀ x ∈ xs, SameUnless excepted (step acc x) (step' acc x)) (init : γ) :
    SameUnless excepted (xs.foldlM step init) (xs.foldlM step' init) := by
  induction xs generalizing init with
  | nil => exact sameUnless_refl _
  | cons x xs ih =>
      rw [List.foldlM_cons, List.foldlM_cons]
      exact (h init x List.mem_cons_self).bind
        (ih fun acc y hy => h acc y (List.mem_cons_of_mem _ hy))

/-- Where the first computation throws every fault on and the second all but the excepted ones. -/
theorem SameUnless.tryCatch {handle handle' : ε → ExceptT ε (StateM σ) β}
    (h : SameUnless excepted c c') (hhandle : ∀ fault, handle fault = throw fault)
    (hhandle' : ∀ fault, ¬ excepted fault → handle' fault = throw fault) :
    SameUnless excepted (tryCatch c handle) (tryCatch c' handle') := by
  intro state
  obtain rfl : handle = throw := funext hhandle
  rw [run_tryCatch, run_tryCatch]
  rcases h state with hsame | ⟨fault, last, hrun, hexcepted⟩
  · rw [hsame]
    rcases c.run state with ⟨fault | x, last⟩
    · by_cases hexcepted : excepted fault
      · exact .inr ⟨fault, last, rfl, hexcepted⟩
      · dsimp only
        rw [hhandle' fault hexcepted]
        exact .inl rfl
    · exact .inl rfl
  · rw [hrun]
    exact .inr ⟨fault, last, rfl, hexcepted⟩

end Same

variable {α : Type}

/-- The computations are the same unless the first one ends with a fault of a single account. -/
abbrev SameOrLocal {σ β : Type} (c c' : ExceptT (Fault α) (StateM σ) β) : Prop :=
  SameUnless (fun fault : Fault α => fault.isLocal = true) c c'

theorem parallel_sameOrLocal {σ : Type} :
    Parallel (α := α) fun c c' : ExceptT (Fault α) (StateM σ) α => SameOrLocal c c' where
  pure x := sameUnless_refl (pure x)
  bind hc hnext := hc.bind hnext
  divide _ := sameUnless_refl _

theorem sameOrLocal_demand {ω : Type} {c c' : Computation ω α α} (h : SameOrLocal c c')
    (slot : Slot) : SameOrLocal (Memo.demand slot c) (Memo.demand slot c') := by
  rintro ⟨memo, record⟩
  unfold Memo.demand
  rw [ExceptT.run_mk, ExceptT.run_mk]
  dsimp only
  cases memo.value? slot with
  | some x => exact .inl rfl
  | none =>
      dsimp only
      split
      · exact .inl rfl
      · rcases h (memo.start slot, record) with hsame | ⟨fault, last, hrun, hlocal⟩
        · exact .inl (by rw [hsame])
        · rw [hrun]
          exact .inr ⟨fault, _, rfl, hlocal⟩

theorem sameOrLocal_ofComputation {β : Type} {c c' : Computation (List (Warning α)) α β}
    (h : SameOrLocal c c') : SameOrLocal (Pass.ofComputation c) (Pass.ofComputation c') := by
  intro warnings
  unfold Pass.ofComputation
  rw [ExceptT.run_mk, ExceptT.run_mk]
  rcases h (Memo.empty, warnings) with hsame | ⟨fault, last, hrun, hlocal⟩
  · exact .inl (by rw [hsame])
  · rw [hrun]
    exact .inr ⟨fault, last.2, rfl, hlocal⟩

/-! ### Plans -/

/-- The model with values carried forward, or not. -/
def Model.carrying (m : Model α) (carriesForward : Bool) : Model α :=
  { m with settings := { m.settings with carriesForward } }

namespace Plan

/-- The plan with values carried forward, or not. -/
def carrying (plan : Plan α) (carriesForward : Bool) : Plan α :=
  { plan with settings := { plan.settings with carriesForward } }

theorem isolates_strict (plan : Plan α) (fault : Fault α) :
    (plan.carrying false).isolates fault = false := by
  simp [isolates, carrying]

theorem isolates_lenient (plan : Plan α) (fault : Fault α) :
    (plan.carrying true).isolates fault = fault.isLocal := by
  simp [isolates, carrying]

variable [Amount α] {plan : Plan α} {ledger : Ledger α} {position : Nat} {period : Period}

theorem sameOrLocal_orCarried {id : AccountId} {c c' : Filling α α} (h : SameOrLocal c c') :
    SameOrLocal ((plan.carrying false).orCarried ledger position period id c)
      ((plan.carrying true).orCarried ledger position period id c') := by
  -- In filling in, this is the one place where the plans part.
  refine h.tryCatch (fun fault => ?_) fun fault hlocal => ?_
  · rw [isolates_strict, if_neg Bool.false_ne_true]
  · rw [isolates_lenient, if_neg hlocal]

theorem sameOrLocal_cell (hplan : plan.Reviewed) (fuel : Nat) (id : AccountId) :
    SameOrLocal ((plan.carrying false).cell ledger position period fuel id)
      ((plan.carrying true).cell ledger position period fuel id) := by
  induction fuel generalizing id with
  | zero => exact sameUnless_refl _
  | succ fuel ih =>
      -- Both plans derive an account in the same way; only what they read differs.
      have hderive := derive_parallel parallel_sameOrLocal hplan ledger position period
        ((plan.carrying false).cell ledger position period fuel)
        ((plan.carrying true).cell ledger position period fuel) id fun ref _ => ih ref
      unfold cell
      exact sameOrLocal_demand (sameOrLocal_orCarried hderive) _

theorem sameOrLocal_fillPeriod (hplan : plan.Reviewed) (position : Nat) (period : Period)
    (ledger : Ledger α) :
    SameOrLocal ((plan.carrying false).fillPeriod position period ledger)
      ((plan.carrying true).fillPeriod position period ledger) := by
  refine SameUnless.foldlM (fun ledger id _ => ?_) ledger
  unfold fillCell
  split
  · exact sameUnless_refl _
  · exact (sameOrLocal_cell hplan _ id).bind fun x => sameUnless_refl _

theorem sameOrLocal_fill (hplan : plan.Reviewed) (ledger : Ledger α) :
    SameOrLocal ((plan.carrying false).fill ledger) ((plan.carrying true).fill ledger) := by
  refine sameOrLocal_ofComputation (SameUnless.foldlM (fun ledger entry _ => ?_) ledger)
  dsimp only
  split
  · exact sameUnless_refl _
  · exact sameOrLocal_fillPeriod hplan entry.2 entry.1 ledger

theorem sameOrLocal_settleCell (position : Nat) (period : Period) (state : Ledger α × Bool)
    (a : Account α) :
    SameOrLocal ((plan.carrying false).settleCell position period state a)
      ((plan.carrying true).settleCell position period state a) := by
  have htarget : (plan.carrying true).target state.1 position period a =
      (plan.carrying false).target state.1 position period a := rfl
  unfold settleCell
  dsimp only
  rw [htarget]
  rcases (plan.carrying false).target state.1 position period a with fault | _ | x
  · dsimp only
    rw [isolates_strict, isolates_lenient, if_neg Bool.false_ne_true]
    by_cases hlocal : fault.isLocal = true
    · exact fun warnings => .inr ⟨fault, warnings, rfl, hlocal⟩
    · rw [if_neg hlocal]
      exact sameUnless_refl _
  · exact sameUnless_refl _
  · exact sameUnless_refl _

theorem sameOrLocal_settleIn (periods : List (Period × Nat)) (passes : Nat) (ledger : Ledger α) :
    SameOrLocal ((plan.carrying false).settleIn periods passes ledger)
      ((plan.carrying true).settleIn periods passes ledger) := by
  induction passes generalizing ledger with
  | zero => exact sameUnless_refl _
  | succ passes ih =>
      have hsweep : SameOrLocal ((plan.carrying false).sweep periods ledger)
          ((plan.carrying true).sweep periods ledger) := by
        refine SameUnless.foldlM (fun state entry _ => ?_) _
        exact SameUnless.foldlM (fun state a _ => sameOrLocal_settleCell entry.2 entry.1 state a) _
      unfold settleIn
      refine hsweep.bind ?_
      rintro ⟨next, changed⟩
      dsimp only
      split
      · exact ih next
      · exact sameUnless_refl _

end Plan

/-! ### Passes -/

theorem Fault.eq_divisionByZero {fault : Fault α} (hlocal : fault.isLocal = true)
    (hmissing : fault.isMissing = false) : ∃ whole, fault = .divisionByZero whole := by
  cases fault with
  | divisionByZero whole => exact ⟨whole, rfl⟩
  | missingReference => cases hmissing
  | missingRate => cases hmissing
  | _ => cases hlocal

/-- Where the strict pass ends well, the lenient one gives the same, up to a view of it. Where the
strict pass fails other than by a division by zero, the lenient one fails likewise. The warnings are
the same in both cases. -/
structure Pass.Refines {β γ : Type} (view : β → γ) (strict : Pass α β) (lenient : Pass α γ) :
    Prop where
  succeeds {x : β} {warnings : List (Warning α)} : strict.outcome = (.ok x, warnings) →
    lenient.outcome = (.ok (view x), warnings)
  fails {fault : Fault α} {warnings : List (Warning α)} :
    strict.outcome = (.error fault, warnings) → (∀ whole, fault ≠ .divisionByZero whole) →
    lenient.outcome = (.error fault, warnings)

theorem Pass.refines_of_sameOrLocal {β γ : Type} {view : β → γ} {strict : Pass α β}
    {lenient : Pass α γ} (h : SameOrLocal (view <$> strict) lenient)
    (hmisses : strict.MissesNothing) : Pass.Refines view strict lenient := by
  have hview : (view <$> strict).run [] = (strict.outcome.1.map view, strict.outcome.2) := by
    rw [map_eq_pure_bind, run_bind]
    unfold outcome
    rcases ExceptT.run strict [] with ⟨fault | x, warnings⟩ <;> rfl
  have hsame := h []
  rw [hview] at hsame
  constructor
  · intro x warnings hstrict
    rw [hstrict] at hsame
    rcases hsame with hsame | ⟨fault, last, hfault, -⟩
    · exact hsame
    · cases hfault
  · intro fault warnings hstrict hdivision
    rw [hstrict] at hsame
    rcases hsame with hsame | ⟨fault', last, hfault, hlocal⟩
    · exact hsame
    · cases hfault
      have hresult : strict.result = .error fault := congrArg Prod.fst hstrict
      have hmissing := hmisses.isMissing_eq_false (.inl hresult)
      obtain ⟨whole, hwhole⟩ := Fault.eq_divisionByZero hlocal hmissing
      exact absurd hwhole (hdivision whole)

namespace Model

open Plan

variable [Amount α] {m : Model α}

theorem plan_carrying (hcheck : m.check = .ok ()) (b : Bool) :
    (m.carrying b).plan = Plan.of (m.carrying b) :=
  plan_eq_of_check hcheck

theorem of_carrying (m : Model α) (b : Bool) :
    Plan.of (m.carrying b) = (Plan.of m).map (·.carrying b) := by
  unfold Plan.of
  change (m.chart.order >>= _) = (m.chart.order >>= _).map _
  cases m.chart.order <;> rfl

/-- Passes over the plans of the two models are the same if the models have plans at all. -/
theorem sameOrLocal_of (m : Model α) {β : Type} {next next' : Plan α → Pass α β}
    (h : ∀ plan, Plan.of m = .ok plan →
      SameOrLocal (next (plan.carrying false)) (next' (plan.carrying true))) :
    SameOrLocal (liftM (Plan.of (m.carrying false)) >>= next : Pass α β)
      (liftM (Plan.of (m.carrying true)) >>= next') := by
  rw [of_carrying, of_carrying]
  cases hplan : Plan.of m with
  | error fault => exact sameUnless_refl _
  | ok plan => exact h plan hplan

theorem refines_filled (hcheck : m.check = .ok ()) :
    Pass.Refines id (m.carrying false).filled (m.carrying true).filled := by
  refine Pass.refines_of_sameOrLocal ?_ (missesNothing_filled hcheck)
  rw [id_map]
  unfold filled
  rw [plan_carrying hcheck, plan_carrying hcheck]
  exact sameOrLocal_of m fun plan hplan => sameOrLocal_fill (reviewed_of hcheck hplan) m.ledger

theorem refines_settled (hcheck : m.check = .ok ()) :
    Pass.Refines id (m.carrying false).settled (m.carrying true).settled := by
  refine Pass.refines_of_sameOrLocal ?_ (missesNothing_settled hcheck)
  rw [id_map]
  unfold settled
  rw [plan_carrying hcheck, plan_carrying hcheck]
  exact sameOrLocal_of m fun plan _ => sameOrLocal_settleIn _ _ m.ledger

theorem refines_refresh (hcheck : m.check = .ok ()) :
    Pass.Refines (·.carrying true) (m.carrying false).refresh (m.carrying true).refresh := by
  refine Pass.refines_of_sameOrLocal ?_ (missesNothing_refresh hcheck)
  unfold refresh
  rw [plan_carrying hcheck, plan_carrying hcheck, map_bind]
  refine sameOrLocal_of m fun plan hplan => ?_
  simp only [map_bind, map_pure]
  refine (sameOrLocal_fill (reviewed_of hcheck hplan) m.ledger).bind fun ledger => ?_
  exact (sameOrLocal_settleIn _ _ ledger).bind fun ledger => sameUnless_refl _

theorem refines_extend (hcheck : m.check = .ok ()) :
    Pass.Refines (·.carrying true) (m.carrying false).extend (m.carrying true).extend := by
  refine Pass.refines_of_sameOrLocal ?_ (missesNothing_extend hcheck)
  have hcheck' (b : Bool) : (m.carrying b).check = .ok () := hcheck
  have hupcoming (b : Bool) : (m.carrying b).upcomingPeriod = m.upcomingPeriod := rfl
  cases hp : m.upcomingPeriod with
  | error fault =>
      rw [extend_of_error (hcheck' false) ((hupcoming false).trans hp),
        extend_of_error (hcheck' true) ((hupcoming true).trans hp)]
      exact sameUnless_refl _
  | ok p =>
      rw [extend_eq (hcheck' false) ((hupcoming false).trans hp),
        extend_eq (hcheck' true) ((hupcoming true).trans hp)]
      simp only [map_bind, map_pure]
      refine sameOrLocal_of (m.withPeriod p) fun plan hplan => ?_
      have hreviewed := (upcoming_of_upcomingPeriod hp).reviewed hcheck hplan
      have hfill := sameOrLocal_fillPeriod hreviewed (m.addedAt p) p m.ledger
      refine (sameOrLocal_ofComputation hfill).bind fun ledger => ?_
      exact (sameOrLocal_settleIn _ _ ledger).bind fun ledger => sameUnless_refl _

/-- **Carrying values forward changes nothing else.** What a pass over a model comes to with no
value carried forward, it comes to if values may be, with the same ledger and the same warnings. The
same goes for the fault that it ends with, unless that is a division by zero. -/
theorem carrying_refines (hcheck : m.check = .ok ()) :
    Pass.Refines id (m.carrying false).filled (m.carrying true).filled ∧
    Pass.Refines id (m.carrying false).settled (m.carrying true).settled ∧
    Pass.Refines (·.carrying true) (m.carrying false).refresh (m.carrying true).refresh ∧
    Pass.Refines (·.carrying true) (m.carrying false).extend (m.carrying true).extend :=
  ⟨refines_filled hcheck, refines_settled hcheck, refines_refresh hcheck, refines_extend hcheck⟩

theorem carrying_refines_school :
    (school ⟨"first"⟩).check = .ok () ∧ circle.check = .ok () ∧
    (∃ r, ((school ⟨"first"⟩).carrying false).refresh.result = .ok r ∧
      ((school ⟨"first"⟩).carrying true).refresh.result = .ok (r.carrying true)) ∧
    (circle.carrying false).refresh.outcome = (.error (.circular ⟨"burden"⟩), []) ∧
    (circle.carrying true).refresh.outcome = (.error (.circular ⟨"burden"⟩), []) := by
  have hschool : (school ⟨"first"⟩).check = .ok () := rfl
  have hcircle : circle.check = .ok () := rfl
  have hstrict : (circle.carrying false).refresh.outcome =
      (.error (.circular ⟨"burden"⟩), []) := rfl
  have hsuccess : ((school ⟨"first"⟩).carrying false).refresh.result.toOption.isSome = true := by
    decide +kernel
  obtain ⟨r, hr⟩ := exists_eq_ok_of_isSome hsuccess
  have hlenient := (carrying_refines hschool).2.2.1.succeeds (Prod.ext hr rfl)
  exact ⟨hschool, hcircle, ⟨r, hr, congrArg Prod.fst hlenient⟩, hstrict,
    (carrying_refines hcircle).2.2.1.fails hstrict nofun⟩

end Model

end ProForma
