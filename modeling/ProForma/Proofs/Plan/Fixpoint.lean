import ProForma.Proofs.Plan.Sweep

/-!
# Ledgers that are up to date

Filling in leaves a ledger as it is exactly if the ledger satisfies the rules of its accounts. A
ledger that was filled in does, whatever it was filled in from. Settling afterwards may change what
other values were computed from, and then the rules hold no longer. They still hold if it changes no
more than cells that nothing was computed from.
-/

namespace ProForma.Plan

open Chart Formula Ledger

variable {α : Type} [Amount α] {plan : Plan α} {ledger before filled after : Ledger α}
  {position : Nat} {period : Period} {a : Account α} {x : α}

/-! ### Following a rule -/

/-- A value is held or carried for want of a formula, comes from the formula, or is carried because
the formula fails. -/
theorem follows_iff : plan.Follows before filled position period a x ↔
    (plan.chart.formula? (timing period position) a = .ok none ∧
      x = if position = 0 ∨ a.total.isSome then
        (before.value? ⟨a.id, period.id⟩).getD (plan.carried filled a.id position)
        else plan.carried filled a.id position) ∨
    ∃ f, plan.chart.formula? (timing period position) a = .ok (some f) ∧
      (f.value (plan.stored filled) position = .ok x ∨
        ∃ fault, f.value (plan.stored filled) position = .error fault ∧
          plan.isolates fault = true ∧ x = plan.carried filled a.id position) := by
  unfold Follows
  dsimp only
  rcases hf : plan.chart.formula? (timing period position) a with fault | _ | f
  · simp
  · simp
  · rcases hvalue : f.value (plan.stored filled) position with fault | y
    · simp [hvalue, isolates, and_assoc]
    · simp [hvalue, eq_comm (a := x)]

theorem Follows.eq_of_value {f : Formula α} {y : α}
    (h : plan.Follows before filled position period a x)
    (hf : plan.chart.formula? (timing period position) a = .ok (some f))
    (hy : f.value (plan.stored filled) position = .ok y) : x = y := by
  rcases follows_iff.1 h with ⟨hnone, -⟩ | ⟨g, hg, hvalue⟩
  · rw [hnone] at hf
    cases hf
  · rw [hg] at hf
    cases hf
    rcases hvalue with hx | ⟨fault, hfault, -⟩
    · rw [hx] at hy
      exact Except.ok.inj hy
    · rw [hfault] at hy
      cases hy

/-- A line with the value that its rule asks for is settled. -/
theorem Follows.settled (h : plan.Follows before filled position period a x)
    (hcell : filled.cell? ⟨a.id, period.id⟩ = some ⟨x, true⟩) :
    plan.Settled filled { period, position, account := a } := by
  rcases follows_iff.1 h with ⟨hnone, -⟩ | ⟨f, hsome, hx | ⟨fault, hfault, hisolates, -⟩⟩
  · exact settled_of_formula?_eq_none hnone
  · rw [settled_iff_of_formula? hsome]
    dsimp only
    rw [hx]
    exact .inr hcell
  · rw [settled_iff_of_formula? hsome]
    dsimp only
    rw [hfault]
    exact hisolates

/-- A line that should have a value follows its rule if it has it. -/
theorem follows_of_asked {line : Line α} (h : plan.asked ledger line = .ok (some x)) :
    plan.Follows before ledger line.position line.period line.account x := by
  obtain ⟨f, hf, hx⟩ := asked_eq_some_iff.1 h
  exact follows_iff.2 (.inr ⟨f, hf, .inl hx⟩)

/-! ### What a value was computed from -/

/-- The cells that the value of an account at a position was computed from, its own one apart. -/
def sources (plan : Plan α) (ledger : Ledger α) (position : Nat) (period : Period) (a : Account α) :
    List Slot :=
  let previous : Slot := ⟨a.id, position - 1⟩
  match plan.chart.formula? (timing period position) a with
  | .error _ => []
  | .ok none => if position = 0 ∨ a.total.isSome then [] else [previous]
  | .ok (some f) =>
    let reads := f.refs.map fun r => (⟨r.1, position - r.2⟩ : Slot)
    match f.value (plan.stored ledger) position with
    | .ok _ => reads
    | .error _ => previous :: reads

/-- The rule holds in another ledger that has the value and what it was computed from. -/
theorem Follows.transfer (h : plan.Follows before filled position period a x)
    (hcell : after.cell? ⟨a.id, period.id⟩ = some ⟨x, true⟩)
    (hsources : ∀ slot ∈ plan.sources filled position period a,
      plan.stored after slot.account slot.position =
        plan.stored filled slot.account slot.position) :
    plan.Follows after after position period a x := by
  have hheld : after.value? ⟨a.id, period.id⟩ = some x := value?_of_cell? hcell
  have hvalue : ∀ f, plan.chart.formula? (timing period position) a = .ok (some f) →
      (∀ r ∈ f.refs, (⟨r.1, position - r.2⟩ : Slot) ∈ plan.sources filled position period a) →
      f.value (plan.stored after) position = f.value (plan.stored filled) position := by
    intro f hf hreads
    refine eval_congr fun r hr => congrArg pure ?_
    exact hsources _ (hreads r hr)
  rcases follows_iff.1 h with ⟨hnone, hx⟩ | ⟨f, hsome, hx | ⟨fault, hfault, hisolates, hx⟩⟩
  · refine follows_iff.2 (.inl ⟨hnone, ?_⟩)
    split
    · rw [hheld]
      rfl
    · rename_i hcarries
      rw [if_neg hcarries] at hx
      rw [hx]
      refine (hsources ⟨a.id, position - 1⟩ ?_).symm
      simp [sources, hnone, hcarries]
  · have hsame := hvalue f hsome fun r hr => by
      simp only [sources, hsome, hx]
      exact List.mem_map_of_mem hr
    exact follows_iff.2 (.inr ⟨f, hsome, .inl (hsame.trans hx)⟩)
  · have hsame := hvalue f hsome fun r hr => by
      simp only [sources, hsome, hfault]
      exact List.mem_cons_of_mem _ (List.mem_map_of_mem hr)
    refine follows_iff.2 (.inr ⟨f, hsome, .inr ⟨fault, hsame.trans hfault, hisolates, ?_⟩⟩)
    rw [hx]
    refine (hsources ⟨a.id, position - 1⟩ ?_).symm
    simp [sources, hsome, hfault]

/-! ### Filling in once more -/

/-- In a period in which every account follows its rule, what it comes to afresh is what it has. -/
theorem afresh_of_follows (hplan : plan.Reviewed) (hperiod : plan.timeline[position]? = some period)
    (h : ∀ a ∈ plan.chart.accounts, ledger.isEntered ⟨a.id, period.id⟩ = false →
      plan.Follows ledger ledger position period a (ledger.value ⟨a.id, period.id⟩))
    (id : AccountId) :
    plan.afresh ledger position period id = .ok (ledger.value ⟨id, period.id⟩) := by
  -- By rank: a formula reads accounts of lower rank, which come to what the ledger has for them.
  have hrank : ∀ depth ref, rank plan.order ref < depth →
      plan.afresh ledger position period ref = .ok (ledger.value ⟨ref, period.id⟩) := by
    intro depth
    induction depth with
    | zero =>
        intro ref hdepth
        omega
    | succ depth ih =>
        intro ref hdepth
        rw [afresh_eq hplan]
        rcases hplan.derive_cases ledger position period ref with
          hkept | ⟨a, ha, hentered, hf | ⟨f, hf⟩⟩
        · rw [derive_eq_value hkept]
          rfl
        · obtain ⟨hmem, rfl⟩ := mem_of_account? ha
          rw [derive_eq_held ha hentered hf]
          rcases follows_iff.1 (h a hmem hentered) with ⟨-, hx⟩ | ⟨f, hsome, -⟩
          · exact congrArg Except.ok hx.symm
          · rw [hf] at hsome
            cases hsome
        · obtain ⟨hmem, rfl⟩ := mem_of_account? ha
          have hread : ∀ below, (below, 0) ∈ f.refs →
              plan.afresh ledger position period below =
                .ok (plan.stored ledger below position) := by
            intro below hbelow
            have hlt := rank_lt_of_mem_refs hplan.order ha hf hbelow
            rw [stored_of_getElem? hperiod]
            exact ih below (by omega)
          rw [derive_eq_eval ha hentered hf, eval_eq_value hread fun _ _ _ => rfl]
          rcases follows_iff.1 (h a hmem hentered) with ⟨hnone, -⟩ | ⟨g, hg, hvalue⟩
          · rw [hf] at hnone
            cases hnone
          · rw [hf] at hg
            cases hg
            rcases hvalue with hx | ⟨fault, hfault, hisolates, hx⟩
            · rw [hx]
              rfl
            · rw [hfault, orBefore, if_pos hisolates, hx]
  exact hrank _ id (Nat.lt_succ_self _)

theorem fillPeriodAfresh_eq_self (hplan : plan.Reviewed)
    (hperiod : plan.timeline[position]? = some period)
    (h : ∀ a ∈ plan.chart.accounts, ledger.isEntered ⟨a.id, period.id⟩ = false →
      ∃ x, ledger.cell? ⟨a.id, period.id⟩ = some ⟨x, true⟩ ∧
        plan.Follows ledger ledger position period a x) :
    plan.fillPeriodAfresh position period ledger = .ok ledger := by
  have hafresh := afresh_of_follows hplan hperiod fun a ha hentered => by
    obtain ⟨x, hcell, hfollows⟩ := h a ha hentered
    rwa [value_of_cell? hcell]
  refine foldlM_eq_self fun id hid => ?_
  unfold fillCellAfresh
  split
  · rfl
  · rename_i hentered
    obtain ⟨a, ha⟩ := hplan.exists_account? hid
    obtain ⟨hmem, rfl⟩ := mem_of_account? ha
    obtain ⟨x, hcell, -⟩ := h a hmem (by simpa using hentered)
    rw [hafresh a.id, value_of_cell? hcell]
    exact congrArg Except.ok (derive_eq_self_iff.2 hcell)

theorem fillPeriodsAfresh_eq_self (hplan : plan.Reviewed) {periods : List (Period × Nat)}
    (hperiods : ∀ entry ∈ periods, plan.timeline[entry.2]? = some entry.1)
    (h : ∀ entry ∈ periods, entry.1.isImported = false → ∀ a ∈ plan.chart.accounts,
      ledger.isEntered ⟨a.id, entry.1.id⟩ = false →
      ∃ x, ledger.cell? ⟨a.id, entry.1.id⟩ = some ⟨x, true⟩ ∧
        plan.Follows ledger ledger entry.2 entry.1 a x) :
    plan.fillPeriodsAfresh periods ledger = .ok ledger := by
  refine foldlM_eq_self fun entry hentry => ?_
  dsimp only
  split
  · rfl
  · rename_i himported
    exact fillPeriodAfresh_eq_self hplan (hperiods entry hentry)
      (h entry hentry (by simpa using himported))

theorem fillAfresh_eq_self (hplan : plan.Reviewed)
    (h : ∀ {position : Nat} {period : Period}, plan.timeline[position]? = some period →
      period.isImported = false → ∀ a ∈ plan.chart.accounts,
      ledger.isEntered ⟨a.id, period.id⟩ = false →
      ∃ x, ledger.cell? ⟨a.id, period.id⟩ = some ⟨x, true⟩ ∧
        plan.Follows ledger ledger position period a x) : plan.fillAfresh ledger = .ok ledger :=
  have hperiods := plan.places_zipIdx.timeline
  fillPeriodsAfresh_eq_self hplan hperiods fun entry hentry => h (hperiods entry hentry)

/-- Filling in computes values where none was entered, and none that count as entered. -/
theorem isEntered_fillAfresh (hplan : plan.Reviewed) (hfill : plan.fillAfresh ledger = .ok filled)
    (hperiod : plan.timeline[position]? = some period) (himported : period.isImported = false)
    (ha : a ∈ plan.chart.accounts) :
    filled.isEntered ⟨a.id, period.id⟩ = ledger.isEntered ⟨a.id, period.id⟩ := by
  cases hentered : ledger.isEntered ⟨a.id, period.id⟩ with
  | true =>
      rw [isEntered_congr (cell?_fillAfresh_of_isEntered hplan hfill hperiod himported hentered),
        hentered]
  | false =>
      obtain ⟨x, hcell, -⟩ := exists_follows_of_fillAfresh hplan hfill hperiod himported ha hentered
      exact isEntered_of_cell? hcell

/-- What filling in gives needs no more filling in. -/
theorem fillAfresh_fillAfresh (hplan : plan.Reviewed)
    (hfill : plan.fillAfresh ledger = .ok filled) : plan.fillAfresh filled = .ok filled := by
  refine fillAfresh_eq_self hplan fun hperiod himported a ha hopen => ?_
  rw [isEntered_fillAfresh hplan hfill hperiod himported ha] at hopen
  obtain ⟨x, hcell, hfollows⟩ := exists_follows_of_fillAfresh hplan hfill hperiod himported ha hopen
  exact ⟨x, hcell, hfollows.transfer hcell fun _ _ => rfl⟩

/-! ### Settling what was filled in -/

/-- Settling leaves a filled ledger as it is if it leaves the lines that filling in leaves. -/
theorem settle_fillAfresh (hplan : plan.Reviewed) (hfill : plan.fillAfresh ledger = .ok filled)
    (hsettle : (plan.settle filled).result = .ok after)
    (hkept : ∀ line ∈ plan.lines plan.timeline.zipIdx,
      line.period.isImported = true ∨ ledger.isEntered line.key = true →
        after.cell? line.key = filled.cell? line.key) : after = filled := by
  have hplaces := plan.places_zipIdx
  have hstands : ∀ line ∈ plan.lines plan.timeline.zipIdx, plan.Stands line := fun line hline =>
    stands_of_mem_lines hplaces hline
  rcases settle_eq_ok hplan hsettle with hsame | hlines
  · exact hsame
  · refine settleLines_eq_start hplan hstands (pairwise_lines hplan hplaces) hlines ?_
    intro line hline
    by_cases hleft : line.period.isImported = true ∨ ledger.isEntered line.key = true
    · exact .inr (hkept line hline hleft)
    · -- Filling in has computed the line, by the formula by which settling would compute it.
      obtain ⟨himported, hentered⟩ :
          line.period.isImported = false ∧ ledger.isEntered line.key = false := by
        simpa using hleft
      obtain ⟨hperiod, haccount⟩ := hstands line hline
      obtain ⟨x, hcell, hfollows⟩ := exists_follows_of_fillAfresh hplan hfill hperiod himported
        (mem_of_account? haccount).1 hentered
      exact .inl (hfollows.settled hcell)

/-- Whatever a computed value of a forecast period was computed from is still there, unless the
value itself has been replaced. -/
def Undisturbed (plan : Plan α) (filled after : Ledger α) : Prop :=
  ∀ entry ∈ plan.timeline.zipIdx, entry.1.isImported = false → ∀ a ∈ plan.chart.accounts,
    filled.isEntered ⟨a.id, entry.1.id⟩ = false →
    after.cell? ⟨a.id, entry.1.id⟩ = filled.cell? ⟨a.id, entry.1.id⟩ →
    ∀ slot ∈ plan.sources filled entry.2 entry.1 a,
      plan.stored after slot.account slot.position = plan.stored filled slot.account slot.position

instance [DecidableEq α] (plan : Plan α) (filled after : Ledger α) :
    Decidable (plan.Undisturbed filled after) :=
  inferInstanceAs (Decidable (∀ entry ∈ plan.timeline.zipIdx, entry.1.isImported = false →
    ∀ a ∈ plan.chart.accounts, filled.isEntered ⟨a.id, entry.1.id⟩ = false →
    after.cell? ⟨a.id, entry.1.id⟩ = filled.cell? ⟨a.id, entry.1.id⟩ →
    ∀ slot ∈ plan.sources filled entry.2 entry.1 a,
      plan.stored after slot.account slot.position = plan.stored filled slot.account slot.position))

/-- What settling has changed follows its rule afterwards. -/
theorem exists_follows_of_settle (hplan : plan.Reviewed)
    (hsettle : (plan.settle filled).result = .ok after)
    (hperiod : plan.timeline[position]? = some period) (ha : a ∈ plan.chart.accounts)
    (hchanged : after.cell? ⟨a.id, period.id⟩ ≠ filled.cell? ⟨a.id, period.id⟩) :
    ∃ x, after.cell? ⟨a.id, period.id⟩ = some ⟨x, true⟩ ∧
      plan.Follows after after position period a x := by
  rcases settle_eq_ok hplan hsettle with rfl | hlines
  · exact absurd rfl hchanged
  · have hplaces := plan.places_zipIdx
    obtain ⟨line, hline, hkey, x, hasked, hcell⟩ := exists_asked_of_settleLines hplan
      (fun line hline => stands_of_mem_lines hplaces hline) (pairwise_lines hplan hplaces) hlines
      hchanged
    have hstands : plan.Stands ⟨period, position, a⟩ := ⟨hperiod, hplan.account a ha⟩
    obtain rfl := hplan.line_eq (stands_of_mem_lines hplaces hline) hstands hkey
    exact ⟨x, hcell, follows_of_asked hasked⟩

/-- A ledger that was filled in and settled needs no more filling in, unless values have lost what
they were computed from. -/
theorem fillAfresh_of_undisturbed (hplan : plan.Reviewed)
    (hfill : plan.fillAfresh ledger = .ok filled)
    (hsettle : (plan.settle filled).result = .ok after) (h : plan.Undisturbed filled after) :
    plan.fillAfresh after = .ok after := by
  refine fillAfresh_eq_self hplan fun {position period} hperiod himported a ha hopen => ?_
  by_cases hsame : after.cell? ⟨a.id, period.id⟩ = filled.cell? ⟨a.id, period.id⟩
  · have hopenFilled : filled.isEntered ⟨a.id, period.id⟩ = false := by
      rw [← isEntered_congr hsame, hopen]
    have hopenBefore : ledger.isEntered ⟨a.id, period.id⟩ = false := by
      rw [← isEntered_fillAfresh hplan hfill hperiod himported ha, hopenFilled]
    obtain ⟨x, hcell, hfollows⟩ :=
      exists_follows_of_fillAfresh hplan hfill hperiod himported ha hopenBefore
    have hentry : (period, position) ∈ plan.timeline.zipIdx :=
      List.mem_zipIdx_iff_getElem?.2 hperiod
    exact ⟨x, hsame.trans hcell, hfollows.transfer (hsame.trans hcell)
      (h (period, position) hentry himported a ha hopenFilled hsame)⟩
  · exact exists_follows_of_settle hplan hsettle hperiod ha hsame

end ProForma.Plan
