import ProForma.Proofs.Amount
import ProForma.Proofs.Formula.Scaling
import ProForma.Proofs.Increment
import ProForma.Proofs.Reconciliation

/-!
# Another currency unit

Nothing about a model but its values has a unit. If all values are taken `k` times, then every pass
over the model and every reconciliation comes to `k` times what it came to, or fails as it did: this
holds of single formulas, of the cells that they are computed for, of the periods that are filled in
and of the lines that are settled.
-/

namespace ProForma

/-! ### Ledgers -/

def Cell.scaled (k : ℚ) (cell : Cell ℚ) : Cell ℚ :=
  { cell with value := k * cell.value }

namespace Ledger

variable {k : ℚ} {ledger : Ledger ℚ} {key : CellKey}

/-- The ledger with all values taken `k` times. -/
def scaled (k : ℚ) (ledger : Ledger ℚ) : Ledger ℚ where
  entries := ledger.entries.map fun entry => (entry.1, entry.2.scaled k)
  sorted := List.pairwise_map.2 ledger.sorted

@[simp]
theorem cell?_scaled (k : ℚ) (ledger : Ledger ℚ) (key : CellKey) :
    (ledger.scaled k).cell? key = (ledger.cell? key).map (Cell.scaled k) := by
  change (ledger.entries.map fun entry => (entry.1, entry.2.scaled k)).lookup key =
    (ledger.entries.lookup key).map (Cell.scaled k)
  generalize ledger.entries = entries
  induction entries with
  | nil => rfl
  | cons entry entries ih =>
      obtain ⟨other, held⟩ := entry
      rw [List.map_cons, lookup_cons_eq_ite, lookup_cons_eq_ite, ih]
      split <;> rfl

theorem value?_scaled (k : ℚ) (ledger : Ledger ℚ) (key : CellKey) :
    (ledger.scaled k).value? key = (ledger.value? key).map (k * ·) := by
  rw [value?, value?, cell?_scaled, Option.map_map, Option.map_map]
  rfl

/-- A cell that is not there counts as zero in every unit. -/
theorem value_scaled (k : ℚ) (ledger : Ledger ℚ) (key : CellKey) :
    (ledger.scaled k).value key = k * ledger.value key := by
  rw [value, value, value?_scaled]
  cases ledger.value? key with
  | none => exact (mul_zero k).symm
  | some x => rfl

theorem isEntered_scaled (k : ℚ) (ledger : Ledger ℚ) (key : CellKey) :
    (ledger.scaled k).isEntered key = ledger.isEntered key := by
  rw [isEntered, isEntered, cell?_scaled, Option.any_map]
  rfl

theorem derive_scaled (k : ℚ) (ledger : Ledger ℚ) (key : CellKey) (x : ℚ) :
    (ledger.scaled k).derive key (k * x) = (ledger.derive key x).scaled k := by
  ext other : 1
  rw [cell?_scaled, cell?_derive, cell?_derive, cell?_scaled]
  split <;> rfl

end Ledger

/-! ### Passes -/

namespace Plan

open Ledger

variable {k : ℚ} {plan : Plan ℚ} {ledger : Ledger ℚ} {position : Nat} {period : Period}

theorem stored_scaled (plan : Plan ℚ) (k : ℚ) (ledger : Ledger ℚ) (account : AccountId) (t : Int) :
    plan.stored (ledger.scaled k) account t = k * plan.stored ledger account t := by
  unfold stored
  split
  · exact value_scaled k ledger _
  · exact (mul_zero k).symm

theorem held_scaled (plan : Plan ℚ) (k : ℚ) (ledger : Ledger ℚ) (position : Nat) (period : Period)
    (a : Account ℚ) :
    plan.held (ledger.scaled k) position period a = k * plan.held ledger position period a := by
  unfold held carried
  rw [stored_scaled, value?_scaled]
  dsimp only
  split
  · cases ledger.value? ⟨a.id, period.id⟩ with
    | none => rfl
    | some x => rfl
  · rfl

/-- All accounts of the plan combine terms by addition and subtraction. -/
def IsAdditive (plan : Plan ℚ) : Prop :=
  ∀ a ∈ plan.chart.accounts, a.IsAdditive

theorem derive_scaled (hk : k ≠ 0) (hplan : plan.IsAdditive)
    {read read' : AccountId → Except (Fault ℚ) ℚ}
    (hread : ∀ ref, read' ref = (read ref).map (k * ·)) (id : AccountId) :
    plan.derive (ledger.scaled k) position period read' id =
      (plan.derive ledger position period read id).map (k * ·) := by
  unfold derive
  cases ha : plan.chart.account? id with
  | none => exact congrArg Except.ok (value_scaled k ledger _)
  | some a =>
      dsimp only
      rw [isEntered_scaled]
      split
      · exact congrArg Except.ok (value_scaled k ledger _)
      · cases hf : plan.chart.formula? (timing period position) a with
        | error fault => rfl
        | ok f? =>
            cases f? with
            | none => exact congrArg Except.ok (plan.held_scaled k ledger position period a)
            | some f =>
                have hadditive := hplan a (Chart.mem_of_account? ha).1
                refine Chart.scales_formula? hk hadditive hf _ _ position fun account t => ?_
                split
                · exact hread account
                · exact congrArg Except.ok (plan.stored_scaled k ledger account t)

theorem orBefore_scaled (plan : Plan ℚ) (k : ℚ) (ledger : Ledger ℚ) (position : Nat)
    (id : AccountId) (outcome : Except (Fault ℚ) ℚ) :
    plan.orBefore (ledger.scaled k) position id (outcome.map (k * ·)) =
      (plan.orBefore ledger position id outcome).map (k * ·) := by
  rcases outcome with fault | x
  · change plan.orBefore _ _ _ (.error fault) = _
    unfold orBefore carried
    rw [stored_scaled]
    dsimp only
    split <;> rfl
  · rfl

theorem afreshWithin_scaled (hk : k ≠ 0) (hplan : plan.IsAdditive) (depth : Nat) (id : AccountId) :
    plan.afreshWithin (ledger.scaled k) position period depth id =
      (plan.afreshWithin ledger position period depth id).map (k * ·) := by
  induction depth generalizing id with
  | zero => rfl
  | succ depth ih =>
      unfold afreshWithin
      rw [derive_scaled hk hplan ih, orBefore_scaled]

theorem fillCellAfresh_scaled (hk : k ≠ 0) (hplan : plan.IsAdditive) (id : AccountId) :
    plan.fillCellAfresh position period (ledger.scaled k) id =
      (plan.fillCellAfresh position period ledger id).map (scaled k) := by
  unfold fillCellAfresh afresh
  rw [isEntered_scaled, afreshWithin_scaled hk hplan]
  split
  · rfl
  · rcases plan.afreshWithin ledger position period (plan.chart.accounts.length + 1) id with
      fault | x
    · rfl
    · exact congrArg Except.ok (Ledger.derive_scaled k ledger ⟨id, period.id⟩ x)

theorem fillPeriodAfresh_scaled (hk : k ≠ 0) (hplan : plan.IsAdditive) (ledger : Ledger ℚ) :
    plan.fillPeriodAfresh position period (ledger.scaled k) =
      (plan.fillPeriodAfresh position period ledger).map (scaled k) :=
  foldlM_view (fun _ _ _ => fillCellAfresh_scaled hk hplan _) ledger

theorem fillAfresh_scaled (hk : k ≠ 0) (hplan : plan.IsAdditive) (ledger : Ledger ℚ) :
    plan.fillAfresh (ledger.scaled k) = (plan.fillAfresh ledger).map (scaled k) := by
  unfold fillAfresh fillPeriodsAfresh
  refine foldlM_view (fun current entry _ => ?_) ledger
  dsimp only
  split
  · rfl
  · exact fillPeriodAfresh_scaled hk hplan current

/-! ### Settling -/

theorem target_scaled (hk : k ≠ 0) (hplan : plan.IsAdditive) {a : Account ℚ}
    (ha : a ∈ plan.chart.accounts) :
    plan.target (ledger.scaled k) position period a =
      (plan.target ledger position period a).map (Option.map (k * ·)) := by
  unfold target
  cases hf : plan.chart.formula? (timing period position) a with
  | error fault => rfl
  | ok f? =>
      cases f? with
      | none => rfl
      | some f =>
          have hvalue : f.value (plan.stored (ledger.scaled k)) position =
              (f.value (plan.stored ledger) position).map (k * ·) :=
            Chart.scales_formula? hk (hplan a ha) hf _ _ position fun account t =>
              congrArg Except.ok (plan.stored_scaled k ledger account t)
          change (f.value (plan.stored (ledger.scaled k)) position >>= fun x => pure (some x)) =
            (f.value (plan.stored ledger) position >>= fun x => pure (some x)).map _
          rw [hvalue]
          cases f.value (plan.stored ledger) position with
          | error fault => rfl
          | ok x => rfl

/-- Amounts that differ do so in every unit. -/
theorem agrees_scaled (hk : k ≠ 0) (ledger : Ledger ℚ) (key : CellKey) (x : ℚ) :
    agrees (ledger.scaled k) key (k * x) = agrees ledger key x := by
  unfold agrees
  rw [cell?_scaled, Option.any_map]
  cases ledger.cell? key with
  | none => rfl
  | some cell =>
      change (k * cell.value == k * x && cell.isCalculated) = _
      congr 1
      rw [Bool.eq_iff_iff, beq_iff_eq, beq_iff_eq, mul_right_inj' hk]

/-- The ledger of a state of settling in another unit. -/
def scaledState (k : ℚ) (state : Ledger ℚ × Bool) : Ledger ℚ × Bool :=
  (state.1.scaled k, state.2)

theorem settleCell_scaled (hk : k ≠ 0) (hplan : plan.IsAdditive) {a : Account ℚ}
    (ha : a ∈ plan.chart.accounts) (state : Ledger ℚ × Bool) :
    plan.settleCell position period (scaledState k state) a =
      scaledState k <$> plan.settleCell position period state a := by
  obtain ⟨ledger, changed⟩ := state
  unfold settleCell
  simp only [scaledState, target_scaled hk hplan ha]
  rcases plan.target ledger position period a with fault | _ | x
  · simp only [Except.map]
    split
    · rw [map_bind]
      exact bind_congr fun _ => (map_pure (scaledState k) (ledger, changed)).symm
    · rfl
  · exact (map_pure (scaledState k) (ledger, changed)).symm
  · simp only [Except.map, Option.map, agrees_scaled hk, Ledger.derive_scaled, map_pure]
    split <;> rfl

theorem sweep_scaled (hk : k ≠ 0) (hplan : plan.IsAdditive) (periods : List (Period × Nat))
    (ledger : Ledger ℚ) :
    plan.sweep periods (ledger.scaled k) = scaledState k <$> plan.sweep periods ledger := by
  unfold sweep
  change List.foldlM _ (scaledState k (ledger, false)) periods = _
  refine foldlM_view (fun state entry _ => ?_) (ledger, false)
  refine foldlM_view (fun state a ha => ?_) state
  have ha := (Chart.mem_of_account? (account?_of_mem_derivedLines ha)).1
  exact settleCell_scaled hk hplan ha state

theorem settleIn_scaled (hk : k ≠ 0) (hplan : plan.IsAdditive) (periods : List (Period × Nat))
    (passes : Nat) (ledger : Ledger ℚ) :
    plan.settleIn periods passes (ledger.scaled k) =
      scaled k <$> plan.settleIn periods passes ledger := by
  induction passes generalizing ledger with
  | zero =>
      unfold settleIn
      rw [map_bind]
      exact bind_congr fun _ => (map_pure _ ledger).symm
  | succ passes ih =>
      unfold settleIn
      rw [sweep_scaled hk hplan, bind_map_left, map_bind]
      refine bind_congr fun state => ?_
      obtain ⟨next, changed⟩ := state
      cases changed with
      | false => exact (map_pure _ next).symm
      | true => exact ih next

theorem result_settle_scaled (hk : k ≠ 0) (hplan : plan.IsAdditive) (ledger : Ledger ℚ) :
    (plan.settle (ledger.scaled k)).result = (plan.settle ledger).result.map (scaled k) := by
  unfold settle
  rw [settleIn_scaled hk hplan, map_eq_pure_bind, Pass.result, Pass.outcome, run_bind,
    Pass.result, Pass.outcome]
  rcases (plan.settleIn plan.timeline.zipIdx plan.settings.passes ledger).run [] with
    ⟨fault | settled, warnings⟩
  · rfl
  · rfl

end Plan

/-! ### Reconciliations -/

namespace Reconciliation

def scaled (k : ℚ) (r : Reconciliation ℚ) : Reconciliation ℚ where
  period := r.period
  beginning := k * r.beginning
  contributions := r.contributions.map fun c => { c with amount := k * c.amount }

theorem change_scaled (k : ℚ) (r : Reconciliation ℚ) : (r.scaled k).change = k * r.change := by
  unfold change scaled
  rw [Amount.total_eq_sum, Amount.total_eq_sum, List.map_map, ← List.sum_map_mul_left]
  rfl

theorem ending_scaled (k : ℚ) (r : Reconciliation ℚ) : (r.scaled k).ending = k * r.ending := by
  unfold ending
  rw [change_scaled, mul_add]
  rfl

variable {k : ℚ} {chart : Chart ℚ} {current current' previous previous' : AccountId → ℚ}

theorem profits_scaled (hcurrent : ∀ id, current' id = k * current id) :
    profits chart current' =
      (profits chart current).map fun c => { c with amount := k * c.amount } := by
  unfold profits
  simp only [List.map_map, hcurrent]
  rfl

theorem adjustments_scaled (hcurrent : ∀ id, current' id = k * current id) :
    adjustments chart current' =
      (adjustments chart current).map fun c => { c with amount := k * c.amount } := by
  unfold adjustments
  rw [List.map_filterMap]
  congr 1
  ext entry : 1
  simp only [Option.map_map, hcurrent, Function.comp_def, mul_left_comm k]

theorem changes_scaled (hcurrent : ∀ id, current' id = k * current id)
    (hprevious : ∀ id, previous' id = k * previous id) :
    changes chart current' previous' =
      (changes chart current previous).map fun c => { c with amount := k * c.amount } := by
  unfold changes
  rw [List.map_filterMap]
  congr 1
  ext a : 1
  simp only [Option.map_map, hcurrent, hprevious, Function.comp_def, ← mul_sub, mul_left_comm k]

/-- The reconciliation of a period between the values of accounts in it and, if there is one, in the
period before. -/
def between (chart : Chart ℚ) (period : PeriodId) (cash : AccountId) (current : AccountId → ℚ)
    (previous : Option (AccountId → ℚ)) : Reconciliation ℚ where
  period := period
  beginning := previous.elim 0 (· cash)
  contributions :=
    profits chart current ++ adjustments chart current ++ previous.elim [] (changes chart current)

theorem between_scaled (k : ℚ) (chart : Chart ℚ) (period : PeriodId) (cash : AccountId)
    (current : AccountId → ℚ) (previous : Option (AccountId → ℚ)) :
    between chart period cash (k * current ·) (previous.map fun amount => (k * amount ·)) =
      (between chart period cash current previous).scaled k := by
  unfold between scaled
  rw [List.map_append, List.map_append, ← profits_scaled fun _ => rfl,
    ← adjustments_scaled fun _ => rfl]
  cases previous with
  | none =>
      simp only [Option.map_none, Option.elim_none, mul_zero, List.map_nil]
  | some amount =>
      simp only [Option.map_some, Option.elim_some]
      rw [← changes_scaled (fun _ => rfl) fun _ => rfl]

end Reconciliation

/-! ### Models -/

namespace Model

variable {m : Model ℚ} {k : ℚ}

/-- The model with all values taken `k` times. -/
def scaled (k : ℚ) (m : Model ℚ) : Model ℚ :=
  { m with ledger := m.ledger.scaled k }

theorem check_scaled (k : ℚ) (m : Model ℚ) : (m.scaled k).check = m.check := by
  have hfaults : (m.scaled k).faults = m.faults := by
    unfold faults
    congr 1
    exact List.flatMap_map ..
  unfold check
  rw [hfaults]

theorem isAdditive_of {plan : Plan ℚ} (hadditive : ∀ a ∈ m.accounts, a.IsAdditive)
    (hplan : Plan.of m = .ok plan) : plan.IsAdditive := by
  unfold Plan.IsAdditive
  rw [(Plan.of_eq_ok_iff.1 hplan).2.1]
  exact hadditive

theorem refresh_scaled (hk : k ≠ 0) (hadditive : ∀ a ∈ m.accounts, a.IsAdditive) :
    (m.scaled k).refresh.result = m.refresh.result.map (scaled k) := by
  rw [result_refresh_eq_bind, result_refresh_eq_bind, check_scaled]
  rcases m.check with fault | _
  · rfl
  · change (Plan.of m >>= fun plan => plan.fillAfresh (m.ledger.scaled k) >>= fun filled =>
        (plan.settle filled).result >>= fun ledger => pure { m with ledger }) =
      (Plan.of m >>= fun plan => plan.fillAfresh m.ledger >>= fun filled =>
        (plan.settle filled).result >>= fun ledger => pure { m with ledger }).map (scaled k)
    rcases hplan : Plan.of m with fault | plan
    · rfl
    · have hadditive := isAdditive_of hadditive hplan
      change (plan.fillAfresh (m.ledger.scaled k) >>= _) = (plan.fillAfresh m.ledger >>= _).map _
      rw [Plan.fillAfresh_scaled hk hadditive]
      rcases plan.fillAfresh m.ledger with fault | filled
      · rfl
      · change ((plan.settle (filled.scaled k)).result >>= _) =
          ((plan.settle filled).result >>= _).map _
        rw [Plan.result_settle_scaled hk hadditive]
        rcases (plan.settle filled).result with fault | settled
        · rfl
        · rfl

theorem extend_scaled (hk : k ≠ 0) (hadditive : ∀ a ∈ m.accounts, a.IsAdditive) :
    (m.scaled k).extend.result = m.extend.result.map (scaled k) := by
  rw [result_extend_eq_bind, result_extend_eq_bind, check_scaled]
  rcases m.check with fault | _
  · rfl
  · change (m.upcomingPeriod >>= fun p => Plan.of (m.withPeriod p) >>= fun plan =>
        plan.fillPeriodAfresh (m.addedAt p) p (m.ledger.scaled k) >>= fun ledger =>
          pure { m.withPeriod p with ledger }) =
      (m.upcomingPeriod >>= fun p => Plan.of (m.withPeriod p) >>= fun plan =>
        plan.fillPeriodAfresh (m.addedAt p) p m.ledger >>= fun ledger =>
          pure { m.withPeriod p with ledger }).map (scaled k)
    rcases m.upcomingPeriod with fault | p
    · rfl
    · change (Plan.of (m.withPeriod p) >>= _) = (Plan.of (m.withPeriod p) >>= _).map _
      rcases hplan : Plan.of (m.withPeriod p) with fault | plan
      · rfl
      · have hadditive := isAdditive_of (m := m.withPeriod p) hadditive hplan
        change (plan.fillPeriodAfresh (m.addedAt p) p (m.ledger.scaled k) >>= _) =
          (plan.fillPeriodAfresh (m.addedAt p) p m.ledger >>= _).map _
        rw [Plan.fillPeriodAfresh_scaled hk hadditive]
        rcases plan.fillPeriodAfresh (m.addedAt p) p m.ledger with fault | filled
        · rfl
        · rfl

theorem reconciliation_scaled (k : ℚ) (m : Model ℚ) (id : PeriodId) :
    Reconciliation.of (m.scaled k) id =
      (Reconciliation.of m id).map (Reconciliation.scaled k) := by
  unfold Reconciliation.of
  change (m.period id >>= _) = (m.period id >>= _).map _
  rcases m.period id with fault | period
  · rfl
  · change (m.chart.key .cashTotal >>= _) = (m.chart.key .cashTotal >>= _).map _
    rcases m.chart.key .cashTotal with fault | cash
    · rfl
    · have hvalues : (fun (p : Period) account => (m.ledger.scaled k).value ⟨account, p.id⟩) =
          fun p account => k * m.ledger.value ⟨account, p.id⟩ := by
        funext p account
        exact Ledger.value_scaled k m.ledger ⟨account, p.id⟩
      have hprevious : (m.periodBefore? id).map
            (fun p account => k * m.ledger.value ⟨account, p.id⟩) =
          ((m.periodBefore? id).map fun p account => m.ledger.value ⟨account, p.id⟩).map
            fun amount account => k * amount account := by
        rw [Option.map_map]
        rfl
      apply congrArg Except.ok
      change Reconciliation.between m.chart period.id cash.id
          ((fun p account => (m.ledger.scaled k).value ⟨account, p.id⟩) period)
          ((m.periodBefore? id).map fun p account => (m.ledger.scaled k).value ⟨account, p.id⟩) =
        (Reconciliation.between m.chart period.id cash.id
          (fun account => m.ledger.value ⟨account, period.id⟩)
          ((m.periodBefore? id).map fun p account => m.ledger.value ⟨account, p.id⟩)).scaled k
      rw [hvalues, hprevious, ← Reconciliation.between_scaled]

/-- **Another currency unit.** If terms are combined by addition and subtraction, and all values of
the model are taken `k` times, then the model passes review as before, a refresh and an added period
succeed or fail as they did and have `k` times the value in every cell, and a reconciliation has
`k` times each of its amounts. -/
theorem homogeneous (hk : k ≠ 0) (hadditive : ∀ a ∈ m.accounts, a.IsAdditive) :
    (m.scaled k).check = m.check ∧
    (m.scaled k).refresh.result = m.refresh.result.map (scaled k) ∧
    (m.scaled k).extend.result = m.extend.result.map (scaled k) ∧
    ∀ id, Reconciliation.of (m.scaled k) id =
        (Reconciliation.of m id).map (Reconciliation.scaled k) ∧
      ∀ r, Reconciliation.of m id = .ok r →
        (r.scaled k).change = k * r.change ∧ (r.scaled k).ending = k * r.ending := by
  refine ⟨check_scaled k m, refresh_scaled hk hadditive, extend_scaled hk hadditive, fun id => ?_⟩
  exact ⟨reconciliation_scaled k m id, fun r _ => ⟨r.change_scaled k, r.ending_scaled k⟩⟩

/-- A kiosk whose wages grow as its sales do. The tips would grow with the visits, which nobody has
counted, so they are carried forward. -/
def kiosk : Model ℚ where
  name := "Kiosk"
  accounts := [
    { (Account.flow ⟨"sales"⟩ "Sales" : Account ℚ) with parameter := .growthRate (1 / 10) },
    { (Account.flow ⟨"wages"⟩ "Wages" : Account ℚ) with parameter := .proportionate ⟨"sales"⟩ },
    { (Account.flow ⟨"tips"⟩ "Tips" : Account ℚ) with parameter := .proportionate ⟨"visits"⟩ },
    .flow ⟨"visits"⟩ "Visits",
    { (Account.flow ⟨"till"⟩ "Till" : Account ℚ) with
      key := some .cashTotal
      parameter := .calculation [.to ⟨"sales"⟩, ⟨⟨"wages"⟩, .sub, 0⟩, .to ⟨"tips"⟩] }]
  periods := [.imported ⟨"2024"⟩ 2024, .plain ⟨"2025"⟩ 2025]
  ledger :=
    ((Ledger.empty.insert ⟨⟨"sales"⟩, ⟨"2024"⟩⟩ ⟨200, false⟩).insert ⟨⟨"wages"⟩, ⟨"2024"⟩⟩
      ⟨80, false⟩).insert ⟨⟨"tips"⟩, ⟨"2024"⟩⟩ ⟨5, false⟩
  settings := { passes := 16, tolerance := 0, carriesForward := true }

def kioskPlan : Plan ℚ where
  chart := kiosk.chart
  timeline := kiosk.periods
  settings := kiosk.settings
  order := [⟨"sales"⟩, ⟨"wages"⟩, ⟨"visits"⟩, ⟨"tips"⟩, ⟨"till"⟩]

def kioskLedger : Ledger ℚ :=
  ((((kiosk.ledger.derive ⟨⟨"sales"⟩, ⟨"2025"⟩⟩ 220).derive ⟨⟨"wages"⟩, ⟨"2025"⟩⟩ 88).derive
    ⟨⟨"tips"⟩, ⟨"2025"⟩⟩ 5).derive ⟨⟨"visits"⟩, ⟨"2025"⟩⟩ 0).derive ⟨⟨"till"⟩, ⟨"2025"⟩⟩ 137

theorem isAdditive_kiosk : ∀ a ∈ kiosk.accounts, a.IsAdditive := by
  intro a ha
  refine ⟨?_, ?_⟩
  · revert a
    unfold Operation.IsAdditive
    decide +kernel
  · intro terms hterms
    have hnone : ∀ a ∈ kiosk.accounts, a.total = none := by decide +kernel
    rw [hnone a ha] at hterms
    cases hterms

/-- In cents, the kiosk has a hundred times what it has in dollars. -/
theorem homogeneous_kiosk :
    (100 : ℚ) ≠ 0 ∧ (∀ a ∈ kiosk.accounts, a.IsAdditive) ∧
    kiosk.refresh.result = .ok { kiosk with ledger := kioskLedger } ∧
    (kiosk.scaled 100).refresh.result = .ok { kiosk with ledger := kioskLedger.scaled 100 } := by
  have hplan : Plan.of kiosk = .ok kioskPlan := rfl
  have hrefresh : kiosk.refresh.result = .ok { kiosk with ledger := kioskLedger } :=
    refresh_eq_ok_of_ledger rfl hplan (by decide +kernel)
  obtain ⟨-, hscaled, -⟩ := homogeneous (k := 100) (by norm_num) isAdditive_kiosk
  rw [hrefresh] at hscaled
  exact ⟨by norm_num, isAdditive_kiosk, hrefresh, hscaled⟩

end Model

end ProForma
