import ProForma.Amount.Rational
import ProForma.Proofs.Plan.Period

/-!
# The filled ledger

Filling in remembers every cell that it computes, under the position of its period. A period finds
nothing at its own position, and what it leaves there is what its cells come to afresh, so the memo
makes no difference to the outcome. Later periods leave earlier ones alone: what a cell was computed
from is in the ledger in the end, and the ledger satisfies the rules of its accounts.
-/

namespace ProForma.Plan

open Chart Formula Ledger

variable {α : Type} [Amount α] {plan : Plan α} {ledger filled : Ledger α} {position : Nat}
  {period : Period} {periods : List (Period × Nat)}

/-! ### The memo makes no difference -/

def fillPeriods (plan : Plan α) (periods : List (Period × Nat)) (ledger : Ledger α) :
    Filling α (Ledger α) :=
  periods.foldlM
    (fun ledger (period, position) =>
      if period.isImported then pure ledger else plan.fillPeriod position period ledger)
    ledger

def fillPeriodsAfresh (plan : Plan α) (periods : List (Period × Nat)) (ledger : Ledger α) :
    Except (Fault α) (Ledger α) :=
  periods.foldlM
    (fun ledger (period, position) =>
      if period.isImported then pure ledger else plan.fillPeriodAfresh position period ledger)
    ledger

def fillAfresh (plan : Plan α) (ledger : Ledger α) : Except (Fault α) (Ledger α) :=
  plan.fillPeriodsAfresh plan.timeline.zipIdx ledger

/-- The entries are periods of the timeline with their positions, none of them twice. -/
structure Places (plan : Plan α) (periods : List (Period × Nat)) : Prop where
  timeline : ∀ entry ∈ periods, plan.timeline[entry.2]? = some entry.1
  increasing : (periods.map Prod.snd).Pairwise (· < ·)

omit [Amount α] in
theorem places_zipIdx (plan : Plan α) : plan.Places plan.timeline.zipIdx where
  timeline entry hentry := List.mem_zipIdx_iff_getElem?.1 hentry
  increasing := by
    rw [List.zipIdx_map_snd]
    exact List.pairwise_lt_range'

omit [Amount α] in
theorem Places.tail {entry : Period × Nat} (h : plan.Places (entry :: periods)) :
    plan.Places periods :=
  ⟨fun other hother => h.timeline other (List.mem_cons_of_mem _ hother),
    (List.pairwise_cons.1 h.increasing).2⟩

theorem fillPeriods_cons (entry : Period × Nat) (periods : List (Period × Nat))
    (ledger : Ledger α) :
    plan.fillPeriods (entry :: periods) ledger =
      (if entry.1.isImported then pure ledger else plan.fillPeriod entry.2 entry.1 ledger) >>=
        plan.fillPeriods periods :=
  List.foldlM_cons

theorem fillPeriodsAfresh_cons (entry : Period × Nat) (periods : List (Period × Nat))
    (ledger : Ledger α) :
    plan.fillPeriodsAfresh (entry :: periods) ledger =
      (if entry.1.isImported then pure ledger else plan.fillPeriodAfresh entry.2 entry.1 ledger) >>=
        plan.fillPeriodsAfresh periods :=
  List.foldlM_cons

/-- Periods are filled in as without a memo if the memo knows nothing about them. -/
theorem run_fillPeriods (hplan : plan.Reviewed) (hperiods : plan.Places periods)
    (ledger : Ledger α) (memo : Memo α) (warnings : List (Warning α)) (hpending : memo.pending = [])
    (hunknown : ∀ entry ∈ periods, ∀ id, memo.value? ⟨id, entry.2⟩ = none) :
    ((plan.fillPeriods periods ledger).run (memo, warnings)).1 =
      plan.fillPeriodsAfresh periods ledger := by
  induction periods generalizing ledger memo warnings with
  | nil => rfl
  | cons entry periods ih =>
      have hlater : ∀ other ∈ periods, entry.2 < other.2 := fun other hother =>
        (List.pairwise_cons.1 hperiods.increasing).1 _ (List.mem_map_of_mem hother)
      have hunknown' : ∀ other ∈ periods, ∀ id, memo.value? ⟨id, other.2⟩ = none :=
        fun other hother => hunknown other (List.mem_cons_of_mem _ hother)
      rw [fillPeriods_cons, fillPeriodsAfresh_cons, run_bind]
      by_cases himported : entry.1.isImported
      · rw [if_pos himported, if_pos himported]
        exact ih hperiods.tail ledger memo warnings hpending hunknown'
      · have hperiod : plan.timeline[entry.2]? = some entry.1 :=
          hperiods.timeline _ List.mem_cons_self
        have hhonest : memo.Honest (plan.afreshAt ledger entry.2 entry.1) := by
          rintro ⟨id, t⟩ x hx rfl
          rw [hunknown _ List.mem_cons_self id] at hx
          cases hx
        have hidle : ∀ slot ∈ memo.pending,
            ¬ plan.below entry.2 (plan.chart.accounts.length + 1) slot := by
          rw [hpending]
          exact nofun
        obtain ⟨hresult, hbecomes⟩ :=
          fillPeriod_yields hplan hperiod ledger memo warnings hhonest hidle
        rw [if_neg himported, if_neg himported, ← hresult]
        rcases hrun : (plan.fillPeriod entry.2 entry.1 ledger).run (memo, warnings) with
          ⟨fault | next, memo', warnings'⟩ <;> rw [hrun] at hbecomes
        · rfl
        · -- Later positions are beyond the reach of this period, so the memo knows nothing of them.
          refine ih hperiods.tail next memo' warnings' (hbecomes.pending.trans hpending) ?_
          intro other hother id
          have hbeyond : ¬ plan.below entry.2 (plan.chart.accounts.length + 1) ⟨id, other.2⟩ := by
            rintro ⟨hposition, -⟩
            have hlt := hlater other hother
            dsimp only at hposition
            omega
          calc memo'.value? ⟨id, other.2⟩ = memo.value? ⟨id, other.2⟩ := hbecomes.beyond _ hbeyond
            _ = none := hunknown' other hother id

/-- Filling in comes to the same with a memo and without. -/
theorem run_fill (hplan : plan.Reviewed) (ledger : Ledger α) (warnings : List (Warning α)) :
    ((plan.fill ledger).run warnings).1 = plan.fillAfresh ledger :=
  run_fillPeriods hplan plan.places_zipIdx ledger Memo.empty warnings rfl fun _ _ _ => rfl

/-- Filling in ends with no faults but those that are left over. -/
theorem failsOnly_fill (hplan : plan.Reviewed) (ledger : Ledger α) :
    FailsOnly plan.Escapes (plan.fill ledger) := by
  intro warnings fault hfault
  rw [run_fill hplan] at hfault
  obtain ⟨before, entry, -, hfault⟩ := exists_of_foldlM_eq_error hfault
  dsimp only at hfault
  split at hfault
  · cases hfault
  · obtain ⟨current, id, -, hfault⟩ := exists_of_foldlM_eq_error hfault
    unfold fillCellAfresh at hfault
    split at hfault
    · cases hfault
    · rcases bind_eq_error.1 hfault with hfault | ⟨x, -, hfault⟩
      · exact afresh_contained hplan id fault hfault
      · cases hfault

/-! ### What is kept -/

theorem computed_fillPeriodAfresh (hplan : plan.Reviewed)
    (hperiod : plan.timeline[position]? = some period)
    (h : plan.fillPeriodAfresh position period ledger = .ok filled) :
    plan.Computed ledger position period plan.order filled :=
  computed_of_foldlM hplan hperiod (fun _ hid => hid) h

/-- Filling in periods changes no cell of another period, and none of an imported one. -/
theorem cell?_fillPeriodsAfresh (hplan : plan.Reviewed) (hperiods : plan.Places periods)
    (h : plan.fillPeriodsAfresh periods ledger = .ok filled) {key : CellKey}
    (hkey : ∀ entry ∈ periods, entry.1.isImported = false → key.period ≠ entry.1.id) :
    filled.cell? key = ledger.cell? key := by
  induction periods generalizing ledger with
  | nil =>
      cases h
      rfl
  | cons entry periods ih =>
      rw [fillPeriodsAfresh_cons] at h
      obtain ⟨next, hnext, hrest⟩ := bind_eq_ok.1 h
      rw [ih hperiods.tail hrest fun other hother => hkey other (List.mem_cons_of_mem _ hother)]
      split at hnext
      · cases hnext
        rfl
      · rename_i himported
        have hperiod : plan.timeline[entry.2]? = some entry.1 :=
          hperiods.timeline _ List.mem_cons_self
        refine (computed_fillPeriodAfresh hplan hperiod hnext).kept key fun hsame => ?_
        exact absurd hsame (hkey entry List.mem_cons_self (by simpa using himported))

/-- A forecast period is filled in at some point: over a ledger in which it and the later periods
are as they were, and with a result in which it and the earlier periods are as they will be. -/
theorem exists_computed (hplan : plan.Reviewed) (hfill : plan.fillAfresh ledger = .ok filled)
    (hperiod : plan.timeline[position]? = some period) (himported : period.isImported = false) :
    ∃ before after, plan.Computed before position period plan.order after ∧
      (∀ account, before.cell? ⟨account, period.id⟩ = ledger.cell? ⟨account, period.id⟩) ∧
      ∀ n p, plan.timeline[n]? = some p → n ≤ position →
        ∀ account, filled.cell? ⟨account, p.id⟩ = after.cell? ⟨account, p.id⟩ := by
  have hplaces := plan.places_zipIdx
  have hmem : (period, position) ∈ plan.timeline.zipIdx := List.mem_zipIdx_iff_getElem?.2 hperiod
  obtain ⟨earlier, later, hsplit⟩ := List.append_of_mem hmem
  -- Positions grow along the timeline, which tells the earlier periods from the later ones.
  have hincreasing := hplaces.increasing
  rw [hsplit, List.map_append, List.map_cons, List.pairwise_append, List.pairwise_cons]
    at hincreasing
  obtain ⟨hearlier, ⟨hposition, hlater⟩, hacross⟩ := hincreasing
  have hplacesEarlier : plan.Places earlier := by
    refine ⟨fun entry hentry => hplaces.timeline entry ?_, hearlier⟩
    rw [hsplit]
    exact List.mem_append_left _ hentry
  have hplacesLater : plan.Places later := by
    refine ⟨fun entry hentry => hplaces.timeline entry ?_, hlater⟩
    rw [hsplit]
    exact List.mem_append_right _ (List.mem_cons_of_mem _ hentry)
  unfold fillAfresh fillPeriodsAfresh at hfill
  rw [hsplit, List.foldlM_append] at hfill
  obtain ⟨before, hbefore, hfill⟩ := bind_eq_ok.1 hfill
  rw [List.foldlM_cons] at hfill
  obtain ⟨after, hafter, hfill⟩ := bind_eq_ok.1 hfill
  dsimp only at hafter
  rw [himported, if_neg Bool.false_ne_true] at hafter
  refine ⟨before, after, computed_fillPeriodAfresh hplan hperiod hafter, fun account => ?_, ?_⟩
  · refine cell?_fillPeriodsAfresh hplan hplacesEarlier hbefore fun entry hentry _ => ?_
    have hlt := hacross _ (List.mem_map_of_mem hentry) position List.mem_cons_self
    exact hplan.id_ne (by omega) hperiod (hplacesEarlier.timeline entry hentry)
  · intro n p hp hn account
    refine cell?_fillPeriodsAfresh hplan hplacesLater hfill fun entry hentry _ => ?_
    have hlt := hposition _ (List.mem_map_of_mem hentry)
    exact hplan.id_ne (by omega) hp (hplacesLater.timeline entry hentry)

/-- Filling in changes cells of accounts and periods of the plan only. -/
theorem known_of_fillAfresh (hplan : plan.Reviewed) (hfill : plan.fillAfresh ledger = .ok filled)
    {key : CellKey} (hkey : filled.cell? key ≠ ledger.cell? key) :
    (∃ a ∈ plan.chart.accounts, a.id = key.account) ∧ ∃ p ∈ plan.timeline, p.id = key.period := by
  obtain ⟨account, id⟩ := key
  obtain ⟨entry, hentry, hforecast, rfl⟩ : ∃ entry ∈ plan.timeline.zipIdx,
      entry.1.isImported = false ∧ id = entry.1.id := by
    by_contra! hnone
    exact hkey (cell?_fillPeriodsAfresh hplan plan.places_zipIdx hfill hnone)
  have hperiod := plan.places_zipIdx.timeline entry hentry
  refine ⟨?_, entry.1, List.mem_of_getElem? hperiod, rfl⟩
  obtain ⟨before, after, hcomputed, hbefore, hafter⟩ :=
    exists_computed hplan hfill hperiod hforecast
  by_contra! hnone
  have habsent : account ∉ plan.order := fun hid => by
    obtain ⟨a, ha, hsame⟩ := (mem_order hplan.order).1 hid
    exact hnone a ha hsame
  apply hkey
  calc filled.cell? ⟨account, entry.1.id⟩ = after.cell? ⟨account, entry.1.id⟩ :=
        hafter entry.2 entry.1 hperiod (Nat.le_refl _) account
    _ = before.cell? ⟨account, entry.1.id⟩ := hcomputed.kept _ fun _ hid => absurd hid habsent
    _ = ledger.cell? ⟨account, entry.1.id⟩ := hbefore account

/-! ### The rules hold in the filled ledger -/

/-- The value is what the rule of an account asks for, over the filled ledger itself. Without a
formula a cell rolls forward; where it may keep what it held, that is what it held `before`. -/
def Follows (plan : Plan α) (before filled : Ledger α) (position : Nat) (period : Period)
    (a : Account α) (value : α) : Prop :=
  let previous := plan.carried filled a.id position
  match plan.chart.formula? (timing period position) a with
  | .error _ => False
  | .ok none =>
    value =
      if position = 0 ∨ a.total.isSome then (before.value? ⟨a.id, period.id⟩).getD previous
      else previous
  | .ok (some f) =>
    match f.value (plan.stored filled) position with
    | .ok result => value = result
    | .error fault => fault.isLocal ∧ plan.settings.carriesForward ∧ value = previous

/-- The ledger that filling in a ledger `before` has to give, described by itself. -/
structure SelfConsistent (plan : Plan α) (before filled : Ledger α) : Prop where
  imported {position : Nat} {period : Period} : plan.timeline[position]? = some period →
    period.isImported = true →
    ∀ account, filled.cell? ⟨account, period.id⟩ = before.cell? ⟨account, period.id⟩
  entered {position : Nat} {period : Period} : plan.timeline[position]? = some period →
    period.isImported = false → ∀ a ∈ plan.chart.accounts,
    before.isEntered ⟨a.id, period.id⟩ = true →
    filled.cell? ⟨a.id, period.id⟩ = before.cell? ⟨a.id, period.id⟩
  derived {position : Nat} {period : Period} : plan.timeline[position]? = some period →
    period.isImported = false → ∀ a ∈ plan.chart.accounts,
    before.isEntered ⟨a.id, period.id⟩ = false →
    ∃ value, filled.cell? ⟨a.id, period.id⟩ = some ⟨value, true⟩ ∧
      plan.Follows before filled position period a value

/-- A formula gives the same over a table that has what is read of the same period, and what the
ledger has for earlier ones. -/
theorem eval_eq_value {f : Formula α} {read : AccountId → Except (Fault α) α}
    {table : AccountId → Int → α}
    (hcurrent : ∀ ref, (ref, 0) ∈ f.refs → read ref = .ok (table ref position))
    (hearlier : ∀ ref (t : Int), t < position → plan.stored ledger ref t = table ref t) :
    f.eval (fun ref t => if t = (position : Int) then read ref else pure (plan.stored ledger ref t))
      position = f.value table position := by
  refine eval_congr fun r hr => ?_
  split
  · rename_i hnow
    have hlag : r.2 = 0 := by omega
    rw [hcurrent r.1 (hlag ▸ hr), hnow]
    rfl
  · rw [hearlier r.1 _ (by omega)]

/-- What a cell comes to afresh is what its rule asks for over any ledger that agrees with the one
at hand on earlier periods, and has what the accounts of the period come to. -/
theorem follows_of_afresh (hplan : plan.Reviewed) {before : Ledger α} {a : Account α}
    (ha : a ∈ plan.chart.accounts) (hentered : ledger.isEntered ⟨a.id, period.id⟩ = false) {x : α}
    (hx : plan.afresh ledger position period a.id = .ok x)
    (hkept : ledger.value? ⟨a.id, period.id⟩ = before.value? ⟨a.id, period.id⟩)
    (hearlier : ∀ account (t : Int), t < position →
      plan.stored ledger account t = plan.stored filled account t)
    (hcurrent : ∀ account,
      plan.afresh ledger position period account = .ok (plan.stored filled account position)) :
    plan.Follows before filled position period a x := by
  have haccount := hplan.account a ha
  have hcarried : plan.carried ledger a.id position = plan.carried filled a.id position :=
    hearlier a.id _ (by omega)
  rw [afresh_eq hplan] at hx
  unfold Follows
  dsimp only
  obtain ⟨f?, hf⟩ := hplan.exists_formula? haccount (timing period position)
  cases f? with
  | none =>
      rw [derive_eq_held haccount hentered hf] at hx
      have hheld : x = plan.held ledger position period a := (Except.ok.inj hx).symm
      rw [hf]
      dsimp only
      rw [hheld, held, hcarried, hkept]
  | some f =>
      rw [derive_eq_eval haccount hentered hf,
        eval_eq_value (fun ref _ => hcurrent ref) hearlier] at hx
      rw [hf]
      dsimp only
      cases hresult : f.value (plan.stored filled) position with
      | ok y =>
          rw [hresult] at hx
          exact (Except.ok.inj hx).symm
      | error fault =>
          rw [hresult, orBefore] at hx
          split at hx
          · rename_i hisolates
            obtain ⟨hlocal, hcarries⟩ :
                fault.isLocal = true ∧ plan.settings.carriesForward = true := by
              simpa [isolates] using hisolates
            refine ⟨hlocal, hcarries, ?_⟩
            rw [← hcarried]
            exact (Except.ok.inj hx).symm
          · cases hx

theorem cell?_fillAfresh_of_isImported (hplan : plan.Reviewed)
    (hfill : plan.fillAfresh ledger = .ok filled) (hperiod : plan.timeline[position]? = some period)
    (himported : period.isImported = true) (account : AccountId) :
    filled.cell? ⟨account, period.id⟩ = ledger.cell? ⟨account, period.id⟩ := by
  refine cell?_fillPeriodsAfresh hplan plan.places_zipIdx hfill fun entry hentry hforecast => ?_
  refine hplan.id_ne ?_ hperiod (plan.places_zipIdx.timeline entry hentry)
  rintro rfl
  have hsame := plan.places_zipIdx.timeline entry hentry
  rw [hperiod] at hsame
  rw [← Option.some.inj hsame, himported] at hforecast
  cases hforecast

theorem cell?_fillAfresh_of_isEntered (hplan : plan.Reviewed)
    (hfill : plan.fillAfresh ledger = .ok filled) (hperiod : plan.timeline[position]? = some period)
    (himported : period.isImported = false) {account : AccountId}
    (hentered : ledger.isEntered ⟨account, period.id⟩ = true) :
    filled.cell? ⟨account, period.id⟩ = ledger.cell? ⟨account, period.id⟩ := by
  obtain ⟨before, after, hcomputed, hbefore, hafter⟩ :=
    exists_computed hplan hfill hperiod himported
  have hentered' : before.isEntered ⟨account, period.id⟩ = true := by
    rw [isEntered_congr (hbefore account), hentered]
  calc filled.cell? ⟨account, period.id⟩ = after.cell? ⟨account, period.id⟩ :=
        hafter position period hperiod (Nat.le_refl _) account
    _ = before.cell? ⟨account, period.id⟩ := hcomputed.kept _ fun _ _ => hentered'
    _ = ledger.cell? ⟨account, period.id⟩ := hbefore account

theorem exists_follows_of_fillAfresh (hplan : plan.Reviewed)
    (hfill : plan.fillAfresh ledger = .ok filled) (hperiod : plan.timeline[position]? = some period)
    (himported : period.isImported = false) {a : Account α} (ha : a ∈ plan.chart.accounts)
    (hentered : ledger.isEntered ⟨a.id, period.id⟩ = false) :
    ∃ value, filled.cell? ⟨a.id, period.id⟩ = some ⟨value, true⟩ ∧
      plan.Follows ledger filled position period a value := by
  obtain ⟨before, after, hcomputed, hbefore, hafter⟩ :=
    exists_computed hplan hfill hperiod himported
  have hentered' : before.isEntered ⟨a.id, period.id⟩ = false := by
    rw [isEntered_congr (hbefore a.id), hentered]
  have hid : a.id ∈ plan.order := (mem_order hplan.order).2 ⟨a, ha, rfl⟩
  have hlast := hafter position period hperiod (Nat.le_refl _)
  obtain ⟨x, hx, hcell⟩ := hcomputed.written a.id hid hentered'
  refine ⟨x, by rw [hlast a.id, hcell], ?_⟩
  refine follows_of_afresh hplan ha hentered' hx (value?_congr (hbefore a.id)) ?_ ?_
  · intro account t ht
    refine stored_congr account fun p hp => ?_
    obtain ⟨n, rfl, hn⟩ := periodAt?_eq_some_iff.1 hp
    have hne : p.id ≠ period.id := hplan.id_ne (by omega) hn hperiod
    have hkept : after.cell? ⟨account, p.id⟩ = before.cell? ⟨account, p.id⟩ :=
      hcomputed.kept _ fun h => absurd h hne
    rw [hafter n p hn (by omega) account, hkept]
  · intro account
    rw [stored_of_getElem? hperiod, value_congr (hlast account)]
    exact hcomputed.afresh_eq hplan account

theorem selfConsistent_of_fillAfresh (hplan : plan.Reviewed)
    (hfill : plan.fillAfresh ledger = .ok filled) : plan.SelfConsistent ledger filled where
  imported := cell?_fillAfresh_of_isImported hplan hfill
  entered hperiod himported _ _ := cell?_fillAfresh_of_isEntered hplan hfill hperiod himported
  derived hperiod himported _ := exists_follows_of_fillAfresh hplan hfill hperiod himported

theorem result_fill (hplan : plan.Reviewed) (ledger : Ledger α) :
    (plan.fill ledger).result = plan.fillAfresh ledger :=
  run_fill hplan ledger []

/-- Whatever a model is filled in with is consistent in itself. -/
theorem fill_selfConsistent {m : Model α} (hcheck : m.check = .ok ())
    (hplan : Plan.of m = .ok plan) (hfill : (plan.fill m.ledger).result = .ok filled) :
    plan.SelfConsistent m.ledger filled := by
  have hplan := reviewed_of hcheck hplan
  rw [result_fill hplan] at hfill
  exact selfConsistent_of_fillAfresh hplan hfill

/-- A shop whose sales grow by a tenth. The burden is what is sold for each unit of tax. There is no
tax, so the burden of the year before is carried forward. -/
def shop : Model ℚ where
  name := "Shop"
  accounts := [
    { (Account.flow ⟨"burden"⟩ "Burden" : Account ℚ) with
      parameter := .calculation [.to ⟨"sales"⟩, ⟨⟨"tax"⟩, .div, 0⟩] },
    { (Account.flow ⟨"sales"⟩ "Sales" : Account ℚ) with parameter := .growthRate (1 / 10) },
    .flow ⟨"tax"⟩ "Tax"]
  periods := [.plain ⟨"2025"⟩ 2025, .imported ⟨"2024"⟩ 2024]
  ledger :=
    (Ledger.empty.insert ⟨⟨"burden"⟩, ⟨"2024"⟩⟩ ⟨7, false⟩).insert ⟨⟨"sales"⟩, ⟨"2024"⟩⟩
      ⟨100, false⟩
  settings := { passes := 16, tolerance := 0, carriesForward := true }

def shopPlan : Plan ℚ where
  chart := shop.chart
  timeline := [.imported ⟨"2024"⟩ 2024, .plain ⟨"2025"⟩ 2025]
  settings := shop.settings
  order := [⟨"sales"⟩, ⟨"tax"⟩, ⟨"burden"⟩]

def shopFilled : Ledger ℚ :=
  ((shop.ledger.derive ⟨⟨"burden"⟩, ⟨"2025"⟩⟩ 7).derive ⟨⟨"sales"⟩, ⟨"2025"⟩⟩ 110).derive
    ⟨⟨"tax"⟩, ⟨"2025"⟩⟩ 0

theorem fill_shop :
    shop.check = .ok () ∧ Plan.of shop = .ok shopPlan ∧
    (shopPlan.fill shop.ledger).result = .ok shopFilled ∧
    shopPlan.SelfConsistent shop.ledger shopFilled := by
  have hcheck : shop.check = .ok () := rfl
  have hplan : Plan.of shop = .ok shopPlan := rfl
  have hfill : (shopPlan.fill shop.ledger).result = .ok shopFilled := by with_unfolding_all rfl
  exact ⟨hcheck, hplan, hfill, fill_selfConsistent hcheck hplan hfill⟩

end ProForma.Plan
