import ProForma.Ledger.Lemmas
import ProForma.Proofs.Plan.Cell

/-!
# Filling in one period afresh

Writing down what a cell comes to changes nothing about what the other cells of the period come to:
earlier periods are not touched, and the cells of the period itself are not read from the ledger. So
in a filled period every cell holds what it came to before the first of them was written.
-/

namespace ProForma

variable {α : Type}

namespace Ledger

theorem cell?_derive (ledger : Ledger α) (key k : CellKey) (x : α) :
    (ledger.derive key x).cell? k = if k = key then some ⟨x, true⟩ else ledger.cell? k :=
  cell?_insert ledger key k ⟨x, true⟩

theorem value?_derive_self (ledger : Ledger α) (key : CellKey) (x : α) :
    (ledger.derive key x).value? key = some x := by
  rw [value?, cell?_derive, if_pos rfl]
  rfl

theorem value?_of_cell? {ledger : Ledger α} {key : CellKey} {cell : Cell α}
    (h : ledger.cell? key = some cell) : ledger.value? key = some cell.value := by
  rw [value?, h]
  rfl

theorem value_of_cell? [Zero α] {ledger : Ledger α} {key : CellKey} {cell : Cell α}
    (h : ledger.cell? key = some cell) : ledger.value key = cell.value := by
  rw [value, value?_of_cell? h]
  rfl

theorem isEntered_of_cell? {ledger : Ledger α} {key : CellKey} {cell : Cell α}
    (h : ledger.cell? key = some cell) : ledger.isEntered key = !cell.isCalculated := by
  rw [isEntered, h]
  rfl

theorem value?_congr {ledger ledger' : Ledger α} {key : CellKey}
    (h : ledger.cell? key = ledger'.cell? key) : ledger.value? key = ledger'.value? key := by
  rw [value?, value?, h]

theorem value_congr [Zero α] {ledger ledger' : Ledger α} {key : CellKey}
    (h : ledger.cell? key = ledger'.cell? key) : ledger.value key = ledger'.value key := by
  rw [value, value, value?_congr h]

theorem isEntered_congr {ledger ledger' : Ledger α} {key : CellKey}
    (h : ledger.cell? key = ledger'.cell? key) : ledger.isEntered key = ledger'.isEntered key := by
  rw [isEntered, isEntered, h]

/-- Derived values are no entered ones, and replace no entered ones. -/
theorem isEntered_derive {ledger : Ledger α} {key : CellKey} (h : ledger.isEntered key = false)
    (x : α) (k : CellKey) : (ledger.derive key x).isEntered k = ledger.isEntered k := by
  by_cases hk : k = key
  · rw [hk, h, isEntered, cell?_derive, if_pos rfl]
    rfl
  · exact isEntered_congr (by rw [cell?_derive, if_neg hk])

end Ledger

namespace Plan

open Chart ProForma.Computation Ledger

variable [Amount α] {plan : Plan α} {ledger ledger' : Ledger α} {position : Nat} {period : Period}

/-! ### Reading the ledger -/

omit [Amount α] in
theorem periodAt?_eq_some_iff {t : Int} {p : Period} :
    plan.periodAt? t = some p ↔ ∃ n : Nat, t = n ∧ plan.timeline[n]? = some p := by
  unfold periodAt?
  split
  · rename_i ht
    constructor
    · exact fun h => ⟨t.toNat, by omega, h⟩
    · rintro ⟨n, rfl, h⟩
      exact h
  · rename_i ht
    constructor
    · intro h
      cases h
    · rintro ⟨n, rfl, -⟩
      omega

theorem Reviewed.id_ne (hplan : plan.Reviewed) {n k : Nat} {p q : Period} (hnk : n ≠ k)
    (hp : plan.timeline[n]? = some p) (hq : plan.timeline[k]? = some q) : p.id ≠ q.id := by
  intro hid
  obtain ⟨hn, -⟩ := List.getElem?_eq_some_iff.1 hp
  have hn' : n < (plan.timeline.map Period.id).length := by rwa [List.length_map]
  refine hnk ((List.getElem?_inj hn' hplan.timeline).1 ?_)
  rw [List.getElem?_map, List.getElem?_map, hp, hq, Option.map_some, Option.map_some, hid]

/-- No identifier is used twice, so a period is found where it stands. -/
theorem Reviewed.position_eq (hplan : plan.Reviewed)
    (hperiod : plan.timeline[position]? = some period) :
    plan.position period.id = .ok position := by
  have hfound : plan.timeline.findIdx? (·.id = period.id) = some position := by
    obtain ⟨hlt, hget⟩ := List.getElem?_eq_some_iff.1 hperiod
    refine List.findIdx?_eq_some_iff_getElem.2 ⟨hlt, by rw [hget, decide_eq_true rfl], ?_⟩
    intro i hi
    rw [decide_eq_true_iff]
    exact hplan.id_ne (Nat.ne_of_lt hi) (List.getElem?_eq_getElem (hi.trans hlt)) hperiod
  rw [Plan.position, hfound]

theorem stored_of_getElem? (hperiod : plan.timeline[position]? = some period)
    (account : AccountId) :
    plan.stored ledger account position = ledger.value ⟨account, period.id⟩ := by
  rw [stored, periodAt?_eq_some_iff.2 ⟨position, rfl, hperiod⟩]

/-- Ledgers with the same cells in a period hold the same at its position. -/
theorem stored_congr {t : Int} (account : AccountId)
    (h : ∀ p, plan.periodAt? t = some p →
      ledger.cell? ⟨account, p.id⟩ = ledger'.cell? ⟨account, p.id⟩) :
    plan.stored ledger account t = plan.stored ledger' account t := by
  unfold stored
  cases hp : plan.periodAt? t with
  | none => rfl
  | some p => exact value_congr (h p hp)

theorem stored_derive (hplan : plan.Reviewed) (hperiod : plan.timeline[position]? = some period)
    (id : AccountId) (x : α) (account : AccountId) {t : Int} (ht : t ≠ position) :
    plan.stored (ledger.derive ⟨id, period.id⟩ x) account t = plan.stored ledger account t := by
  refine stored_congr account fun p hp => ?_
  obtain ⟨n, rfl, hn⟩ := periodAt?_eq_some_iff.1 hp
  have hne : p.id ≠ period.id := hplan.id_ne (by omega) hn hperiod
  rw [cell?_derive, if_neg]
  intro hkey
  exact hne (congrArg CellKey.period hkey)

/-! ### Writing down a value -/

theorem held_derive (hplan : plan.Reviewed) (hperiod : plan.timeline[position]? = some period)
    {id : AccountId} {x : α} {a : Account α}
    (hx : a.id = id → x = plan.held ledger position period a) :
    plan.held (ledger.derive ⟨id, period.id⟩ x) position period a =
      plan.held ledger position period a := by
  have hcarried : plan.carried (ledger.derive ⟨id, period.id⟩ x) a.id position =
      plan.carried ledger a.id position := stored_derive hplan hperiod id x a.id (by omega)
  by_cases hid : a.id = id
  · have hx := hx hid
    unfold held at hx ⊢
    rw [hcarried]
    dsimp only at hx ⊢
    split
    · rename_i hkeeps
      rw [if_pos hkeeps] at hx
      rw [hid, value?_derive_self, Option.getD_some, hx, hid]
    · rfl
  · have hkey : (⟨a.id, period.id⟩ : CellKey) ≠ ⟨id, period.id⟩ := fun h =>
      hid (congrArg CellKey.account h)
    have hvalue : (ledger.derive ⟨id, period.id⟩ x).value? ⟨a.id, period.id⟩ =
        ledger.value? ⟨a.id, period.id⟩ := value?_congr (by rw [cell?_derive, if_neg hkey])
    unfold held
    rw [hcarried, hvalue]

theorem derive_derive (hplan : plan.Reviewed) (hperiod : plan.timeline[position]? = some period)
    {id : AccountId} {a : Account α} (ha : plan.chart.account? id = some a) {x : α}
    (hentered : ledger.isEntered ⟨id, period.id⟩ = false)
    (hx : plan.chart.formula? (timing period position) a = .ok none →
      x = plan.held ledger position period a)
    (read : AccountId → Except (Fault α) α) (ref : AccountId) :
    plan.derive (ledger.derive ⟨id, period.id⟩ x) position period read ref =
      plan.derive ledger position period read ref := by
  have hsame := isEntered_derive hentered x
  rcases hplan.derive_cases ledger position period ref with hkept | ⟨b, hb, hopen, hf | ⟨f, hf⟩⟩
  · have hkept' : ∀ a, plan.chart.account? ref = some a →
        (ledger.derive ⟨id, period.id⟩ x).isEntered ⟨ref, period.id⟩ = true := by
      intro b hb
      rw [hsame]
      exact hkept b hb
    have hkey : (⟨ref, period.id⟩ : CellKey) ≠ ⟨id, period.id⟩ := by
      intro hkey
      obtain rfl : ref = id := congrArg CellKey.account hkey
      rw [hkept a ha] at hentered
      cases hentered
    rw [derive_eq_value hkept', derive_eq_value hkept, value_congr]
    rw [cell?_derive, if_neg hkey]
  · have hheld : b.id = id → x = plan.held ledger position period b := by
      intro hid
      obtain ⟨-, hrefid⟩ := mem_of_account? hb
      have hba : some b = some a := by rw [← hb, ← hrefid, hid, ha]
      cases hba
      exact hx hf
    rw [derive_eq_held hb (by rw [hsame, hopen]) hf, derive_eq_held hb hopen hf,
      held_derive hplan hperiod hheld]
  · have hread : (fun ref t => if t = (position : Int) then read ref
          else pure (plan.stored (ledger.derive ⟨id, period.id⟩ x) ref t)) =
        fun ref t => if t = (position : Int) then read ref
          else (pure (plan.stored ledger ref t) : Except (Fault α) α) := by
      funext ref t
      split
      · rfl
      · rename_i ht
        rw [stored_derive hplan hperiod id x ref ht]
    rw [derive_eq_eval hb (by rw [hsame, hopen]) hf, derive_eq_eval hb hopen hf, hread]

/-- Writing down what a cell comes to leaves what all cells of the period come to. -/
theorem afresh_derive (hplan : plan.Reviewed) (hperiod : plan.timeline[position]? = some period)
    {id : AccountId} {a : Account α} (ha : plan.chart.account? id = some a) {x : α}
    (hentered : ledger.isEntered ⟨id, period.id⟩ = false)
    (hx : plan.afresh ledger position period id = .ok x) :
    plan.afresh (ledger.derive ⟨id, period.id⟩ x) position period =
      plan.afresh ledger position period := by
  have hheld : plan.chart.formula? (timing period position) a = .ok none →
      x = plan.held ledger position period a := by
    intro hnone
    rw [afresh_eq hplan, derive_eq_held ha hentered hnone] at hx
    exact (Except.ok.inj hx).symm
  -- By rank: a value rests on those of lower rank, which are over the changed ledger as well.
  have hrank : ∀ depth ref, rank plan.order ref < depth →
      plan.afresh (ledger.derive ⟨id, period.id⟩ x) position period ref =
        plan.afresh ledger position period ref := by
    intro depth
    induction depth with
    | zero =>
        intro ref hdepth
        omega
    | succ depth ih =>
        intro ref hdepth
        have hcarried : plan.carried (ledger.derive ⟨id, period.id⟩ x) ref position =
            plan.carried ledger ref position := stored_derive hplan hperiod id x ref (by omega)
        have hbefore : plan.orBefore (ledger.derive ⟨id, period.id⟩ x) position ref =
            plan.orBefore ledger position ref := by
          funext outcome
          cases outcome with
          | ok y => rfl
          | error fault => rw [orBefore, orBefore, hcarried]
        have hderive : plan.derive (ledger.derive ⟨id, period.id⟩ x) position period
              (plan.afresh (ledger.derive ⟨id, period.id⟩ x) position period) ref =
            plan.derive ledger position period (plan.afresh ledger position period) ref := by
          rw [derive_derive hplan hperiod ha hentered hheld]
          exact derive_congr hplan fun below hbelow => ih below (by omega)
        rw [afresh_eq hplan, hbefore, hderive, ← afresh_eq hplan]
  funext ref
  exact hrank _ ref (Nat.lt_succ_self _)

/-! ### Filling in the period -/

/-- Computes one account in a period without a memo, unless its value was entered. -/
def fillCellAfresh (plan : Plan α) (position : Nat) (period : Period) (ledger : Ledger α)
    (id : AccountId) : Except (Fault α) (Ledger α) :=
  if ledger.isEntered ⟨id, period.id⟩ then pure ledger
  else do
    let value ← plan.afresh ledger position period id
    pure (ledger.derive ⟨id, period.id⟩ value)

def fillPeriodAfresh (plan : Plan α) (position : Nat) (period : Period) (ledger : Ledger α) :
    Except (Fault α) (Ledger α) :=
  plan.order.foldlM (plan.fillCellAfresh position period) ledger

theorem Reviewed.exists_account? (hplan : plan.Reviewed) {id : AccountId} (hid : id ∈ plan.order) :
    ∃ a, plan.chart.account? id = some a :=
  Chart.exists_account? ((mem_order hplan.order).1 hid)

theorem fillCellAfresh_eq_ok {next : Ledger α} {id : AccountId}
    (h : plan.fillCellAfresh position period ledger id = .ok next) :
    (ledger.isEntered ⟨id, period.id⟩ = true ∧ next = ledger) ∨
    (ledger.isEntered ⟨id, period.id⟩ = false ∧ ∃ x,
      plan.afresh ledger position period id = .ok x ∧ next = ledger.derive ⟨id, period.id⟩ x) := by
  unfold fillCellAfresh at h
  split at h
  · rename_i hentered
    cases h
    exact .inl ⟨hentered, rfl⟩
  · rename_i hentered
    obtain ⟨x, hx, h⟩ := bind_eq_ok.1 h
    cases h
    exact .inr ⟨by simpa using hentered, x, hx, rfl⟩

/-- Computing a cell leaves what the cells of the period come to, and which were entered. -/
theorem afresh_fillCellAfresh (hplan : plan.Reviewed)
    (hperiod : plan.timeline[position]? = some period) {next : Ledger α} {id : AccountId}
    (hid : id ∈ plan.order) (h : plan.fillCellAfresh position period ledger id = .ok next) :
    plan.afresh next position period = plan.afresh ledger position period ∧
      ∀ key, next.isEntered key = ledger.isEntered key := by
  obtain ⟨a, ha⟩ := hplan.exists_account? hid
  rcases fillCellAfresh_eq_ok h with ⟨-, rfl⟩ | ⟨hentered, x, hx, rfl⟩
  · exact ⟨rfl, fun _ => rfl⟩
  · exact ⟨afresh_derive hplan hperiod ha hentered hx, isEntered_derive hentered x⟩

/-- The cells of some accounts in a period have been computed, and nothing else has changed. -/
structure Computed (plan : Plan α) (ledger : Ledger α) (position : Nat) (period : Period)
    (ids : List AccountId) (filled : Ledger α) : Prop where
  written : ∀ id ∈ ids, ledger.isEntered ⟨id, period.id⟩ = false →
    ∃ x, plan.afresh ledger position period id = .ok x ∧
      filled.cell? ⟨id, period.id⟩ = some ⟨x, true⟩
  kept : ∀ key, (key.period = period.id → key.account ∈ ids → ledger.isEntered key = true) →
    filled.cell? key = ledger.cell? key

theorem computed_of_foldlM (hplan : plan.Reviewed)
    (hperiod : plan.timeline[position]? = some period) {filled : Ledger α} {ids : List AccountId}
    (hids : ids ⊆ plan.order)
    (h : ids.foldlM (plan.fillCellAfresh position period) ledger = .ok filled) :
    plan.Computed ledger position period ids filled := by
  induction ids generalizing ledger with
  | nil =>
      cases h
      exact ⟨nofun, fun _ _ => rfl⟩
  | cons id ids ih =>
      rw [List.foldlM_cons] at h
      obtain ⟨next, hnext, hrest⟩ := bind_eq_ok.1 h
      obtain ⟨hafresh, hentered⟩ :=
        afresh_fillCellAfresh hplan hperiod (hids List.mem_cons_self) hnext
      obtain ⟨hwritten, hkept⟩ := ih (fun _ hid => hids (List.mem_cons_of_mem _ hid)) hrest
      rw [hafresh] at hwritten
      simp only [hentered] at hwritten hkept
      refine ⟨fun id' hid' hid'entered => ?_, fun key hkey => ?_⟩
      · by_cases hlater : id' ∈ ids
        · exact hwritten id' hlater hid'entered
        · obtain rfl : id' = id := (List.mem_cons.1 hid').resolve_right hlater
          rcases fillCellAfresh_eq_ok hnext with ⟨hkeeps, -⟩ | ⟨-, x, hx, rfl⟩
          · rw [hid'entered] at hkeeps
            cases hkeeps
          · refine ⟨x, hx, ?_⟩
            rw [hkept _ fun _ hmem => absurd hmem hlater, cell?_derive, if_pos rfl]
      · rw [hkept key fun hp hid => hkey hp (List.mem_cons_of_mem _ hid)]
        rcases fillCellAfresh_eq_ok hnext with ⟨-, rfl⟩ | ⟨hcomputed, x, -, rfl⟩
        · rfl
        · rw [cell?_derive, if_neg]
          rintro rfl
          rw [hkey rfl List.mem_cons_self] at hcomputed
          cases hcomputed

/-- In a filled period an account holds what it came to before. -/
theorem Computed.afresh_eq (hplan : plan.Reviewed) {filled : Ledger α}
    (h : plan.Computed ledger position period plan.order filled) (id : AccountId) :
    plan.afresh ledger position period id = .ok (filled.value ⟨id, period.id⟩) := by
  by_cases hcomputed : id ∈ plan.order ∧ ledger.isEntered ⟨id, period.id⟩ = false
  · obtain ⟨x, hx, hcell⟩ := h.written id hcomputed.1 hcomputed.2
    rw [hx, value_of_cell? hcell]
  · have hkept : filled.cell? ⟨id, period.id⟩ = ledger.cell? ⟨id, period.id⟩ := by
      refine h.kept ⟨id, period.id⟩ fun _ hid => ?_
      simpa [hid] using hcomputed
    have hentered : ∀ a, plan.chart.account? id = some a →
        ledger.isEntered ⟨id, period.id⟩ = true := by
      intro a ha
      have hid : id ∈ plan.order := (mem_order hplan.order).2 ⟨a, mem_of_account? ha⟩
      simpa [hid] using hcomputed
    rw [Plan.afresh_eq hplan, derive_eq_value hentered, value_congr hkept]
    rfl

/-! ### Filling in the period over the memo -/

theorem fillCell_yields (hplan : plan.Reviewed) (id : AccountId) :
    (plan.fillCell position period ledger id).Yields (plan.afreshAt ledger position period)
      (plan.below position (plan.chart.accounts.length + 1))
      (· = plan.fillCellAfresh position period ledger id) := by
  unfold fillCell fillCellAfresh
  split
  · exact yields_pure rfl
  · have hrank := rank_le hplan.order id
    have hbelow : ∀ slot, plan.below position (rank plan.order id + 1) slot →
        plan.below position (plan.chart.accounts.length + 1) slot := by
      rintro slot ⟨hposition, hslot⟩
      exact ⟨hposition, by omega⟩
    have hcell := (cell_yields_afresh hplan ledger position period (Nat.lt_succ_of_le hrank)).mono
      hbelow fun _ h => h
    refine hcell.bind (fun x hx => ?_) fun fault hfault => ?_
    · rw [← hx]
      exact yields_pure rfl
    · rw [← hfault]
      rfl

theorem fillCells_yields (hplan : plan.Reviewed)
    (hperiod : plan.timeline[position]? = some period) {ids : List AccountId}
    (hids : ids ⊆ plan.order) {before : Ledger α}
    (hafresh : plan.afresh ledger position period = plan.afresh before position period) :
    (ids.foldlM (plan.fillCell position period) ledger).Yields
      (plan.afreshAt before position period)
      (plan.below position (plan.chart.accounts.length + 1))
      (· = ids.foldlM (plan.fillCellAfresh position period) ledger) := by
  induction ids generalizing ledger with
  | nil => exact yields_pure rfl
  | cons id ids ih =>
      have hcell : (plan.fillCell position period ledger id).Yields
          (plan.afreshAt before position period)
          (plan.below position (plan.chart.accounts.length + 1))
          (· = plan.fillCellAfresh position period ledger id) := by
        unfold afreshAt
        rw [← hafresh]
        exact fillCell_yields hplan id
      rw [List.foldlM_cons, List.foldlM_cons]
      refine hcell.bind (fun next hnext => ?_) fun fault hfault => ?_
      · rw [← hnext]
        obtain ⟨hsame, -⟩ :=
          afresh_fillCellAfresh hplan hperiod (hids List.mem_cons_self) hnext.symm
        exact ih (fun _ hid => hids (List.mem_cons_of_mem _ hid)) (hsame.trans hafresh)
      · rw [← hfault]
        rfl

theorem fillPeriod_yields (hplan : plan.Reviewed)
    (hperiod : plan.timeline[position]? = some period) (ledger : Ledger α) :
    (plan.fillPeriod position period ledger).Yields (plan.afreshAt ledger position period)
      (plan.below position (plan.chart.accounts.length + 1))
      (· = plan.fillPeriodAfresh position period ledger) :=
  fillCells_yields hplan hperiod (fun _ h => h) rfl

end Plan

end ProForma
