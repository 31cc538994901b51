import ProForma.Plan.Basic
import ProForma.Proofs.Review

/-!
# The timeline

Periods follow one another by increasing order, and in a model that passes review no two of them
share an order. So the last period is the one with the greatest order, and the period before another
one stands right before it.
-/

namespace ProForma

variable {α : Type}

namespace Model

variable {m : Model α}

/-! ### Positions -/

theorem mem_timeline {p : Period} : p ∈ m.timeline ↔ p ∈ m.periods :=
  (Period.perm_inOrder m.periods).mem_iff

theorem length_timeline : m.timeline.length = m.periods.length :=
  (Period.perm_inOrder m.periods).length_eq

theorem exists_position {p : Period} (h : p ∈ m.periods) : ∃ i : Nat, m.timeline[i]? = some p :=
  List.mem_iff_getElem?.1 (mem_timeline.2 h)

theorem exists_before {i : Nat} {p : Period} (hp : m.timeline[i + 1]? = some p) :
    ∃ q, m.timeline[i]? = some q := by
  have hi := (List.getElem?_eq_some_iff.1 hp).1
  exact ⟨_, List.getElem?_eq_getElem (by omega)⟩

theorem pairwise_timeline (h : m.check = .ok ()) :
    m.timeline.Pairwise fun p later => p.order < later.order :=
  Period.pairwise_lt_inOrder_iff.2 (nodup_periods_of_check h).2

/-- No identifier is used twice, so a period is found by its own. -/
theorem period?_eq_some_of_mem (hids : (m.periods.map Period.id).Nodup) {p : Period}
    (hp : p ∈ m.periods) : m.period? p.id = some p := by
  have hfound : (m.periods.find? fun q => q.id = p.id).isSome = true :=
    List.find?_isSome.2 ⟨p, hp, decide_eq_true rfl⟩
  obtain ⟨q, hq⟩ := Option.isSome_iff_exists.1 hfound
  have hid := List.find?_some hq
  have hsame : q = p :=
    List.inj_on_of_nodup_map hids (List.mem_of_find?_eq_some hq) hp (of_decide_eq_true hid)
  rw [period?, hq, hsame]

theorem period?_of_mem (h : m.check = .ok ()) {p : Period} (hp : p ∈ m.periods) :
    m.period? p.id = some p :=
  period?_eq_some_of_mem (nodup_periods_of_check h).1 hp

/-! ### The period before -/

theorem latestPeriod?_eq_getLast? (horders : (m.periods.map Period.order).Nodup) :
    m.latestPeriod? = m.timeline.getLast? :=
  Period.latest?_eq_getLast? (Period.perm_inOrder m.periods)
    (Period.pairwise_lt_inOrder_iff.2 horders)

/-- The periods of a lesser order are those that stand before. -/
theorem filter_timeline (horders : (m.periods.map Period.order).Nodup) {i : Nat} {p : Period}
    (hp : m.timeline[i]? = some p) :
    m.timeline.filter (fun q => q.order < p.order) = m.timeline.take i := by
  have hsorted : m.timeline.Pairwise fun q later => q.order < later.order :=
    Period.pairwise_lt_inOrder_iff.2 horders
  obtain ⟨hi, rfl⟩ := List.getElem?_eq_some_iff.1 hp
  have hsplit : m.timeline.take i ++ m.timeline[i] :: m.timeline.drop (i + 1) = m.timeline := by
    rw [List.getElem_cons_drop, List.take_append_drop]
  rw [← hsplit, List.pairwise_append, List.pairwise_cons] at hsorted
  obtain ⟨-, ⟨hlater, -⟩, hearlier⟩ := hsorted
  have hbefore : ∀ q ∈ m.timeline.take i, decide (q.order < m.timeline[i].order) = true :=
    fun q hq => decide_eq_true (hearlier q hq _ List.mem_cons_self)
  have hafter : ∀ q ∈ m.timeline[i] :: m.timeline.drop (i + 1),
      ¬ decide (q.order < m.timeline[i].order) = true := by
    intro q hq
    rw [decide_eq_true_iff]
    rcases List.mem_cons.1 hq with rfl | hq
    · exact Int.lt_irrefl _
    · have hlt := hlater q hq
      omega
  calc m.timeline.filter (fun q => q.order < m.timeline[i].order)
    _ = (m.timeline.take i ++ m.timeline[i] :: m.timeline.drop (i + 1)).filter
          (fun q => q.order < m.timeline[i].order) := by rw [hsplit]
    _ = m.timeline.take i := by
        rw [List.filter_append, List.filter_eq_self.2 hbefore, List.filter_eq_nil_iff.2 hafter,
          List.append_nil]

/-- The period before another one is the last of those that stand before it. -/
theorem periodBefore?_eq_getLast? (hids : (m.periods.map Period.id).Nodup)
    (horders : (m.periods.map Period.order).Nodup) {i : Nat} {p : Period}
    (hp : m.timeline[i]? = some p) : m.periodBefore? p.id = (m.timeline.take i).getLast? := by
  have hmem : p ∈ m.periods := mem_timeline.1 (List.mem_of_getElem? hp)
  have hperm := (Period.perm_inOrder m.periods).filter fun q => q.order < p.order
  rw [← timeline, filter_timeline horders hp] at hperm
  have hsorted : (m.timeline.take i).Pairwise fun q later => q.order < later.order :=
    (Period.pairwise_lt_inOrder_iff.2 horders).sublist (List.take_sublist i _)
  unfold periodBefore?
  rw [period?_eq_some_of_mem hids hmem]
  exact Period.latest?_eq_getLast? hperm hsorted

/-- The period before another one stands right before it on the timeline. -/
theorem periodBefore?_eq_getElem? (hids : (m.periods.map Period.id).Nodup)
    (horders : (m.periods.map Period.order).Nodup) {i : Nat} {p : Period}
    (hp : m.timeline[i]? = some p) :
    m.periodBefore? p.id = if i = 0 then none else m.timeline[i - 1]? := by
  have hi := (List.getElem?_eq_some_iff.1 hp).1
  rw [periodBefore?_eq_getLast? hids horders hp, List.getLast?_eq_getElem?, List.length_take,
    Nat.min_eq_left hi.le, List.getElem?_take]
  cases i with
  | zero => rfl
  | succ i => simp

theorem periodBefore?_eq_some (h : m.check = .ok ()) {i : Nat} {p q : Period}
    (hp : m.timeline[i]? = some p) (hq : m.periodBefore? p.id = some q) :
    ∃ j, i = j + 1 ∧ m.timeline[j]? = some q := by
  obtain ⟨hids, horders⟩ := nodup_periods_of_check h
  rw [periodBefore?_eq_getElem? hids horders hp] at hq
  cases i with
  | zero => cases hq
  | succ j => exact ⟨j, rfl, hq⟩

theorem periodBefore?_of_succ (h : m.check = .ok ()) {i : Nat} {p : Period}
    (hp : m.timeline[i + 1]? = some p) : m.periodBefore? p.id = m.timeline[i]? := by
  obtain ⟨hids, horders⟩ := nodup_periods_of_check h
  exact periodBefore?_eq_getElem? hids horders hp

/-- What the ledger of a model holds for an account at a position; zero where there is no period or
value. -/
def stored [Zero α] (m : Model α) (account : AccountId) (position : Int) : α :=
  match if 0 ≤ position then m.timeline[position.toNat]? else none with
  | some p => m.ledger.value ⟨account, p.id⟩
  | none => 0

theorem stored_of_getElem? [Zero α] {i : Nat} {p : Period} (h : m.timeline[i]? = some p)
    (account : AccountId) : m.stored account i = m.ledger.value ⟨account, p.id⟩ := by
  unfold stored
  rw [if_pos (Int.natCast_nonneg i), Int.toNat_natCast, h]

theorem stored_eq [Amount α] {plan : Plan α} (h : plan.timeline = m.timeline) :
    plan.stored m.ledger = m.stored := by
  obtain ⟨chart, timeline, settings, order⟩ := plan
  obtain rfl : timeline = m.timeline := h
  rfl

end Model

end ProForma
