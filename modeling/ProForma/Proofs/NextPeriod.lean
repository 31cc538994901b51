import Mathlib.Data.List.Perm.Subperm
import Mathlib.Data.Nat.Find
import Mathlib.Logic.Function.Basic
import ProForma.Forecast
import ProForma.Proofs.Outcome
import ProForma.Proofs.Timeline

/-!
# The next period

The names that a new period may get are all different, so as many of them as there are periods, and
one more, are enough to find one that is free; trying them without a bound ends there as well. The
new period comes after all others, unless one of them has the last order of all.
-/

namespace ProForma.Model

variable {α : Type} {m : Model α} {p : Period}

/-! ### Its name -/

theorem candidateId_zero_ne_succ (order : Int) (n : Nat) :
    candidateId order 0 ≠ candidateId order (n + 1) := by
  intro h
  have hlength := congrArg (fun id => id.text.length) h
  have hone : "_".length = 1 := rfl
  simp only [candidateId, String.length_append] at hlength
  omega

theorem candidateId_injective (order : Int) : Function.Injective (candidateId order) := by
  intro n k h
  cases n with
  | zero =>
      cases k with
      | zero => rfl
      | succ k => exact absurd h (candidateId_zero_ne_succ order k)
  | succ n =>
      cases k with
      | zero => exact absurd h.symm (candidateId_zero_ne_succ order n)
      | succ k =>
          have hdigits := (String.append_right_inj _).1 (congrArg PeriodId.text h)
          have hnumber := congrArg (fun digits => Nat.ofDigitChars 10 digits.toList 0) hdigits
          simpa [Nat.toString_eq_ofList_toDigits] using hnumber

/-- If every candidate were taken, there would be more periods than there are. -/
theorem exists_candidateId_ne (m : Model α) (order : Int) :
    ∃ n ≤ m.periods.length, ∀ q ∈ m.periods, q.id ≠ candidateId order n := by
  by_contra! htaken
  have hsubset : (List.range (m.periods.length + 1)).map (candidateId order) ⊆
      m.periods.map Period.id := by
    intro id hid
    obtain ⟨n, hn, rfl⟩ := List.mem_map.1 hid
    obtain ⟨q, hq, hsame⟩ := htaken n (Nat.le_of_lt_succ (List.mem_range.1 hn))
    exact List.mem_map.2 ⟨q, hq, hsame⟩
  have hnodup : ((List.range (m.periods.length + 1)).map (candidateId order)).Nodup :=
    List.nodup_range.map (candidateId_injective order)
  have hle := (hnodup.subperm hsubset).length_le
  rw [List.length_map, List.length_map, List.length_range] at hle
  omega

/-- Candidates are tried one after another, from the `k`th on, until one is the name of no period:
the `n`th. There is no bound on how long this may take. -/
inductive Tries (m : Model α) (order : Int) : Nat → Nat → Prop
  | free {k} (h : ∀ q ∈ m.periods, q.id ≠ candidateId order k) : Tries m order k k
  | taken {k n} (h : ∃ q ∈ m.periods, q.id = candidateId order k)
      (hrest : Tries m order (k + 1) n) : Tries m order k n

/-- The candidate that ends the trying is free, and those before it are taken. -/
structure FirstFree (m : Model α) (order : Int) (n : Nat) : Prop where
  free : ∀ q ∈ m.periods, q.id ≠ candidateId order n
  taken : ∀ k < n, ∃ q ∈ m.periods, q.id = candidateId order k

theorem exists_firstFree (m : Model α) (order : Int) :
    ∃ n ≤ m.periods.length, m.FirstFree order n := by
  obtain ⟨bound, hbound, hfree⟩ := m.exists_candidateId_ne order
  have hexists : ∃ n, ∀ q ∈ m.periods, q.id ≠ candidateId order n := ⟨bound, hfree⟩
  refine ⟨Nat.find hexists, (Nat.find_min' hexists hfree).trans hbound, Nat.find_spec hexists, ?_⟩
  intro k hk
  have htaken := Nat.find_min hexists hk
  push Not at htaken
  exact htaken

variable {order : Int} {n : Nat}

theorem FirstFree.unique {n' : Nat} (h : m.FirstFree order n) (h' : m.FirstFree order n') :
    n = n' := by
  rcases Nat.lt_trichotomy n n' with hlt | heq | hlt
  · obtain ⟨q, hq, hsame⟩ := h'.taken n hlt
    exact absurd hsame (h.free q hq)
  · exact heq
  · obtain ⟨q, hq, hsame⟩ := h.taken n' hlt
    exact absurd hsame (h'.free q hq)

theorem FirstFree.tries {k : Nat} (h : m.FirstFree order n) (hk : k ≤ n) :
    m.Tries order k n := by
  induction hk using Nat.decreasingInduction with
  | self => exact .free h.free
  | of_succ k hk ih => exact .taken (h.taken k hk) ih

theorem Tries.firstFree {k : Nat} (h : m.Tries order k n)
    (hbefore : ∀ j < k, ∃ q ∈ m.periods, q.id = candidateId order j) : m.FirstFree order n := by
  induction h with
  | free hfree => exact ⟨hfree, hbefore⟩
  | @taken k n htaken _ ih =>
      refine ih fun j hj => ?_
      rcases Nat.lt_succ_iff_lt_or_eq.1 hj with hlt | rfl
      · exact hbefore j hlt
      · exact htaken

theorem tries_iff_firstFree : m.Tries order 0 n ↔ m.FirstFree order n :=
  ⟨fun h => h.firstFree nofun, fun h => h.tries (Nat.zero_le n)⟩

/-- As many candidates as there are periods and one more are enough to find the first free one. -/
theorem FirstFree.freshId_eq (h : m.FirstFree order n) (hn : n ≤ m.periods.length) :
    m.freshId order = candidateId order n := by
  have hfound : (List.range (m.periods.length + 1)).find?
      ((fun id => m.periods.all (·.id ≠ id)) ∘ candidateId order) = some n := by
    refine List.find?_range_eq_some.2 ⟨?_, List.mem_range.2 (Nat.lt_succ_of_le hn), ?_⟩
    · exact List.all_eq_true.2 fun q hq => decide_eq_true (h.free q hq)
    · intro k hk
      obtain ⟨q, hq, hsame⟩ := h.taken k hk
      have hnot : ¬ m.periods.all (·.id ≠ candidateId order k) = true := fun hall =>
        of_decide_eq_true (List.all_eq_true.1 hall q hq) hsame
      simpa using hnot
  unfold freshId
  dsimp only
  rw [List.find?_map, hfound]
  rfl

theorem freshId_ne (m : Model α) (order : Int) : ∀ q ∈ m.periods, q.id ≠ m.freshId order := by
  obtain ⟨n, hn, hfirst⟩ := m.exists_firstFree order
  rw [hfirst.freshId_eq hn]
  exact hfirst.free

/-! ### Its place -/

theorem order_le_last {q last : Period} (hlast : m.timeline.getLast? = some last)
    (hq : q ∈ m.periods) : q.order ≤ last.order := by
  have hmem := mem_timeline.2 hq
  have hne : m.timeline ≠ [] := List.ne_nil_of_mem hmem
  have hsorted := Period.pairwise_inOrder m.periods
  rw [List.getLast?_eq_some_getLast hne] at hlast
  cases hlast
  obtain ⟨i, hi, rfl⟩ := List.mem_iff_getElem.1 hmem
  have hlast : m.timeline.length - 1 < m.timeline.length := by omega
  rw [List.getLast_eq_getElem]
  rcases Nat.lt_or_eq_of_le (Nat.le_sub_one_of_lt hi) with hlt | heq
  · exact List.pairwise_iff_getElem.1 hsorted i _ hi hlast hlt
  · simp only [heq, Int.le_refl]

/-- The last order is the greatest one. -/
theorem order_getLast?_timeline (m : Model α) :
    m.timeline.getLast?.map Period.order = (m.periods.map Period.order).max? := by
  rcases hlast : m.timeline.getLast? with _ | last
  · have hlength := congrArg List.length (List.getLast?_eq_none_iff.1 hlast)
    rw [length_timeline] at hlength
    rw [List.eq_nil_of_length_eq_zero hlength]
    rfl
  · have hmem := mem_timeline.1 (List.mem_of_getLast? hlast)
    refine (List.max?_eq_some_iff.2 ⟨List.mem_map_of_mem hmem, fun order horder => ?_⟩).symm
    obtain ⟨q, hq, rfl⟩ := List.mem_map.1 horder
    exact order_le_last hlast hq

/-- The greatest order that a period has; minus one without periods. -/
def latestOrder (m : Model α) : Int :=
  (m.periods.map Period.order).max?.getD (-1)

/-- The order of the next period. -/
def nextOrder (m : Model α) : Int :=
  Period.orderAfter m.latestOrder

/-- There are orders left for so many more periods. -/
def HasRoom (m : Model α) (n : Nat) : Prop :=
  m.latestOrder + n ≤ Period.greatestOrder

instance (m : Model α) (n : Nat) : Decidable (m.HasRoom n) := by
  unfold HasRoom; infer_instance

theorem HasRoom.mono {n k : Nat} (h : m.HasRoom n) (hk : k ≤ n) : m.HasRoom k := by
  unfold HasRoom at h ⊢
  omega

theorem order_le_latestOrder {q : Period} (hq : q ∈ m.periods) : q.order ≤ m.latestOrder := by
  have hmem := List.mem_map_of_mem (f := Period.order) hq
  obtain ⟨greatest, hgreatest⟩ := Option.isSome_iff_exists.1 (List.isSome_max?_of_mem hmem)
  rw [latestOrder, hgreatest]
  exact (List.max?_eq_some_iff.1 hgreatest).2 _ hmem

theorem latestOrder_eq (m : Model α) :
    m.latestOrder = -1 ∨ ∃ q ∈ m.periods, q.order = m.latestOrder := by
  unfold latestOrder
  rcases hgreatest : (m.periods.map Period.order).max? with _ | greatest
  · exact .inl rfl
  · exact .inr (List.mem_map.1 (List.max?_eq_some_iff.1 hgreatest).1)

/-- There is room for one more period if no period has the last order of all. -/
theorem hasRoom_one_iff : m.HasRoom 1 ↔ ∀ q ∈ m.periods, q.order < Period.greatestOrder := by
  unfold HasRoom
  constructor
  · intro h q hq
    have hle := order_le_latestOrder hq
    omega
  · intro h
    rcases m.latestOrder_eq with hnone | ⟨q, hq, hlatest⟩
    · rw [hnone]
      decide
    · have hlt := h q hq
      omega

theorem nextOrder_eq (hroom : m.HasRoom 1) : m.nextOrder = m.latestOrder + 1 := by
  have hne : m.latestOrder ≠ Period.greatestOrder := by
    unfold HasRoom at hroom
    omega
  rw [nextOrder, Period.orderAfter, if_neg hne]

theorem order_lt_nextOrder (hroom : m.HasRoom 1) {q : Period} (hq : q ∈ m.periods) :
    q.order < m.nextOrder := by
  rw [nextOrder_eq hroom]
  exact Int.lt_add_one_of_le (order_le_latestOrder hq)

/-- The next order is no greater than it has to be, so it is in range if the others are below the
end of it. -/
theorem nextOrder_le {bound : Int} (hbound : 0 ≤ bound) (h : ∀ q ∈ m.periods, q.order < bound) :
    m.nextOrder ≤ bound := by
  have hlatest : m.latestOrder < bound := by
    rcases m.latestOrder_eq with hnone | ⟨q, hq, hlatest⟩
    · omega
    · exact hlatest ▸ h q hq
  unfold nextOrder Period.orderAfter
  split <;> omega

/-- There is a next period unless the calendar ends before it does. -/
theorem upcomingPeriod_cases (m : Model α) :
    (∃ p, m.upcomingPeriod = .ok p ∧ p.isImported = false ∧ p.order = m.nextOrder ∧
      p.id = m.freshId m.nextOrder) ∨
    ∃ last finish, m.timeline.getLast? = some last ∧ last.finish = some finish ∧
      finish.advance? (cadence m.timeline finish) = none ∧
      m.upcomingPeriod =
        .error (.date (.cannotAdvance finish (cadence m.timeline finish))) := by
  have horder : m.timeline.getLast?.elim 0 (fun last => Period.orderAfter last.order) =
      m.nextOrder := by
    rw [nextOrder, latestOrder, ← order_getLast?_timeline]
    cases m.timeline.getLast? <;> rfl
  unfold upcomingPeriod
  dsimp only
  rw [horder]
  rcases hfinish : m.timeline.getLast?.bind Period.finish with _ | finish
  · exact .inl ⟨_, rfl, rfl, rfl, rfl⟩
  · obtain ⟨last, hlast, hfinish⟩ := Option.bind_eq_some_iff.1 hfinish
    dsimp only
    rcases hnext : finish.advance? (cadence m.timeline finish) with _ | next
    · exact .inr ⟨last, finish, hlast, hfinish, hnext, rfl⟩
    · exact .inl ⟨_, rfl, rfl, rfl, rfl⟩

/-- What the next period is, whatever it is called and whenever it ends. -/
structure Upcoming (m : Model α) (p : Period) : Prop where
  isImported : p.isImported = false
  order : p.order = m.nextOrder
  fresh : ∀ q ∈ m.periods, q.id ≠ p.id

theorem upcoming_of_upcomingPeriod (h : m.upcomingPeriod = .ok p) : m.Upcoming p := by
  rcases m.upcomingPeriod_cases with ⟨q, hq, himported, horder, hid⟩ | ⟨_, _, _, _, _, hfault⟩
  · rw [hq] at h
    cases h
    refine ⟨himported, horder, ?_⟩
    rw [hid]
    exact m.freshId_ne m.nextOrder
  · rw [hfault] at h
    cases h

/-- The only thing that can be wrong with the next period is its date. -/
theorem exists_date_of_upcomingPeriod {fault : Fault α} (h : m.upcomingPeriod = .error fault) :
    ∃ reason, fault = .date reason := by
  rcases m.upcomingPeriod_cases with ⟨q, hq, -⟩ | ⟨_, _, -, -, -, hfault⟩
  · rw [hq] at h
    cases h
  · rw [hfault] at h
    cases h
    exact ⟨_, rfl⟩

/-- The next period comes after all others. -/
structure Latest (m : Model α) (p : Period) : Prop extends m.Upcoming p where
  last : ∀ q ∈ m.periods, q.order < p.order

theorem Upcoming.latest (h : m.Upcoming p) (hroom : m.HasRoom 1) : m.Latest p where
  toUpcoming := h
  last q hq := by
    rw [h.order]
    exact order_lt_nextOrder hroom hq

theorem Latest.timeline (h : m.Latest p) :
    ({ m with periods := m.periods ++ [p] } : Model α).timeline = m.timeline ++ [p] :=
  Period.inOrder_concat fun q hq => Int.le_of_lt (h.last q hq)

/-- **A name that is free, and the last place.** Whatever the periods are called, trying one name
after another ends, with one name only and after no more further tries than there are periods. The
name is free and those before it are taken. The next period gets this name, unless the calendar ends
before the period does. As long as no period has the last order of all, it gets the least order
above all others, which without periods is zero. -/
theorem upcomingPeriod_named (m : Model α) :
    ∃ n ≤ m.periods.length,
      (∀ k, m.Tries m.nextOrder 0 k ↔ k = n) ∧
      (∀ q ∈ m.periods, q.id ≠ candidateId m.nextOrder n) ∧
      (∀ k < n, ∃ q ∈ m.periods, q.id = candidateId m.nextOrder k) ∧
      ((∀ q ∈ m.periods, q.order < Period.greatestOrder) →
        m.nextOrder = (m.periods.map Period.order).max?.elim 0 (· + 1) ∧
        ∀ q ∈ m.periods, q.order < m.nextOrder) ∧
      (∀ bound, 0 ≤ bound → (∀ q ∈ m.periods, q.order < bound) → m.nextOrder ≤ bound) ∧
      m.freshId m.nextOrder = candidateId m.nextOrder n ∧
      ((∃ p, m.upcomingPeriod = .ok p ∧ p.order = m.nextOrder ∧
          p.id = candidateId m.nextOrder n) ∨
        ∃ last finish, m.timeline.getLast? = some last ∧ last.finish = some finish ∧
          finish.advance? (cadence m.timeline finish) = none ∧
          m.upcomingPeriod =
            .error (.date (.cannotAdvance finish (cadence m.timeline finish)))) := by
  obtain ⟨n, hn, hfirst⟩ := m.exists_firstFree m.nextOrder
  have hid := hfirst.freshId_eq hn
  refine ⟨n, hn, fun k => ⟨fun hk => ?_, ?_⟩, hfirst.free, hfirst.taken,
    fun horders => ?_, fun bound => nextOrder_le, hid, ?_⟩
  · exact (tries_iff_firstFree.1 hk).unique hfirst
  · rintro rfl
    exact tries_iff_firstFree.2 hfirst
  · have hroom := hasRoom_one_iff.2 horders
    refine ⟨?_, fun q hq => order_lt_nextOrder hroom hq⟩
    rw [nextOrder_eq hroom, latestOrder]
    cases (m.periods.map Period.order).max? <;> rfl
  · rw [← hid]
    exact m.upcomingPeriod_cases.imp_left fun ⟨p, hp, _, horder, hname⟩ => ⟨p, hp, horder, hname⟩

/-- A studio where the first two names for the next period are taken, one of them twice, and a later
one is as well. -/
def studio : Model Float where
  name := "Studio"
  accounts := []
  periods := [.plain ⟨"P5_1"⟩ 4, .plain ⟨"P5"⟩ (-2), .plain ⟨"P5_3"⟩ 0, .plain ⟨"P5_1"⟩ 4]
  ledger := .empty
  settings := .standard

theorem upcomingPeriod_named_studio :
    (∀ q ∈ studio.periods, q.order < Period.greatestOrder) ∧
    studio.Tries studio.nextOrder 0 2 ∧ (∀ q ∈ studio.periods, q.order < studio.nextOrder) ∧
    ∃ p, studio.upcomingPeriod = .ok p ∧ p.order = 5 ∧ p.id = ⟨"P5_2"⟩ := by
  have horders : ∀ q ∈ studio.periods, q.order < Period.greatestOrder := by decide +kernel
  have htwice : studio.Tries studio.nextOrder 0 2 :=
    .taken (by decide +kernel) (.taken (by decide +kernel) (.free (by decide +kernel)))
  obtain ⟨n, -, htries, -, -, hplace, -, -, hnamed⟩ := upcomingPeriod_named studio
  obtain rfl : 2 = n := (htries 2).1 htwice
  refine ⟨horders, htwice, (hplace horders).2, ?_⟩
  rcases hnamed with ⟨p, hp, horder, hid⟩ | ⟨last, finish, hlast, hfinish, -⟩
  · exact ⟨p, hp, horder.trans (hplace horders).1, hid.trans (by decide +kernel)⟩
  · have hopen : ∀ q ∈ studio.periods, q.finish = none := by decide
    rw [hopen last (mem_timeline.1 (List.mem_of_getLast? hlast))] at hfinish
    cases hfinish

end ProForma.Model
