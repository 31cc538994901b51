import Mathlib.Data.List.Perm.Subperm
import Mathlib.Logic.Function.Basic
import ProForma.Proofs.Precedence.Links

/-!
# The order of computation

The order is found by a depth-first search that marks the accounts it is on the way to and the
accounts it has placed. The search is written down here as a relation between where it starts and
where it ends, with no bound on its depth, and it always ends. It ends with an order in which every
node comes after what it waits for, or with an account on a cycle.

What carries the second half is that the accounts marked as waiting are a path to the accounts that
are visited next: coming back to one of them closes a cycle through it.
-/

namespace ProForma.Precedence

open Relation

inductive Mark where
  /-- The search is on the way from this account. -/
  | waiting
  /-- The account stands in the order. -/
  | placed
deriving DecidableEq

structure Search where
  mark : AccountId → Option Mark
  order : List AccountId

namespace Search

def start : Search := ⟨fun _ => none, []⟩

def enter (s : Search) (id : AccountId) : Search :=
  { s with mark := Function.update s.mark id (some .waiting) }

def leave (s : Search) (id : AccountId) : Search :=
  { mark := Function.update s.mark id (some .placed), order := s.order ++ [id] }

end Search

/-- Searching from a list of accounts, one after another, ends in a new state or at an account that
is waiting already. -/
inductive Searches (g : Precedence) : Search → List AccountId → Except AccountId Search → Prop
  | done {s} : Searches g s [] (.ok s)
  | skip {s id ids outcome} (hmark : s.mark id = some .placed) (hrest : Searches g s ids outcome) :
      Searches g s (id :: ids) outcome
  | close {s id ids} (hmark : s.mark id = some .waiting) : Searches g s (id :: ids) (.error id)
  | place {s id ids inner outcome} (hmark : s.mark id = none)
      (hinner : Searches g (s.enter id) (g.successors id) (.ok inner))
      (hrest : Searches g (inner.leave id) ids outcome) : Searches g s (id :: ids) outcome
  | fail {s id ids c} (hmark : s.mark id = none)
      (hinner : Searches g (s.enter id) (g.successors id) (.error c)) :
      Searches g s (id :: ids) (.error c)

variable {g : Precedence}

/-! ### The search ends -/

/-- The marks of a search say the same as two lists: the accounts on the way and those placed. -/
structure Search.Shows (s : Search) (waiting placed : List AccountId) : Prop where
  order : s.order = placed
  waiting_iff : ∀ id, s.mark id = some .waiting ↔ id ∈ waiting
  placed_iff : ∀ id, s.mark id = some .placed ↔ id ∈ placed

theorem Search.shows_start : Search.start.Shows [] [] :=
  ⟨rfl, by simp [start], by simp [start]⟩

theorem Search.Shows.enter {s : Search} {waiting placed : List AccountId} {id : AccountId}
    (h : s.Shows waiting placed) (hmark : s.mark id = none) :
    (s.enter id).Shows (id :: waiting) placed := by
  have hnew : id ∉ placed := by
    rw [← h.placed_iff, hmark]
    simp
  refine ⟨h.order, fun x => ?_, fun x => ?_⟩
  · by_cases hx : x = id
    · simp [Search.enter, hx]
    · simp [Search.enter, hx, h.waiting_iff]
  · by_cases hx : x = id
    · simp [Search.enter, hx, hnew]
    · simp [Search.enter, hx, h.placed_iff]

theorem Search.Shows.leave {s : Search} {waiting placed : List AccountId} {id : AccountId}
    (h : s.Shows (id :: waiting) placed) (hnew : id ∉ waiting) :
    (s.leave id).Shows waiting (placed ++ [id]) := by
  refine ⟨by rw [Search.leave, h.order], fun x => ?_, fun x => ?_⟩
  · by_cases hx : x = id
    · simp [Search.leave, hx, hnew]
    · simp [Search.leave, hx, h.waiting_iff]
  · by_cases hx : x = id
    · simp [Search.leave, hx]
    · simp [Search.leave, hx, h.placed_iff]

/-- The accounts on the way are distinct nodes, so a search that has gone down one step for each of
them has at most as many steps left as there are other nodes. -/
theorem exists_searches_visit (fuel : Nat) (waiting : List AccountId)
    (hfuel : g.nodes.length < fuel + waiting.length) (hdistinct : waiting.Nodup)
    (hwaiting : waiting ⊆ g.nodes) (ids : List AccountId) (hids : ids ⊆ g.nodes)
    (s : Search) (placed : List AccountId) (hs : s.Shows waiting placed) :
    ∃ outcome, g.Searches s ids outcome ∧
      outcome.map Search.order = ids.foldlM (g.visit fuel waiting) placed ∧
      ∀ s', outcome = .ok s' → s'.Shows waiting s'.order := by
  induction fuel generalizing waiting ids s placed with
  | zero =>
      have hle : waiting.length ≤ g.nodes.length := (hdistinct.subperm hwaiting).length_le
      omega
  | succ fuel ihfuel =>
      induction ids generalizing s placed with
      | nil =>
          refine ⟨.ok s, .done, by rw [← hs.order]; rfl, fun s' hs' => ?_⟩
          cases hs'
          exact hs.order ▸ hs
      | cons id ids ihids =>
          have hid : id ∈ g.nodes := hids List.mem_cons_self
          have hrest : ids ⊆ g.nodes := fun x hx => hids (List.mem_cons_of_mem _ hx)
          rw [List.foldlM_cons]
          match hmark : s.mark id with
          | some .placed =>
              have hplaced : id ∈ placed := (hs.placed_iff id).1 hmark
              obtain ⟨outcome, hsearch, hmap, hshows⟩ := ihids hrest s placed hs
              refine ⟨outcome, .skip hmark hsearch, ?_, hshows⟩
              rw [visit, if_pos hplaced, hmap]
              rfl
          | some .waiting =>
              have hwait : id ∈ waiting := (hs.waiting_iff id).1 hmark
              have hplaced : id ∉ placed := by
                rw [← hs.placed_iff, hmark]
                simp
              refine ⟨.error id, .close hmark, ?_, nofun⟩
              rw [visit, if_neg hplaced, if_pos hwait]
              rfl
          | none =>
              have hplaced : id ∉ placed := by
                rw [← hs.placed_iff, hmark]
                simp
              have hwait : id ∉ waiting := by
                rw [← hs.waiting_iff, hmark]
                simp
              have hsuccessors : g.successors id ⊆ g.nodes := by
                intro x hx
                exact of_decide_eq_true (List.mem_filter.1 hx).2
              obtain ⟨inner, hinner, hmap, hshows⟩ :=
                ihfuel (id :: waiting) (by rw [List.length_cons]; omega)
                  (List.nodup_cons.2 ⟨hwait, hdistinct⟩) (List.cons_subset.2 ⟨hid, hwaiting⟩)
                  (g.successors id) hsuccessors (s.enter id) placed (hs.enter hmark)
              rw [visit, if_neg hplaced, if_neg hwait, ← hmap]
              cases inner with
              | error c => exact ⟨.error c, .fail hmark hinner, rfl, nofun⟩
              | ok inner =>
                  have hleft := (hshows inner rfl).leave hwait
                  obtain ⟨outcome, hsearch, hmap', hshows'⟩ :=
                    ihids hrest (inner.leave id) (inner.order ++ [id]) hleft
                  exact ⟨outcome, .place hmark hinner hsearch, hmap', hshows'⟩

/-- The search over all nodes ends, and the order is what it ends with. -/
theorem exists_searches_order (g : Precedence) :
    ∃ outcome, g.Searches .start g.nodes outcome ∧ outcome.map Search.order = g.order := by
  obtain ⟨outcome, hsearch, hmap, -⟩ :=
    exists_searches_visit (g.nodes.length + 1) [] (by simp) List.nodup_nil (List.nil_subset _)
      g.nodes (List.Subset.refl _) .start [] Search.shows_start
  exact ⟨outcome, hsearch, hmap⟩

/-! ### What it ends with -/

/-- A list of distinct nodes, each after the nodes that it waits for. -/
structure Sorted (g : Precedence) (order : List AccountId) : Prop where
  nodup : order.Nodup
  subset : order ⊆ g.nodes
  before : ∀ source ∈ order, ∀ target, g.Waits source target →
    target ∈ order ∧ order.idxOf target < order.idxOf source

theorem Sorted.concat {order : List AccountId} {id : AccountId} (h : g.Sorted order)
    (hid : id ∈ g.nodes) (hnew : id ∉ order) (hsuccessors : ∀ x, g.Waits id x → x ∈ order) :
    g.Sorted (order ++ [id]) := by
  refine ⟨?_, ?_, fun source hsource target hwaits => ?_⟩
  · rw [List.nodup_append]
    refine ⟨h.nodup, List.nodup_singleton id, fun x hx y hy heq => hnew ?_⟩
    rwa [← List.mem_singleton.1 hy, ← heq]
  · exact List.append_subset.2 ⟨h.subset, List.cons_subset.2 ⟨hid, List.nil_subset _⟩⟩
  · rcases List.mem_append.1 hsource with hsource | hsource
    · obtain ⟨htarget, hlt⟩ := h.before source hsource target hwaits
      refine ⟨List.mem_append_left _ htarget, ?_⟩
      rw [List.idxOf_append_of_mem htarget, List.idxOf_append_of_mem hsource]
      exact hlt
    · obtain rfl := List.mem_singleton.1 hsource
      have htarget := hsuccessors target hwaits
      refine ⟨List.mem_append_left _ htarget, ?_⟩
      rw [List.idxOf_append_of_mem htarget, List.idxOf_append_of_notMem hnew]
      have hlt := List.idxOf_lt_length_of_mem htarget
      omega

/-- What is placed is sorted, and it is what is marked so. -/
structure Search.Sound (g : Precedence) (s : Search) : Prop where
  sorted : g.Sorted s.order
  placed_iff : ∀ id, s.mark id = some .placed ↔ id ∈ s.order

/-- What a search leaves as it was: the accounts placed before it, and those on the way to it. -/
structure Search.Extends (s s' : Search) : Prop where
  order : s.order ⊆ s'.order
  waiting_iff : ∀ id, s'.mark id = some .waiting ↔ s.mark id = some .waiting

theorem Search.Extends.trans {s₁ s₂ s₃ : Search} (h : s₁.Extends s₂) (h' : s₂.Extends s₃) :
    s₁.Extends s₃ :=
  ⟨List.Subset.trans h.order h'.order, fun id => (h'.waiting_iff id).trans (h.waiting_iff id)⟩

theorem Search.Sound.enter {s : Search} {id : AccountId} (h : s.Sound g)
    (hmark : s.mark id = none) : (s.enter id).Sound g := by
  refine ⟨h.sorted, fun x => ?_⟩
  have hnew : id ∉ s.order := by
    rw [← h.placed_iff, hmark]
    simp
  by_cases hx : x = id
  · simp [Search.enter, hx, hnew]
  · simp [Search.enter, hx, h.placed_iff]

theorem Search.Sound.leave {s : Search} {id : AccountId} (h : s.Sound g) (hid : id ∈ g.nodes)
    (hmark : s.mark id = some .waiting) (hsuccessors : ∀ x, g.Waits id x → x ∈ s.order) :
    (s.leave id).Sound g := by
  have hnew : id ∉ s.order := by
    rw [← h.placed_iff, hmark]
    simp
  refine ⟨h.sorted.concat hid hnew hsuccessors, fun x => ?_⟩
  by_cases hx : x = id
  · simp [Search.leave, hx]
  · simp [Search.leave, hx, h.placed_iff]

/-- Going through one account and coming back changes no mark of an account on the way. -/
theorem Search.extends_leave {s inner : Search} {id : AccountId} (hmark : s.mark id = none)
    (h : (s.enter id).Extends inner) : s.Extends (inner.leave id) := by
  refine ⟨fun x hx => List.mem_append_left _ (h.order hx), fun x => ?_⟩
  by_cases hx : x = id
  · simp [Search.leave, hx, hmark]
  · have hinner := h.waiting_iff x
    simp only [Search.enter, Function.update_of_ne hx] at hinner
    simpa [Search.leave, hx] using hinner

/-- Going down from an account, the accounts on the way end with it, one link before what it waits
for. -/
theorem Search.path_enter {s : Search} {id : AccountId}
    (hpath : ∀ w, s.mark w = some .waiting → TransGen g.Waits w id) {w x : AccountId}
    (hw : (s.enter id).mark w = some .waiting) (hx : g.Waits id x) : TransGen g.Waits w x := by
  by_cases hwid : w = id
  · exact .single (hwid ▸ hx)
  · simp only [Search.enter, Function.update_of_ne hwid] at hw
    exact (hpath w hw).tail hx

/-- A search from accounts that all accounts on the way lead to ends with these accounts placed, or
at an account on a cycle. -/
theorem Searches.outcome (hnodes : g.nodes.Nodup) {s : Search} {ids : List AccountId}
    {outcome : Except AccountId Search} (h : g.Searches s ids outcome) (hs : s.Sound g)
    (hids : ids ⊆ g.nodes)
    (hpath : ∀ w, s.mark w = some .waiting → ∀ id ∈ ids, TransGen g.Waits w id) :
    (∀ s', outcome = .ok s' → s'.Sound g ∧ s.Extends s' ∧ ids ⊆ s'.order) ∧
      ∀ c, outcome = .error c → g.OnCycle c := by
  induction h with
  | done =>
      refine ⟨fun s' hs' => ?_, nofun⟩
      cases hs'
      exact ⟨hs, ⟨List.Subset.refl _, fun _ => Iff.rfl⟩, List.nil_subset _⟩
  | @skip s id ids outcome hmark _ ih =>
      obtain ⟨hok, herror⟩ := ih hs (fun x hx => hids (List.mem_cons_of_mem _ hx))
        fun w hw x hx => hpath w hw x (List.mem_cons_of_mem _ hx)
      refine ⟨fun s' hs' => ?_, herror⟩
      obtain ⟨hsound, hextends, hplaced⟩ := hok s' hs'
      have hid : id ∈ s'.order := hextends.order ((hs.placed_iff id).1 hmark)
      exact ⟨hsound, hextends, List.cons_subset.2 ⟨hid, hplaced⟩⟩
  | @close s id ids hmark =>
      refine ⟨nofun, fun c hc => ?_⟩
      cases hc
      exact hpath id hmark id List.mem_cons_self
  | @place s id ids inner outcome hmark _ _ ihinner ihrest =>
      have hid : id ∈ g.nodes := hids List.mem_cons_self
      have hsuccessor : ∀ x, x ∈ g.successors id ↔ g.Waits id x := fun x => mem_successors hnodes
      have hdown := ihinner (hs.enter hmark) (fun x hx => ((hsuccessor x).1 hx).2)
        fun w hw x hx => Search.path_enter (fun w hw => hpath w hw id List.mem_cons_self) hw
          ((hsuccessor x).1 hx)
      obtain ⟨hsound, hextends, hplaced⟩ := hdown.1 inner rfl
      have hwaiting : inner.mark id = some .waiting :=
        (hextends.waiting_iff id).2 (by simp [Search.enter])
      have hleft := Search.extends_leave hmark hextends
      obtain ⟨hok, herror⟩ :=
        ihrest (hsound.leave hid hwaiting fun x hx => hplaced ((hsuccessor x).2 hx))
          (fun x hx => hids (List.mem_cons_of_mem _ hx))
          fun w hw x hx => hpath w ((hleft.waiting_iff w).1 hw) x (List.mem_cons_of_mem _ hx)
      refine ⟨fun s' hs' => ?_, herror⟩
      obtain ⟨hsound', hextends', hplaced'⟩ := hok s' hs'
      have hidplaced : id ∈ s'.order := hextends'.order (by simp [Search.leave])
      exact ⟨hsound', hleft.trans hextends', List.cons_subset.2 ⟨hidplaced, hplaced'⟩⟩
  | @fail s id ids c hmark _ ihinner =>
      have hsuccessor : ∀ x, x ∈ g.successors id ↔ g.Waits id x := fun x => mem_successors hnodes
      refine ⟨nofun, fun c' hc => ?_⟩
      cases hc
      have hdown := ihinner (hs.enter hmark) (fun x hx => ((hsuccessor x).1 hx).2)
        fun w hw x hx => Search.path_enter (fun w hw => hpath w hw id List.mem_cons_self) hw
          ((hsuccessor x).1 hx)
      exact hdown.2 c rfl

theorem Search.sound_start : Search.start.Sound g :=
  ⟨⟨List.nodup_nil, List.nil_subset _, by simp [start]⟩, by simp [start]⟩

theorem searches_nodes_outcome (hnodes : g.nodes.Nodup) {outcome : Except AccountId Search}
    (h : g.Searches .start g.nodes outcome) :
    (∀ s, outcome = .ok s → g.Sorted s.order ∧ g.nodes ⊆ s.order) ∧
      ∀ c, outcome = .error c → g.OnCycle c := by
  obtain ⟨hok, herror⟩ := h.outcome hnodes Search.sound_start (List.Subset.refl _)
    fun w hw => by simp [Search.start] at hw
  refine ⟨fun s hs => ?_, herror⟩
  obtain ⟨hsound, -, hplaced⟩ := hok s hs
  exact ⟨hsound.sorted, hplaced⟩

theorem sorted_of_order (hnodes : g.nodes.Nodup) {order : List AccountId}
    (h : g.order = .ok order) : g.Sorted order ∧ g.nodes ⊆ order := by
  obtain ⟨outcome, hsearch, hmap⟩ := exists_searches_order g
  rw [h] at hmap
  cases outcome with
  | error c => cases hmap
  | ok s =>
      cases hmap
      exact (searches_nodes_outcome hnodes hsearch).1 s rfl

theorem onCycle_of_order (hnodes : g.nodes.Nodup) {id : AccountId} (h : g.order = .error id) :
    g.OnCycle id := by
  obtain ⟨outcome, hsearch, hmap⟩ := exists_searches_order g
  rw [h] at hmap
  cases outcome with
  | error c =>
      cases hmap
      exact (searches_nodes_outcome hnodes hsearch).2 _ rfl
  | ok s => cases hmap

/-! ### Orders and cycles -/

theorem Sorted.idxOf_lt {order : List AccountId} (h : g.Sorted order) {source target : AccountId}
    (hsource : source ∈ order) (hpath : TransGen g.Waits source target) :
    target ∈ order ∧ order.idxOf target < order.idxOf source := by
  induction hpath with
  | single hwaits => exact h.before source hsource _ hwaits
  | tail _ hwaits ih =>
      obtain ⟨hmem, hlt⟩ := h.before _ ih.1 _ hwaits
      exact ⟨hmem, Nat.lt_trans hlt ih.2⟩

theorem Sorted.not_onCycle {order : List AccountId} (h : g.Sorted order) (hall : g.nodes ⊆ order)
    (id : AccountId) : ¬g.OnCycle id := by
  intro hcycle
  obtain ⟨next, hfirst, -⟩ := TransGen.head'_iff.1 hcycle
  have hid : id ∈ order := hall hfirst.source_mem
  exact Nat.lt_irrefl _ (h.idxOf_lt hid hcycle).2

theorem order_isOk_iff (hnodes : g.nodes.Nodup) :
    (∃ order, g.order = .ok order) ↔ ∀ id, ¬g.OnCycle id := by
  constructor
  · rintro ⟨order, horder⟩
    obtain ⟨hsorted, hall⟩ := sorted_of_order hnodes horder
    exact hsorted.not_onCycle hall
  · intro hacyclic
    cases horder : g.order with
    | ok order => exact ⟨order, rfl⟩
    | error id => exact absurd (onCycle_of_order hnodes horder) (hacyclic id)

/-- Whatever mentions built the graph up, the search for an order ends, and the order is what it
ends with. An order lists every node once and nothing else, and along every link to a node the
target comes strictly before the source. -/
theorem order_ends_sorted (mentions : List Mention) :
    (∃ outcome, (ofMentions mentions).Searches .start (ofMentions mentions).nodes outcome ∧
      outcome.map Search.order = (ofMentions mentions).order) ∧
    ∀ order, (ofMentions mentions).order = .ok order →
      order.Nodup ∧ (∀ id, id ∈ order ↔ id ∈ (ofMentions mentions).nodes) ∧
        ∀ source target, (source, target) ∈ (ofMentions mentions).links →
          target ∈ (ofMentions mentions).nodes → order.idxOf target < order.idxOf source := by
  refine ⟨exists_searches_order _, fun order horder => ?_⟩
  obtain ⟨hsorted, hall⟩ := sorted_of_order (nodup_nodes_ofMentions mentions) horder
  refine ⟨hsorted.nodup, fun id => ⟨fun hid => hsorted.subset hid, fun hid => hall hid⟩, ?_⟩
  intro source target hlink htarget
  have hsource : source ∈ order := hall (mem_nodes_of_mem_links hlink)
  exact (hsorted.before source hsource target ⟨hlink, htarget⟩).2

/-- Profit waits for revenue and cost; cost waits for revenue and for an account that is no node.
Cash stands alone. -/
def profitMentions : List Mention :=
  [.node ⟨"profit"⟩, .link ⟨"profit"⟩ ⟨"revenue"⟩, .link ⟨"profit"⟩ ⟨"cost"⟩,
    .link ⟨"cost"⟩ ⟨"revenue"⟩, .link ⟨"cost"⟩ ⟨"ghost"⟩, .node ⟨"revenue"⟩, .node ⟨"cash"⟩]

def profitOrder : List AccountId :=
  [⟨"revenue"⟩, ⟨"cost"⟩, ⟨"profit"⟩, ⟨"cash"⟩]

theorem order_profitMentions :
    (ofMentions profitMentions).order = .ok profitOrder ∧
    (⟨"profit"⟩, ⟨"cost"⟩) ∈ (ofMentions profitMentions).links ∧
    ⟨"cost"⟩ ∈ (ofMentions profitMentions).nodes ∧
    profitOrder.idxOf ⟨"cost"⟩ < profitOrder.idxOf ⟨"profit"⟩ := by
  have horder : (ofMentions profitMentions).order = .ok profitOrder := by decide
  have hlink : (⟨"profit"⟩, ⟨"cost"⟩) ∈ (ofMentions profitMentions).links := by decide
  have hnode : ⟨"cost"⟩ ∈ (ofMentions profitMentions).nodes := by decide
  exact ⟨horder, hlink, hnode,
    ((order_ends_sorted profitMentions).2 _ horder).2.2 _ _ hlink hnode⟩

/-- There is no order exactly if some node is on a cycle of links between nodes, and the account
that is given in place of an order is on one. -/
theorem order_fails_iff_onCycle (mentions : List Mention) :
    ((∃ id, (ofMentions mentions).order = .error id) ↔ ∃ id, (ofMentions mentions).OnCycle id) ∧
    ∀ id, (ofMentions mentions).order = .error id → (ofMentions mentions).OnCycle id := by
  have hnodes := nodup_nodes_ofMentions mentions
  refine ⟨⟨?_, ?_⟩, fun id => onCycle_of_order hnodes⟩
  · rintro ⟨id, hid⟩
    exact ⟨id, onCycle_of_order hnodes hid⟩
  · rintro ⟨id, hcycle⟩
    cases horder : (ofMentions mentions).order with
    | error c => exact ⟨c, rfl⟩
    | ok order => exact absurd hcycle ((order_isOk_iff hnodes).1 ⟨order, horder⟩ id)

/-- A total leads into a cycle of cost and tax. The search starts there and names the cost. -/
theorem onCycle_cost :
    (ofMentions [.link ⟨"total"⟩ ⟨"cost"⟩, .link ⟨"cost"⟩ ⟨"tax"⟩,
      .link ⟨"tax"⟩ ⟨"cost"⟩]).order = .error ⟨"cost"⟩ ∧
    (ofMentions [.link ⟨"total"⟩ ⟨"cost"⟩, .link ⟨"cost"⟩ ⟨"tax"⟩,
      .link ⟨"tax"⟩ ⟨"cost"⟩]).OnCycle ⟨"cost"⟩ := by
  have horder : (ofMentions [.link ⟨"total"⟩ ⟨"cost"⟩, .link ⟨"cost"⟩ ⟨"tax"⟩,
      .link ⟨"tax"⟩ ⟨"cost"⟩]).order = .error ⟨"cost"⟩ := by decide
  exact ⟨horder, (order_fails_iff_onCycle _).2 _ horder⟩

end ProForma.Precedence
