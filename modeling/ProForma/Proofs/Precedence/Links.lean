import Mathlib.Data.List.Induction
import Mathlib.Data.List.Nodup
import Mathlib.Logic.Relation
import ProForma.Precedence

/-!
# What a graph of waiting accounts holds

A graph is built up by mentioning accounts and links between them. Whatever the mentions and their
order, each account is a node once, and the links of the graph are the links that were mentioned.
-/

namespace ProForma.Precedence

/-- One step in building up a graph. -/
inductive Mention where
  | node (id : AccountId)
  | link (source target : AccountId)
deriving DecidableEq

/-- The account that a step is about: it is a node from then on. -/
def Mention.subject : Mention → AccountId
  | .node id => id
  | .link source _ => source

def mention (g : Precedence) : Mention → Precedence
  | .node id => g.insertNode id
  | .link source target => g.insertLink source target

/-- The graph that a sequence of mentions builds up. -/
def ofMentions (mentions : List Mention) : Precedence :=
  mentions.foldl mention empty

/-- The source waits for the target, and the target is a node. -/
def Waits (g : Precedence) (source target : AccountId) : Prop :=
  (source, target) ∈ g.links ∧ target ∈ g.nodes

/-- Following links between nodes leads from the account back to it. -/
def OnCycle (g : Precedence) (id : AccountId) : Prop :=
  Relation.TransGen g.Waits id id

/-! ### Nodes -/

theorem nodes_insertNode (g : Precedence) (id : AccountId) :
    (g.insertNode id).nodes = if id ∈ g.nodes then g.nodes else g.nodes ++ [id] := by
  unfold insertNode hasNode
  by_cases h : id ∈ g.nodes
  · simp [h]
  · simp only [h, decide_false, Bool.false_eq_true, ↓reduceIte]
    simp [nodes]

theorem nodes_insertLink (g : Precedence) (source target : AccountId) :
    (g.insertLink source target).nodes = (g.insertNode source).nodes := by
  unfold insertLink nodes
  rw [List.map_map]
  refine List.map_congr_left fun entry _ => ?_
  simp only [Function.comp_apply]
  split <;> rfl

theorem mem_nodes_insertNode {g : Precedence} {id x : AccountId} :
    x ∈ (g.insertNode id).nodes ↔ x ∈ g.nodes ∨ x = id := by
  rw [nodes_insertNode]
  split
  · rename_i h
    constructor
    · exact .inl
    · rintro (hx | rfl)
      · exact hx
      · exact h
  · simp

theorem nodes_mention (g : Precedence) (m : Mention) :
    (g.mention m).nodes = if m.subject ∈ g.nodes then g.nodes else g.nodes ++ [m.subject] := by
  cases m with
  | node id => exact nodes_insertNode g id
  | link source target => exact (nodes_insertLink g source target).trans (nodes_insertNode g source)

theorem eraseDups_concat (ids : List AccountId) (id : AccountId) :
    (ids ++ [id]).eraseDups = if id ∈ ids then ids.eraseDups else ids.eraseDups ++ [id] := by
  rw [List.eraseDups_append]
  split
  · rename_i h
    simp [List.removeAll, h]
  · rename_i h
    simp [List.removeAll, h, List.eraseDups_cons]

theorem nodup_eraseDups (ids : List AccountId) : ids.eraseDups.Nodup := by
  induction ids using List.reverseRecOn with
  | nil => exact List.nodup_nil
  | append_singleton ids id ih =>
      rw [eraseDups_concat]
      split
      · exact ih
      · rename_i hnew
        rw [← List.concat_eq_append, List.nodup_concat, List.mem_eraseDups]
        exact ⟨hnew, ih⟩

theorem eraseDups_eq_self {ids : List AccountId} (h : ids.Nodup) : ids.eraseDups = ids := by
  induction ids using List.reverseRecOn with
  | nil => rfl
  | append_singleton ids id ih =>
      rw [← List.concat_eq_append, List.nodup_concat] at h
      rw [eraseDups_concat, if_neg h.1, ih h.2]

/-- The nodes are the accounts that the mentions are about, in order of their first mention. -/
theorem nodes_ofMentions (mentions : List Mention) :
    (ofMentions mentions).nodes = (mentions.map Mention.subject).eraseDups := by
  induction mentions using List.reverseRecOn with
  | nil => rfl
  | append_singleton mentions m ih =>
      have hgrown : ofMentions (mentions ++ [m]) = (ofMentions mentions).mention m :=
        List.foldl_append
      rw [hgrown, nodes_mention, ih, List.map_append, List.map_singleton, eraseDups_concat]
      simp only [List.mem_eraseDups]

theorem nodup_nodes_ofMentions (mentions : List Mention) : (ofMentions mentions).nodes.Nodup := by
  rw [nodes_ofMentions]
  exact nodup_eraseDups _

theorem mem_nodes_ofMentions {mentions : List Mention} {id : AccountId} :
    id ∈ (ofMentions mentions).nodes ↔
      .node id ∈ mentions ∨ ∃ target, .link id target ∈ mentions := by
  rw [nodes_ofMentions, List.mem_eraseDups, List.mem_map]
  constructor
  · rintro ⟨m | ⟨source, target⟩, hm, rfl⟩
    · exact .inl hm
    · exact .inr ⟨target, hm⟩
  · rintro (hm | ⟨target, hm⟩)
    · exact ⟨_, hm, rfl⟩
    · exact ⟨_, hm, rfl⟩

/-! ### What a node waits for -/

/-- What a step makes an account wait for. -/
def Mention.target? (source : AccountId) : Mention → Option AccountId
  | .node _ => none
  | .link s target => if s = source then some target else none

theorem Mention.target?_eq_some {source target : AccountId} {m : Mention} :
    m.target? source = some target ↔ m = .link source target := by
  cases m with
  | node _ => simp [target?]
  | link s t => by_cases h : s = source <;> simp [target?, h]

theorem lookup_isSome {g : Precedence} {id : AccountId} :
    (g.entries.lookup id).isSome ↔ id ∈ g.nodes := by
  rw [List.lookup_isSome_iff, nodes, List.mem_map]
  exact exists_congr fun entry => and_congr_right fun _ => beq_iff_eq.trans eq_comm

theorem lookup_insertNode (g : Precedence) (id x : AccountId) :
    (g.insertNode id).entries.lookup x =
      (g.entries.lookup x).or (if x = id then some [] else none) := by
  unfold insertNode hasNode
  by_cases h : id ∈ g.nodes
  · rw [if_pos (decide_eq_true h)]
    by_cases hx : x = id
    · obtain ⟨targets, htargets⟩ := Option.isSome_iff_exists.1 (lookup_isSome.2 (hx ▸ h))
      rw [htargets, Option.some_or]
    · rw [if_neg hx, Option.or_none]
  · rw [if_neg (by simpa using h), List.lookup_append]
    by_cases hx : x = id
    · simp [hx]
    · simp [List.lookup_cons, beq_eq_false_iff_ne.2 hx, hx]

theorem lookup_insertLink (g : Precedence) (source target x : AccountId) :
    (g.insertLink source target).entries.lookup x =
      ((g.insertNode source).entries.lookup x).map fun targets =>
        if x = source ∧ target ∉ targets then targets ++ [target] else targets := by
  unfold insertLink
  generalize (g.insertNode source).entries = entries
  induction entries with
  | nil => rfl
  | cons entry entries ih =>
      obtain ⟨k, targets⟩ := entry
      -- The key of an entry stays what it is.
      have hkey : (if k = source ∧ target ∉ targets then (k, targets ++ [target])
          else (k, targets)) =
            (k, if k = source ∧ target ∉ targets then targets ++ [target] else targets) := by
        split <;> rfl
      rw [List.map_cons, hkey, List.lookup_cons, List.lookup_cons]
      by_cases hx : x = k
      · rw [beq_iff_eq.2 hx, hx]
        rfl
      · rw [beq_eq_false_iff_ne.2 hx]
        exact ih

theorem waitsFor_insertNode (g : Precedence) (id x : AccountId) :
    (g.insertNode id).waitsFor x = g.waitsFor x := by
  unfold waitsFor
  rw [lookup_insertNode]
  cases g.entries.lookup x with
  | some targets => rfl
  | none => by_cases h : x = id <;> simp [h]

theorem waitsFor_insertLink (g : Precedence) (source target x : AccountId) :
    (g.insertLink source target).waitsFor x =
      if x = source ∧ target ∉ g.waitsFor x then g.waitsFor x ++ [target] else g.waitsFor x := by
  rw [← g.waitsFor_insertNode source x]
  unfold waitsFor
  rw [lookup_insertLink]
  cases htargets : (g.insertNode source).entries.lookup x with
  | some targets => rfl
  | none =>
      have hx : x ≠ source := by
        rintro rfl
        have hnode := lookup_isSome.2 (mem_nodes_insertNode (g := g).2 (.inr (rfl : x = x)))
        rw [htargets] at hnode
        cases hnode
      simp [hx]

/-- A step adds what it makes the account wait for, unless the account waits for it already. -/
theorem waitsFor_mention (g : Precedence) (m : Mention) (id : AccountId) :
    (g.mention m).waitsFor id = (m.target? id).elim (g.waitsFor id) fun target =>
      if target ∈ g.waitsFor id then g.waitsFor id else g.waitsFor id ++ [target] := by
  cases m with
  | node source => exact g.waitsFor_insertNode source id
  | link source target =>
      rw [mention, waitsFor_insertLink, Mention.target?]
      by_cases h : source = id
      · by_cases htarget : target ∈ g.waitsFor id <;> simp [h, htarget]
      · simp [h, Ne.symm h]

/-- An account waits for what the mentions make it wait for, in order of the first mention. -/
theorem waitsFor_ofMentions (mentions : List Mention) (id : AccountId) :
    (ofMentions mentions).waitsFor id = (mentions.filterMap (Mention.target? id)).eraseDups := by
  induction mentions using List.reverseRecOn with
  | nil => rfl
  | append_singleton mentions m ih =>
      have hgrown : ofMentions (mentions ++ [m]) = (ofMentions mentions).mention m :=
        List.foldl_append
      rw [hgrown, waitsFor_mention, ih, List.filterMap_append]
      cases htarget : m.target? id with
      | none => simp [htarget]
      | some target => simp [htarget, eraseDups_concat]

/-! ### Links -/

theorem mem_links {g : Precedence} {source target : AccountId} :
    (source, target) ∈ g.links ↔ ∃ targets, (source, targets) ∈ g.entries ∧ target ∈ targets := by
  unfold links
  simp only [List.mem_flatMap, List.mem_map, Prod.mk.injEq]
  constructor
  · rintro ⟨⟨s, targets⟩, hentry, t, ht, rfl, rfl⟩
    exact ⟨targets, hentry, ht⟩
  · rintro ⟨targets, hentry, ht⟩
    exact ⟨(source, targets), hentry, target, ht, rfl, rfl⟩

theorem mem_nodes_of_mem_links {g : Precedence} {source target : AccountId}
    (h : (source, target) ∈ g.links) : source ∈ g.nodes := by
  obtain ⟨targets, hentry, -⟩ := mem_links.1 h
  exact List.mem_map_of_mem hentry

/-- Nodes are there once, so an account waits for what stands in its entry. -/
theorem waitsFor_of_mem {g : Precedence} (hnodes : g.nodes.Nodup) {source : AccountId}
    {targets : List AccountId} (h : (source, targets) ∈ g.entries) :
    g.waitsFor source = targets := by
  obtain ⟨before, after, hsplit⟩ := List.append_of_mem h
  rw [nodes, hsplit, List.map_append, List.map_cons, List.nodup_middle, List.nodup_cons] at hnodes
  have hothers : ∀ entry ∈ before, (source != entry.1) = true := by
    intro entry hentry
    refine bne_iff_ne.2 fun hsame => hnodes.1 (List.mem_append_left _ ?_)
    exact List.mem_map.2 ⟨entry, hentry, hsame.symm⟩
  rw [waitsFor, List.lookup_eq_some_iff.2 ⟨before, after, hsplit, hothers⟩, Option.getD_some]

theorem mem_waitsFor {g : Precedence} (hnodes : g.nodes.Nodup) {source target : AccountId} :
    target ∈ g.waitsFor source ↔ (source, target) ∈ g.links := by
  rw [mem_links]
  constructor
  · intro h
    rcases htargets : g.entries.lookup source with _ | targets
    · simp [waitsFor, htargets] at h
    · obtain ⟨before, after, hsplit, -⟩ := List.lookup_eq_some_iff.1 htargets
      rw [waitsFor, htargets, Option.getD_some] at h
      exact ⟨targets, hsplit ▸ List.mem_append_right _ List.mem_cons_self, h⟩
  · rintro ⟨targets, hentry, h⟩
    rwa [waitsFor_of_mem hnodes hentry]

theorem links_eq_flatMap {g : Precedence} (hnodes : g.nodes.Nodup) :
    g.links = g.nodes.flatMap fun source => (g.waitsFor source).map (source, ·) := by
  rw [links, nodes, List.flatMap_map]
  refine List.flatMap_congr fun entry hentry => ?_
  rw [waitsFor_of_mem hnodes hentry]

/-- The links of a graph are the links that were mentioned. -/
theorem mem_links_ofMentions {mentions : List Mention} {source target : AccountId} :
    (source, target) ∈ (ofMentions mentions).links ↔ .link source target ∈ mentions := by
  rw [← mem_waitsFor (nodup_nodes_ofMentions mentions), waitsFor_ofMentions, List.mem_eraseDups,
    List.mem_filterMap]
  simp only [Mention.target?_eq_some, exists_eq_right]

/-- No link is there twice. -/
theorem nodup_links_ofMentions (mentions : List Mention) : (ofMentions mentions).links.Nodup := by
  have hnodes := nodup_nodes_ofMentions mentions
  rw [links_eq_flatMap hnodes, List.nodup_flatMap]
  constructor
  · intro source _
    rw [waitsFor_ofMentions]
    exact (nodup_eraseDups _).map fun _ _ hsame => congrArg Prod.snd hsame
  · refine hnodes.imp fun {a b} hne => ?_
    intro link hlink hother
    obtain ⟨_, -, rfl⟩ := List.mem_map.1 hlink
    obtain ⟨_, -, hsame⟩ := List.mem_map.1 hother
    exact hne (congrArg Prod.fst hsame).symm

/-! ### Successors -/

theorem mem_successors {g : Precedence} (hnodes : g.nodes.Nodup) {source target : AccountId} :
    target ∈ g.successors source ↔ g.Waits source target := by
  unfold successors Waits hasNode
  rw [List.mem_filter, mem_waitsFor hnodes, decide_eq_true_iff]

theorem Waits.source_mem {g : Precedence} {source target : AccountId} (h : g.Waits source target) :
    source ∈ g.nodes :=
  mem_nodes_of_mem_links h.1

end ProForma.Precedence
