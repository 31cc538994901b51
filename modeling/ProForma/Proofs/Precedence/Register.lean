import Mathlib.Algebra.BigOperators.Group.Multiset.Basic
import Mathlib.Data.Finmap
import Mathlib.Data.Finset.Dedup
import ProForma.Proofs.Precedence.Links

/-!
# Registers

A graph of waiting accounts may be kept in two places: a list of the nodes, and a table with a row
for each of them. Nodes and links go into the two by different steps, in any order, and a row may
name accounts that have no row. The two stay in step all the same, and with the entries of a graph,
so counting the links row by row and going through them node by node come to the same.
-/

namespace ProForma.Precedence

/-- What is mentioned by a step that is about a link. -/
def Mention.link? : Mention → Option (AccountId × AccountId)
  | .node _ => none
  | .link source target => some (source, target)

/-- The links that were mentioned, however often. -/
def mentionedLinks (mentions : List Mention) : Finset (AccountId × AccountId) :=
  (mentions.filterMap Mention.link?).toFinset

/-- The nodes in the order of their first mention, and apart from them a row for each, with the
accounts that it waits for. The rows are in no order. -/
structure Register where
  nodes : List AccountId
  rows : Finmap fun _ : AccountId => List AccountId

namespace Register

def empty : Register := ⟨[], ∅⟩

/-- What an account waits for: nothing, if it has no row. -/
def waitsFor (r : Register) (id : AccountId) : List AccountId :=
  (r.rows.lookup id).getD []

/-- The links, node by node. -/
def links (r : Register) : List (AccountId × AccountId) :=
  r.nodes.flatMap fun source => (r.waitsFor source).map (source, ·)

/-- The number of links, added up from the rows. -/
def linkCount (r : Register) : Nat :=
  (r.rows.entries.map fun row => row.2.length).sum

/-- An account without a row becomes a node with a blank one. -/
def insertNode (r : Register) (id : AccountId) : Register :=
  if id ∈ r.rows then r else ⟨r.nodes ++ [id], r.rows.insert id []⟩

/-- Enters the target in the row of the source, unless it stands there. -/
def insertLink (r : Register) (source target : AccountId) : Register :=
  let r := r.insertNode source
  match r.rows.lookup source with
  | none => r
  | some targets =>
    if target ∈ targets then r
    else { r with rows := r.rows.insert source (targets ++ [target]) }

def mention (r : Register) : Mention → Register
  | .node id => r.insertNode id
  | .link source target => r.insertLink source target

def ofMentions (mentions : List Mention) : Register :=
  mentions.foldl mention empty

/-! ### Rows -/

theorem lookup_insertNode (r : Register) (id x : AccountId) :
    (r.insertNode id).rows.lookup x =
      (r.rows.lookup x).or (if x = id then some [] else none) := by
  unfold insertNode
  by_cases h : id ∈ r.rows
  · rw [if_pos h]
    by_cases hx : x = id
    · obtain ⟨targets, htargets⟩ := Finmap.mem_iff.1 (hx ▸ h)
      rw [htargets, Option.some_or]
    · rw [if_neg hx, Option.or_none]
  · rw [if_neg h]
    by_cases hx : x = id
    · rw [hx, Finmap.lookup_insert, Finmap.lookup_eq_none.2 h, if_pos rfl, Option.none_or]
    · rw [Finmap.lookup_insert_of_ne _ hx, if_neg hx, Option.or_none]

theorem lookup_insertLink (r : Register) (source target x : AccountId) :
    (r.insertLink source target).rows.lookup x =
      ((r.insertNode source).rows.lookup x).map fun targets =>
        if x = source ∧ target ∉ targets then targets ++ [target] else targets := by
  unfold insertLink
  dsimp only
  cases hrow : (r.insertNode source).rows.lookup source with
  | none =>
      rcases eq_or_ne x source with rfl | hx
      · rw [hrow, Option.map_none]
      · simp [hx]
  | some targets =>
      rcases eq_or_ne x source with rfl | hx
      · by_cases h : target ∈ targets <;> simp [h, hrow]
      · by_cases h : target ∈ targets <;> simp [h, hx, Finmap.lookup_insert_of_ne]

theorem nodes_insertLink (r : Register) (source target : AccountId) :
    (r.insertLink source target).nodes = (r.insertNode source).nodes := by
  unfold insertLink
  dsimp only
  split
  · rfl
  · split <;> rfl

/-- Adding up the rows is adding up over the accounts that have one. -/
theorem linkCount_eq_sum (r : Register) :
    r.linkCount = (r.rows.keys.val.map fun id => (r.waitsFor id).length).sum := by
  have hrow : ∀ row ∈ r.rows.entries, row.2.length = (r.waitsFor row.1).length := by
    intro row hentry
    rw [waitsFor, Finmap.mem_lookup_iff.2 hentry, Option.getD_some]
  calc r.linkCount = (r.rows.entries.map fun row => (r.waitsFor row.1).length).sum :=
        congrArg Multiset.sum (Multiset.map_congr rfl hrow)
    _ = (r.rows.keys.val.map fun id => (r.waitsFor id).length).sum := by
        change _ = ((r.rows.entries.map Sigma.fst).map fun id => (r.waitsFor id).length).sum
        rw [Multiset.map_map]
        rfl

/-! ### Registers and graphs -/

/-- The register has the nodes of the graph, and a row for each with what it waits for. -/
structure Keeps (r : Register) (g : Precedence) : Prop where
  nodes : r.nodes = g.nodes
  lookup : ∀ id, r.rows.lookup id = g.entries.lookup id

namespace Keeps

variable {r : Register} {g : Precedence}

theorem mem_rows (h : Keeps r g) {id : AccountId} : id ∈ r.rows ↔ id ∈ g.nodes := by
  rw [← Finmap.lookup_isSome, h.lookup, lookup_isSome]

theorem empty : Keeps Register.empty Precedence.empty :=
  ⟨rfl, fun _ => Finmap.lookup_empty _⟩

theorem insertNode (h : Keeps r g) (id : AccountId) :
    Keeps (r.insertNode id) (g.insertNode id) where
  nodes := by
    rw [nodes_insertNode, ← h.nodes]
    unfold Register.insertNode
    by_cases hid : id ∈ r.rows
    · rw [if_pos hid, if_pos (h.nodes ▸ h.mem_rows.1 hid)]
    · rw [if_neg hid, if_neg (h.nodes ▸ mt h.mem_rows.2 hid)]
  lookup x := by
    rw [Register.lookup_insertNode, h.lookup, Precedence.lookup_insertNode]

theorem insertLink (h : Keeps r g) (source target : AccountId) :
    Keeps (r.insertLink source target) (g.insertLink source target) where
  nodes := by
    rw [Register.nodes_insertLink, Precedence.nodes_insertLink, (h.insertNode source).nodes]
  lookup x := by
    rw [Register.lookup_insertLink, (h.insertNode source).lookup, Precedence.lookup_insertLink]

theorem mention (h : Keeps r g) (m : Mention) : Keeps (r.mention m) (g.mention m) := by
  cases m with
  | node id => exact h.insertNode id
  | link source target => exact h.insertLink source target

/-- Whatever is mentioned, the register keeps to the graph. -/
theorem ofMentions (mentions : List Mention) :
    Keeps (Register.ofMentions mentions) (Precedence.ofMentions mentions) := by
  induction mentions using List.reverseRecOn with
  | nil => exact .empty
  | append_singleton mentions m ih =>
      rw [Register.ofMentions, Precedence.ofMentions, List.foldl_concat, List.foldl_concat]
      exact ih.mention m

theorem waitsFor_eq (h : Keeps r g) (id : AccountId) : r.waitsFor id = g.waitsFor id := by
  rw [Register.waitsFor, h.lookup, Precedence.waitsFor]

theorem links_eq (h : Keeps r g) (hnodes : g.nodes.Nodup) : r.links = g.links := by
  rw [links_eq_flatMap hnodes, Register.links, h.nodes]
  simp only [h.waitsFor_eq]

theorem linkCount_eq (h : Keeps r g) (hnodes : g.nodes.Nodup) :
    r.linkCount = g.links.length := by
  have hkeys : r.rows.keys.val = g.nodes := by
    refine (Multiset.Nodup.ext r.rows.keys.nodup (Multiset.coe_nodup.2 hnodes)).2 fun id => ?_
    exact Finmap.mem_keys.trans h.mem_rows
  rw [linkCount_eq_sum, hkeys, links_eq_flatMap hnodes, List.length_flatMap, Multiset.map_coe,
    Multiset.sum_coe]
  simp only [List.length_map, h.waitsFor_eq]

end Keeps

end Register

/-! ### What is kept of the mentions -/

theorem mem_mentionedLinks {mentions : List Mention} {source target : AccountId} :
    (source, target) ∈ mentionedLinks mentions ↔ .link source target ∈ mentions := by
  rw [mentionedLinks, List.mem_toFinset, List.mem_filterMap]
  constructor
  · rintro ⟨m | ⟨s, t⟩, hm, hlink⟩
    · cases hlink
    · cases hlink
      exact hm
  · exact fun hm => ⟨_, hm, rfl⟩

theorem length_links_ofMentions (mentions : List Mention) :
    (ofMentions mentions).links.length = (mentionedLinks mentions).card := by
  rw [← List.toFinset_card_of_nodup (nodup_links_ofMentions mentions)]
  congr 1
  ext ⟨source, target⟩
  rw [List.mem_toFinset, mem_links_ofMentions, mem_mentionedLinks]

/-- **Everything mentioned is kept once.** Whatever is mentioned in whatever order, a graph and a
register come to the same. The nodes are the accounts that were mentioned as such or as the source
of a link, each once, by their first mention, and they are the accounts that have a row. An account
waits for the targets of the links that were mentioned from it, each once, by their first mention.
The links are those that were mentioned, each once, and adding up the rows counts them. -/
theorem ofMentions_keeps_once (mentions : List Mention) :
    let g := ofMentions mentions
    let r := Register.ofMentions mentions
    (r.nodes = g.nodes ∧ (∀ id, r.waitsFor id = g.waitsFor id) ∧ r.links = g.links) ∧
    (r.nodes.Nodup ∧ r.nodes = (mentions.map Mention.subject).eraseDups) ∧
    (∀ id, id ∈ r.rows ↔ id ∈ r.nodes) ∧
    (∀ id, (r.waitsFor id).Nodup ∧
      r.waitsFor id = (mentions.filterMap (Mention.target? id)).eraseDups) ∧
    (r.linkCount = (mentionedLinks mentions).card ∧
      g.links.length = (mentionedLinks mentions).card) ∧
    (r.links.Nodup ∧
      ∀ source target, (source, target) ∈ r.links ↔ .link source target ∈ mentions) := by
  intro g r
  have hkeeps : Register.Keeps r g := .ofMentions mentions
  have hnodes : g.nodes.Nodup := nodup_nodes_ofMentions mentions
  have hlinks : r.links = g.links := hkeeps.links_eq hnodes
  have hwaits : ∀ id, r.waitsFor id = (mentions.filterMap (Mention.target? id)).eraseDups :=
    fun id => (hkeeps.waitsFor_eq id).trans (waitsFor_ofMentions mentions id)
  refine ⟨⟨hkeeps.nodes, hkeeps.waitsFor_eq, hlinks⟩, ⟨?nodup, ?nodes⟩, fun id => ?rows,
    fun id => ⟨?once, hwaits id⟩, ⟨?count, length_links_ofMentions mentions⟩, ?apart,
    fun source target => ?links⟩
  case nodup => rwa [hkeeps.nodes]
  case nodes => rw [hkeeps.nodes, nodes_ofMentions]
  case rows => rw [hkeeps.mem_rows, hkeeps.nodes]
  case once =>
    rw [hwaits]
    exact nodup_eraseDups _
  case count => rw [hkeeps.linkCount_eq hnodes, length_links_ofMentions]
  case apart =>
    rw [hlinks]
    exact nodup_links_ofMentions mentions
  case links => rw [hlinks, mem_links_ofMentions]

/-- Costs are waited for, twice, before they are a node. -/
example :
    let r := Register.ofMentions [.link ⟨"profit"⟩ ⟨"cost"⟩, .node ⟨"sales"⟩,
      .link ⟨"cost"⟩ ⟨"sales"⟩, .link ⟨"profit"⟩ ⟨"cost"⟩, .node ⟨"profit"⟩]
    r.nodes = [⟨"profit"⟩, ⟨"sales"⟩, ⟨"cost"⟩] ∧ r.linkCount = 2 := by decide

end ProForma.Precedence
