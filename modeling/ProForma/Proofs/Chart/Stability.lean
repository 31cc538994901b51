import ProForma.Proofs.Chart.Rearrangement

/-!
# The order of computation is stable

The search for an order takes the nodes in the order of their first mention and goes to what a node
waits for before it places the node. Where all of that comes first already, the search never goes
back and places the nodes as they come. The accounts of a chart, arranged in its order of
computation, make such a graph: its links are those of the chart, and the order has sorted them.
-/

namespace ProForma

namespace Precedence

variable {g : Precedence} {fuel : Nat} {waiting done : List AccountId} {id : AccountId}

/-- Every link between nodes leads back to a node that was mentioned before. -/
def Ascending (g : Precedence) : Prop :=
  ∀ source target, g.Waits source target → g.nodes.idxOf target < g.nodes.idxOf source

theorem visit_of_mem (h : id ∈ done) : g.visit (fuel + 1) waiting done id = .ok done := by
  rw [visit, if_pos h]

theorem foldlM_visit_of_subset {ids : List AccountId} (h : ids ⊆ done) :
    ids.foldlM (g.visit (fuel + 1) waiting) done = .ok done := by
  induction ids with
  | nil => rfl
  | cons id ids ih =>
      obtain ⟨hid, hids⟩ := List.cons_subset.1 h
      rw [List.foldlM_cons, visit_of_mem hid]
      exact ih hids

/-- A node is placed at once if everything it waits for is placed. -/
theorem visit_of_successors_subset (hdone : id ∉ done) (hwaiting : id ∉ waiting)
    (h : g.successors id ⊆ done) :
    g.visit (fuel + 2) waiting done id = .ok (done ++ [id]) := by
  rw [visit, if_neg hdone, if_neg hwaiting, foldlM_visit_of_subset h]
  rfl

/-- In an ascending graph, what a node waits for is among the nodes before it. -/
theorem Ascending.successors_subset (h : g.Ascending) (hnodes : g.nodes.Nodup)
    {rest : List AccountId} (hsplit : g.nodes = done ++ id :: rest) (hid : id ∉ done) :
    g.successors id ⊆ done := by
  intro target htarget
  have hwaits : g.Waits id target := (mem_successors hnodes).1 htarget
  have hlt := h id target hwaits
  by_contra hmissing
  rw [hsplit, List.idxOf_append_of_notMem hmissing, List.idxOf_append_of_notMem hid,
    List.idxOf_cons_self] at hlt
  omega

/-- The search over an ascending graph places the nodes in their own order. -/
theorem Ascending.foldlM_visit (h : g.Ascending) (hnodes : g.nodes.Nodup) {rest : List AccountId}
    (hsplit : g.nodes = done ++ rest) :
    rest.foldlM (g.visit (fuel + 2) []) done = .ok g.nodes := by
  induction rest generalizing done with
  | nil =>
      rw [hsplit, List.append_nil]
      rfl
  | cons id rest ih =>
      have hid : id ∉ done := by
        rw [hsplit, List.nodup_append] at hnodes
        exact fun hid => hnodes.2.2 id hid id List.mem_cons_self rfl
      rw [List.foldlM_cons, visit_of_successors_subset hid List.not_mem_nil
        (h.successors_subset hnodes hsplit hid)]
      exact ih (by rw [hsplit, List.append_assoc, List.singleton_append])

theorem Ascending.order_eq_nodes (h : g.Ascending) (hnodes : g.nodes.Nodup) :
    g.order = .ok g.nodes := by
  unfold order
  rcases hlength : g.nodes.length with _ | length
  · rw [List.length_eq_zero_iff.1 hlength]
    rfl
  · exact h.foldlM_visit hnodes rfl

end Precedence

namespace Chart

open Precedence

variable {α : Type} {chart chart' : Chart α} {order : List AccountId}

/-- The accounts of the chart, listed in another order. -/
def arranged (chart : Chart α) (order : List AccountId) : Chart α :=
  ⟨order.filterMap chart.account?⟩

theorem map_id_arranged (h : ∀ id ∈ order, ∃ a ∈ chart.accounts, a.id = id) :
    (chart.arranged order).accounts.map Account.id = order := by
  unfold arranged
  induction order with
  | nil => rfl
  | cons id order ih =>
      obtain ⟨hfirst, hrest⟩ := List.forall_mem_cons.1 h
      obtain ⟨a, ha⟩ := exists_account? hfirst
      rw [List.filterMap_cons_some ha, List.map_cons, (mem_of_account? ha).2, ih hrest]

theorem perm_arranged (hids : (chart.accounts.map Account.id).Nodup)
    (h : order.Perm (chart.accounts.map Account.id)) :
    chart.accounts.Perm (chart.arranged order).accounts := by
  have hself : (chart.accounts.map Account.id).filterMap chart.account? = chart.accounts := by
    rw [List.filterMap_map]
    calc chart.accounts.filterMap (chart.account? ∘ Account.id)
        = chart.accounts.filterMap some :=
          List.filterMap_congr fun a ha => account?_eq_of_mem hids ha
      _ = chart.accounts := List.filterMap_some
  have hperm := h.filterMap chart.account?
  rw [hself] at hperm
  exact hperm.symm

variable [Amount α]

theorem perm_order (hids : (chart.accounts.map Account.id).Nodup) (h : chart.order = .ok order) :
    order.Perm (chart.accounts.map Account.id) := by
  rw [List.perm_ext_iff_of_nodup (nodup_order h) hids]
  intro id
  rw [mem_order h, List.mem_map]

/-- The same accounts, listed in their order of computation, have the same links, and these lead
back. -/
theorem Rearranges.ascending (h : chart.Rearranges chart') (horder : chart.order = .ok order)
    (hlisted : chart'.accounts.map Account.id = order) : chart'.precedence.Ascending := by
  have hnodes : chart'.precedence.nodes = order := by
    rw [nodes_precedence h.symm.ids, hlisted]
  obtain ⟨hsorted, -⟩ := sorted_of_order chart.nodup_nodes_precedence (order_eq_ok.1 horder)
  intro source target hwaits
  have hsource : source ∈ order := hnodes ▸ hwaits.source_mem
  rw [h.waits_eq] at hwaits
  rw [hnodes]
  exact (hsorted.before source hsource target hwaits).2

theorem Rearranges.order_eq (h : chart.Rearranges chart') (horder : chart.order = .ok order)
    (hlisted : chart'.accounts.map Account.id = order) : chart'.order = .ok order := by
  have hagain := (h.ascending horder hlisted).order_eq_nodes chart'.nodup_nodes_precedence
  rw [order_eq_ok, hagain, nodes_precedence h.symm.ids, hlisted]

/-- **The order of computation is stable.** A graph in which every link between nodes leads back
has its nodes for an order, as they were mentioned. So the accounts of a chart, in which no
identifier and no key line is used twice, can be listed in the order of the chart, and the order of
that list is the list. -/
theorem order_stable :
    (∀ mentions, (ofMentions mentions).Ascending →
      (ofMentions mentions).order = .ok (ofMentions mentions).nodes) ∧
    ∀ (chart : Chart α) (order : List AccountId), (chart.accounts.map Account.id).Nodup →
      (chart.accounts.filterMap Account.key).Nodup → chart.order = .ok order →
      chart.accounts.Perm (chart.arranged order).accounts ∧
        (chart.arranged order).accounts.map Account.id = order ∧
        (chart.arranged order).order = .ok order := by
  refine ⟨fun mentions h => h.order_eq_nodes (nodup_nodes_ofMentions mentions), ?_⟩
  intro chart order hids hkeys horder
  have hperm := perm_arranged hids (perm_order hids horder)
  have hlisted := map_id_arranged fun id hid => (mem_order horder).1 hid
  have hrearranges : chart.Rearranges (chart.arranged order) := ⟨hperm, hids, hkeys⟩
  exact ⟨hperm, hlisted, hrearranges.order_eq horder hlisted⟩

/-- A graph that is ascending, with a link to an account that is no node. -/
def billMentions : List Mention :=
  [.node ⟨"sales"⟩, .link ⟨"tax"⟩ ⟨"sales"⟩, .link ⟨"tax"⟩ ⟨"ghost"⟩, .link ⟨"bill"⟩ ⟨"tax"⟩,
    .link ⟨"bill"⟩ ⟨"sales"⟩]

/-- A smithy lists its results first and what they are made of below them. -/
def smithy : Chart Float where
  accounts := [
    { (Account.flow ⟨"profit"⟩ "Profit" : Account Float) with
      key := some .grossProfit
      total := some (.ofTerms [⟨⟨"sales"⟩, .add⟩, ⟨⟨"costs"⟩, .sub⟩]) },
    { (Account.flow ⟨"costs"⟩ "Costs" : Account Float) with
      key := some .costOfSalesTotal
      total := some .ofChildren },
    { (Account.flow ⟨"wages"⟩ "Wages" : Account Float) with
      parent := some ⟨"costs"⟩
      parameter := .percentage 0.5 ⟨"steel"⟩ },
    { (Account.flow ⟨"steel"⟩ "Steel" : Account Float) with
      parent := some ⟨"costs"⟩
      parameter := .percentage 0.25 ⟨"sales"⟩ },
    .flow ⟨"sales"⟩ "Sales"]

def smithyOrder : List AccountId :=
  [⟨"sales"⟩, ⟨"steel"⟩, ⟨"wages"⟩, ⟨"costs"⟩, ⟨"profit"⟩]

theorem order_stable_smithy :
    (ofMentions billMentions).Ascending ∧
    (ofMentions billMentions).order = .ok [⟨"sales"⟩, ⟨"tax"⟩, ⟨"bill"⟩] ∧
    (smithy.accounts.map Account.id).Nodup ∧
    (smithy.accounts.filterMap Account.key).Nodup ∧
    smithy.order = .ok smithyOrder ∧
    smithy.accounts.Perm (smithy.arranged smithyOrder).accounts ∧
    (smithy.arranged smithyOrder).accounts.map Account.id = smithyOrder ∧
    (smithy.arranged smithyOrder).order = .ok smithyOrder := by
  have hlinks : ∀ link ∈ (ofMentions billMentions).links,
      link.2 ∈ (ofMentions billMentions).nodes →
      (ofMentions billMentions).nodes.idxOf link.2 <
        (ofMentions billMentions).nodes.idxOf link.1 := by decide
  have hascending : (ofMentions billMentions).Ascending :=
    fun source target hwaits => hlinks (source, target) hwaits.1 hwaits.2
  have horder : smithy.order = .ok smithyOrder := eq_ok_of_toOption (by decide +kernel)
  have hids : (smithy.accounts.map Account.id).Nodup := by decide +kernel
  have hkeys : (smithy.accounts.filterMap Account.key).Nodup := by decide +kernel
  obtain ⟨hgraph, hchart⟩ := @order_stable Float _
  have hagain := hchart smithy smithyOrder hids hkeys horder
  exact ⟨hascending, hgraph billMentions hascending, hids, hkeys, horder, hagain⟩

end Chart

end ProForma
