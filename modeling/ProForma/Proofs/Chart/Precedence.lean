import ProForma.Chart.Precedence
import ProForma.Proofs.Chart.Derivation
import ProForma.Proofs.Precedence.Order

/-!
# What the accounts of a chart wait for

The graph of a chart has the accounts for its nodes, and a link from each account to each of its
prerequisites. Whatever an account reads in its own period is among them, in every period, so in an
order of the chart every account comes after all that it reads.
-/

namespace ProForma.Chart

open Precedence

variable {α : Type} {chart : Chart α} {order : List AccountId}

theorem mem_of_account? {id : AccountId} {a : Account α} (h : chart.account? id = some a) :
    a ∈ chart.accounts ∧ a.id = id := by
  refine ⟨List.mem_of_find?_eq_some h, ?_⟩
  have hid := List.find?_some h
  exact of_decide_eq_true hid

theorem exists_account? {id : AccountId} (h : ∃ a ∈ chart.accounts, a.id = id) :
    ∃ a, chart.account? id = some a := by
  obtain ⟨a, ha, hid⟩ := h
  exact Option.isSome_iff_exists.1 (List.find?_isSome.2 ⟨a, ha, decide_eq_true hid⟩)

theorem account?_eq_of_mem (h : (chart.accounts.map Account.id).Nodup) {a : Account α}
    (ha : a ∈ chart.accounts) : chart.account? a.id = some a := by
  have hexists : ∃ b ∈ chart.accounts, b.id = a.id := ⟨a, ha, rfl⟩
  obtain ⟨b, hb⟩ := exists_account? hexists
  obtain ⟨hmem, hid⟩ := mem_of_account? hb
  rw [hb, List.inj_on_of_nodup_map h hmem ha hid]

variable [Amount α]

/-! ### The graph of a chart -/

/-- The accounts, and then the links to what they wait for. -/
def mentions (chart : Chart α) : List Mention :=
  chart.accounts.map (fun a => .node a.id) ++
    chart.accounts.flatMap fun a => (chart.prerequisites a).map (.link a.id)

theorem precedence_eq_ofMentions (chart : Chart α) :
    chart.precedence = ofMentions chart.mentions := by
  unfold precedence ofMentions mentions
  rw [List.foldl_append, List.foldl_map, List.foldl_flatMap]
  simp only [List.foldl_map]
  rfl

theorem nodup_nodes_precedence (chart : Chart α) : chart.precedence.nodes.Nodup := by
  rw [precedence_eq_ofMentions]
  exact nodup_nodes_ofMentions chart.mentions

/-- The nodes are the accounts as the chart lists them. -/
theorem nodes_precedence (h : (chart.accounts.map Account.id).Nodup) :
    chart.precedence.nodes = chart.accounts.map Account.id := by
  have hsubjects : chart.mentions.map Mention.subject = chart.accounts.map Account.id ++
      chart.accounts.flatMap fun a => (chart.prerequisites a).map fun _ => a.id := by
    simp [mentions, List.map_flatMap, Function.comp_def, Mention.subject]
  have hknown : (chart.accounts.flatMap fun a =>
      (chart.prerequisites a).map fun _ => a.id).removeAll (chart.accounts.map Account.id) =
        [] := by
    unfold List.removeAll
    rw [List.filter_eq_nil_iff]
    intro id hid
    obtain ⟨a, ha, hid⟩ := List.mem_flatMap.1 hid
    obtain ⟨-, -, rfl⟩ := List.mem_map.1 hid
    have hmem : a.id ∈ chart.accounts.map Account.id := List.mem_map_of_mem ha
    simpa using hmem
  rw [precedence_eq_ofMentions, nodes_ofMentions, hsubjects, List.eraseDups_append, hknown,
    List.eraseDups_nil, List.append_nil, eraseDups_eq_self h]

theorem mem_nodes_precedence {id : AccountId} :
    id ∈ chart.precedence.nodes ↔ ∃ a ∈ chart.accounts, a.id = id := by
  rw [precedence_eq_ofMentions, mem_nodes_ofMentions]
  simp only [mentions, List.mem_append, List.mem_map, List.mem_flatMap, Mention.node.injEq,
    Mention.link.injEq, reduceCtorEq, and_false, exists_false, or_false, false_or]
  constructor
  · rintro (⟨a, ha, rfl⟩ | ⟨_, a, ha, _, _, rfl, _⟩)
    · exact ⟨a, ha, rfl⟩
    · exact ⟨a, ha, rfl⟩
  · rintro ⟨a, ha, rfl⟩
    exact .inl ⟨a, ha, rfl⟩

theorem mem_links_precedence {source target : AccountId} :
    (source, target) ∈ chart.precedence.links ↔
      ∃ a ∈ chart.accounts, a.id = source ∧ target ∈ chart.prerequisites a := by
  rw [precedence_eq_ofMentions, mem_links_ofMentions]
  simp only [mentions, List.mem_append, List.mem_map, List.mem_flatMap, Mention.link.injEq,
    reduceCtorEq, and_false, exists_false, false_or]
  constructor
  · rintro ⟨a, ha, target, htarget, rfl, rfl⟩
    exact ⟨a, ha, rfl, htarget⟩
  · rintro ⟨a, ha, rfl, htarget⟩
    exact ⟨a, ha, target, htarget, rfl, rfl⟩

theorem mem_steadyReads {a : Account α} {b : AccountId} : b ∈ chart.steadyReads a ↔
    ∃ f, chart.formula? .steady a = .ok (some f) ∧ (b, 0) ∈ f.refs := by
  unfold steadyReads
  split
  · rename_i f hf
    simp [hf, Formula.currentRefs, List.mem_eraseDups]
  · rename_i hnone
    simp only [List.not_mem_nil, false_iff, not_exists, not_and]
    exact fun f hf => absurd hf (hnone f)

/-- What the formula of an account reads in its own period, whichever it is, is a prerequisite. -/
theorem mem_prerequisites_of_mem_refs {timing : Timing} {a : Account α} {f : Formula α}
    {b : AccountId} (hf : chart.formula? timing a = .ok (some f)) (hb : (b, 0) ∈ f.refs) :
    b ∈ chart.prerequisites a := by
  have hreads : b ∈ chart.steadyReads a :=
    mem_steadyReads.2 ⟨f, formula?_steady_of_eq_some hf, hb⟩
  exact List.mem_append_right _ hreads

/-! ### The order of a chart -/

theorem order_eq_ok : chart.order = .ok order ↔ chart.precedence.order = .ok order := by
  unfold Chart.order
  cases chart.precedence.order <;> simp [Except.mapError]

theorem order_eq_error {fault : Fault α} :
    chart.order = .error fault ↔
      ∃ id, fault = .circular id ∧ chart.precedence.order = .error id := by
  unfold Chart.order
  cases chart.precedence.order with
  | ok order => simp [Except.mapError]
  | error id => simp [Except.mapError, eq_comm]

theorem mem_order (h : chart.order = .ok order) {id : AccountId} :
    id ∈ order ↔ ∃ a ∈ chart.accounts, a.id = id := by
  obtain ⟨hsorted, hall⟩ := sorted_of_order chart.nodup_nodes_precedence (order_eq_ok.1 h)
  rw [← mem_nodes_precedence]
  exact ⟨fun hid => hsorted.subset hid, fun hid => hall hid⟩

theorem nodup_order (h : chart.order = .ok order) : order.Nodup :=
  (sorted_of_order chart.nodup_nodes_precedence (order_eq_ok.1 h)).1.nodup

theorem length_order_le (h : chart.order = .ok order) : order.length ≤ chart.accounts.length := by
  have hsubset : order ⊆ chart.accounts.map Account.id := by
    intro id hid
    obtain ⟨a, ha, rfl⟩ := (mem_order h).1 hid
    exact List.mem_map_of_mem ha
  have hle := ((nodup_order h).subperm hsubset).length_le
  rwa [List.length_map] at hle

/-- How many accounts can wait for one another below an account. One that is not in the order waits
for nothing. -/
def rank (order : List AccountId) (id : AccountId) : Nat :=
  if id ∈ order then order.idxOf id + 1 else 0

theorem rank_le (h : chart.order = .ok order) (id : AccountId) :
    rank order id ≤ chart.accounts.length := by
  unfold rank
  split
  · rename_i hid
    exact Nat.lt_of_lt_of_le (List.idxOf_lt_length_of_mem hid) (length_order_le h)
  · exact Nat.zero_le _

/-- An account ranks above all that it reads in its own period. -/
theorem rank_lt_of_mem_refs (h : chart.order = .ok order) {timing : Timing} {id b : AccountId}
    {a : Account α} {f : Formula α} (ha : chart.account? id = some a)
    (hf : chart.formula? timing a = .ok (some f)) (hb : (b, 0) ∈ f.refs) :
    rank order b < rank order id := by
  obtain ⟨hmem, rfl⟩ := mem_of_account? ha
  have hid : a.id ∈ order := (mem_order h).2 ⟨a, hmem, rfl⟩
  unfold rank
  rw [if_pos hid]
  split
  · rename_i hborder
    obtain ⟨hsorted, -⟩ := sorted_of_order chart.nodup_nodes_precedence (order_eq_ok.1 h)
    have hlink : (a.id, b) ∈ chart.precedence.links :=
      mem_links_precedence.2 ⟨a, hmem, rfl, mem_prerequisites_of_mem_refs hf hb⟩
    have hlt := (hsorted.before a.id hid b ⟨hlink, hsorted.subset hborder⟩).2
    omega
  · exact Nat.succ_pos _

end ProForma.Chart
