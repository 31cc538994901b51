import ProForma.Proofs.Chart.Precedence
import ProForma.Proofs.Formula.Trace

/-!
# The graph covers every period

The graph of a chart is drawn once, from the formulas that accounts have in a period with history.
In other periods an account has the same formula or none, so the graph has a link for everything
that is read there as well, and an order of the graph will do for all periods.
-/

namespace ProForma.Chart

open Precedence

variable {α : Type} [Amount α] {chart : Chart α} {a : Account α} {f : Formula α} {timing : Timing}

theorem mem_links_of_mem_refs (ha : a ∈ chart.accounts)
    (hf : chart.formula? timing a = .ok (some f)) {b : AccountId} (hb : (b, 0) ∈ f.refs) :
    (a.id, b) ∈ chart.precedence.links :=
  mem_links_precedence.2 ⟨a, ha, rfl, mem_prerequisites_of_mem_refs hf hb⟩

/-- What evaluating a formula reads of the accounts in its own period comes first in the order. -/
theorem mem_take_of_mem_trace {order : List AccountId} (horder : chart.order = .ok order)
    (ha : a ∈ chart.accounts) (hf : chart.formula? timing a = .ok (some f))
    {read : AccountId → Int → Except (Fault α) α} {position : Int} {b : AccountId}
    (hb : (b, position) ∈ (f.trace read position).2) (hnode : b ∈ chart.precedence.nodes) :
    b ∈ order.take (order.idxOf a.id) := by
  obtain ⟨lag, href, hposition⟩ := Formula.mem_refs_of_mem_trace hb
  obtain rfl : lag = 0 := by omega
  have hid : a.id ∈ order := (mem_order horder).2 ⟨a, ha, rfl⟩
  obtain ⟨hsorted, -⟩ := sorted_of_order chart.nodup_nodes_precedence (order_eq_ok.1 horder)
  obtain ⟨hmem, hlt⟩ := hsorted.before a.id hid b ⟨mem_links_of_mem_refs ha hf href, hnode⟩
  exact (List.mem_take_iff_idxOf_lt hmem).2 hlt

/-- **The graph covers every period.** Whatever the period, an account has no formula or the formula
that the graph is drawn from, its failure included. If it has one, it is linked to all that the
formula refers to in the period itself; and in an order of the graph, evaluating the formula reads
no account of the graph in the period itself but such as stand before. -/
theorem precedence_covers (ha : a ∈ chart.accounts) (timing : Timing) :
    (chart.formula? timing a = .ok none ∨
      chart.formula? timing a = chart.formula? .steady a) ∧
    ∀ f, chart.formula? timing a = .ok (some f) →
      (∀ b, (b, 0) ∈ f.refs → (a.id, b) ∈ chart.precedence.links) ∧
      ∀ order, chart.order = .ok order → a.id ∈ order ∧
        ∀ read position b, (b, position) ∈ (f.trace read position).2 →
          b ∈ chart.precedence.nodes → b ∈ order.take (order.idxOf a.id) := by
  refine ⟨chart.formula?_eq_none_or timing a, fun f hf => ⟨?_, ?_⟩⟩
  · exact fun b hb => mem_links_of_mem_refs ha hf hb
  · intro order horder
    refine ⟨(mem_order horder).2 ⟨a, ha, rfl⟩, fun read position b hb hnode => ?_⟩
    exact mem_take_of_mem_trace horder ha hf hb hnode

/-- Kilns that wear by a part of what is spent on them. -/
def kilns : Account Float :=
  { Account.stock ⟨"kilns"⟩ "Kilns" .debit with
    relation := some (.fixedAsset ⟨"purchases"⟩ ⟨"wear"⟩) }

def pottery : Chart Float where
  accounts := [kilns,
    { (Account.flow ⟨"wear"⟩ "Wear" : Account Float) with
      parameter := .percentage 0.1 ⟨"purchases"⟩ },
    .flow ⟨"purchases"⟩ "Purchases"]

theorem precedence_covers_kilns :
    kilns ∈ pottery.accounts ∧
    pottery.formula? ⟨false, false⟩ kilns = .ok none ∧
    pottery.formula? .steady kilns = .ok (some (pottery.rollForward kilns)) ∧
    (⟨"kilns"⟩, ⟨"wear"⟩) ∈ pottery.precedence.links ∧
    pottery.order = .ok [⟨"purchases"⟩, ⟨"wear"⟩, ⟨"kilns"⟩] ∧
    ∀ read position b, (b, position) ∈ ((pottery.rollForward kilns).trace read position).2 →
      b ∈ pottery.precedence.nodes → b = ⟨"purchases"⟩ ∨ b = ⟨"wear"⟩ := by
  have hmem : kilns ∈ pottery.accounts := by simp [pottery]
  have hformula : pottery.formula? .steady kilns = .ok (some (pottery.rollForward kilns)) := rfl
  have horder : pottery.order = .ok [⟨"purchases"⟩, ⟨"wear"⟩, ⟨"kilns"⟩] :=
    eq_ok_of_toOption (by decide +kernel)
  have hwear : ((⟨"wear"⟩ : AccountId), 0) ∈ (pottery.rollForward kilns).refs := by decide +kernel
  obtain ⟨-, hcovers⟩ := precedence_covers hmem .steady
  obtain ⟨hlinks, hfirst⟩ := hcovers _ hformula
  refine ⟨hmem, rfl, hformula, hlinks _ hwear, horder, fun read position b hb hnode => ?_⟩
  have hbefore := (hfirst _ horder).2 read position b hb hnode
  have hindex : [(⟨"purchases"⟩ : AccountId), ⟨"wear"⟩, ⟨"kilns"⟩].idxOf kilns.id = 2 := by
    decide +kernel
  rw [hindex] at hbefore
  simpa using hbefore

end ProForma.Chart
