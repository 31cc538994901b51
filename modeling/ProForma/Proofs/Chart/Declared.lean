import ProForma.Amount.Rational
import ProForma.Proofs.Chart.Precedence

/-!
# What a parameter declares

An account without a total and without a relation waits for what its formula reads in its own
period, and also for what its parameter declares for that period, whether or not the rule reads it.
So accounts can wait for one another although their formulas could be computed one after another.
Where all that is declared is read, a cycle of the graph is a cycle of what the formulas read.
-/

open Relation (TransGen)

namespace ProForma

variable {α : Type}

/-- The accounts that a parameter refers to in the same period. -/
def Account.declared (a : Account α) : List AccountId :=
  (a.parameter.references.filter (·.lag = 0)).map Reference.account

/-- The account follows its parameter alone, and does not name the cash with which a period begins
as if it were read at the end of that period. -/
structure Account.IsPlain (a : Account α) : Prop where
  total : a.total = none
  relation : a.relation = none
  opening : a.parameter.rule = .cashBeginning → a.declared = []

namespace Chart

open Precedence

variable [Amount α] {chart : Chart α} {a : Account α} {b source target : AccountId}

/-- The formula of the account reads the other one in its own period. -/
def Reads (chart : Chart α) (a : Account α) (b : AccountId) : Prop :=
  ∃ f, chart.formula? .steady a = .ok (some f) ∧ (b, 0) ∈ f.refs

/-- The account reads the other one, or declares it. -/
def Awaits (chart : Chart α) (a : Account α) (b : AccountId) : Prop :=
  chart.Reads a b ∨ a.parameter.rule ≠ .cashBeginning ∧ b ∈ a.declared

/-- A relation of an account to others, between the accounts of a chart by what they are called. -/
def Among (chart : Chart α) (related : Account α → AccountId → Prop)
    (source target : AccountId) : Prop :=
  ∃ a ∈ chart.accounts, a.id = source ∧ related a target

/-- Without a total and a relation, an account is linked to what it reads and what it declares. -/
theorem mem_prerequisites_iff (htotal : a.total = none) (hrelation : a.relation = none) :
    b ∈ chart.prerequisites a ↔ chart.Reads a b ∨ b ∈ a.declared := by
  rw [Reads, ← mem_steadyReads]
  simp [prerequisites, Account.declared, htotal, hrelation, or_comm]

theorem mem_links_iff_mem_prerequisites (hids : (chart.accounts.map Account.id).Nodup)
    (ha : a ∈ chart.accounts) :
    (a.id, b) ∈ chart.precedence.links ↔ b ∈ chart.prerequisites a := by
  rw [mem_links_precedence]
  constructor
  · rintro ⟨other, hother, hid, hb⟩
    rwa [← List.inj_on_of_nodup_map hids hother ha hid]
  · exact fun hb => ⟨a, ha, rfl, hb⟩

theorem mem_prerequisites_iff_awaits (h : a.IsPlain) :
    b ∈ chart.prerequisites a ↔ chart.Awaits a b := by
  rw [mem_prerequisites_iff h.total h.relation, Awaits]
  by_cases hrule : a.parameter.rule = .cashBeginning
  · simp [hrule, h.opening hrule]
  · simp [hrule]

/-- The account that is named in place of an order is on a cycle of whatever explains the links. -/
theorem transGen_of_order_eq_error {related : Account α → AccountId → Prop}
    (h : ∀ a ∈ chart.accounts, ∀ b ∈ chart.prerequisites a, related a b) {id : AccountId}
    (horder : chart.order = .error (.circular id)) : TransGen (chart.Among related) id id := by
  obtain ⟨c, heq, hc⟩ := order_eq_error.1 horder
  obtain rfl : id = c := Fault.circular.inj heq
  have hcycle : chart.precedence.OnCycle id :=
    onCycle_of_order chart.nodup_nodes_precedence hc
  have hlinks : chart.precedence.Waits ≤ chart.Among related := by
    rintro source target ⟨hlink, -⟩
    obtain ⟨a, ha, hid, hb⟩ := mem_links_precedence.1 hlink
    exact ⟨a, ha, hid, h a ha target hb⟩
  exact TransGen.mono hlinks id id hcycle

/-- **Links of accounts that follow a parameter alone.** Such an account is linked to what its
formula reads in its own period and to what its parameter declares for that period, and to nothing
else. If all accounts are of this kind, the account that is named in place of an order is on a cycle
of reads and declarations; and on a cycle of reads, if formulas read all that is declared. -/
theorem linked_iff_awaits (hids : (chart.accounts.map Account.id).Nodup) :
    (∀ a ∈ chart.accounts, a.IsPlain → ∀ b,
      (a.id, b) ∈ chart.precedence.links ↔ chart.Awaits a b) ∧
    ((∀ a ∈ chart.accounts, a.IsPlain) → ∀ id, chart.order = .error (.circular id) →
      TransGen (chart.Among chart.Awaits) id id) ∧
    ((∀ a ∈ chart.accounts, a.total = none ∧ a.relation = none ∧
        ∀ b ∈ a.declared, chart.Reads a b) →
      ∀ id, chart.order = .error (.circular id) →
        TransGen (chart.Among chart.Reads) id id) := by
  refine ⟨fun a ha hplain b => ?_, fun hplain id => ?_, fun hread id => ?_⟩
  · rw [mem_links_iff_mem_prerequisites hids ha, mem_prerequisites_iff_awaits hplain]
  · apply transGen_of_order_eq_error
    exact fun a ha b hb => (mem_prerequisites_iff_awaits (hplain a ha)).1 hb
  · apply transGen_of_order_eq_error
    intro a ha b hb
    obtain ⟨htotal, hrelation, hdeclared⟩ := hread a ha
    rcases (mem_prerequisites_iff htotal hrelation).1 hb with hreads | hb
    · exact hreads
    · exact hdeclared b hb

/-- A fee on sales, of which half is spent. Its parameter declares the cost besides. -/
def agencyFee : Account ℚ :=
  { (Account.flow ⟨"fee"⟩ "Fee" : Account ℚ) with
    parameter := ⟨.reference, none, [.to ⟨"sales"⟩, .to ⟨"cost"⟩]⟩ }

def agencyCost : Account ℚ :=
  { (Account.flow ⟨"cost"⟩ "Cost" : Account ℚ) with parameter := .percentage (1 / 2) ⟨"fee"⟩ }

def agencySales : Account ℚ :=
  { (Account.flow ⟨"sales"⟩ "Sales" : Account ℚ) with parameter := .fixedValue }

def agency : Chart ℚ := ⟨[agencyFee, agencyCost, agencySales]⟩

theorem order_agency : agency.order = .error (.circular ⟨"fee"⟩) := by
  apply order_eq_error.2
  exact ⟨⟨"fee"⟩, rfl, by decide +kernel⟩

theorem isPlain_agency : ∀ a ∈ agency.accounts, a.IsPlain := by
  simp only [agency, List.forall_mem_cons, List.not_mem_nil, false_implies, implies_true, and_true]
  exact ⟨⟨rfl, rfl, nofun⟩, ⟨rfl, rfl, nofun⟩, ⟨rfl, rfl, nofun⟩⟩

/-- A fee that refunds the cost, which is a share of the fee. -/
def refunds : Chart ℚ := ⟨[{ agencyFee with parameter := .reference ⟨"cost"⟩ }, agencyCost]⟩

theorem linked_iff_awaits_agency :
    (agency.accounts.map Account.id).Nodup ∧ agencyFee.IsPlain ∧
    ((agencyFee.id, ⟨"cost"⟩) ∈ agency.precedence.links ↔ agency.Awaits agencyFee ⟨"cost"⟩) ∧
    TransGen (agency.Among agency.Awaits) ⟨"fee"⟩ ⟨"fee"⟩ ∧
    TransGen (refunds.Among refunds.Reads) ⟨"fee"⟩ ⟨"fee"⟩ := by
  have hids : (agency.accounts.map Account.id).Nodup := by decide
  have hmem : agencyFee ∈ agency.accounts := List.mem_cons_self
  have hplain : agencyFee.IsPlain := isPlain_agency agencyFee hmem
  obtain ⟨hlinks, hcycle, -⟩ := linked_iff_awaits hids
  have hrefunds : ∀ a ∈ refunds.accounts, a.total = none ∧ a.relation = none ∧
      ∀ b ∈ a.declared, refunds.Reads a b := by
    simp only [Reads, ← mem_steadyReads]
    decide +kernel
  have horder : refunds.order = .error (.circular ⟨"fee"⟩) :=
    order_eq_error.2 ⟨⟨"fee"⟩, rfl, by decide +kernel⟩
  exact ⟨hids, hplain, hlinks agencyFee hmem hplain _, hcycle isPlain_agency _ order_agency,
    (linked_iff_awaits (by decide)).2.2 hrefunds _ horder⟩

/-! ### A declaration that is not read -/

/-- An order in which each account comes after what it reads. -/
def agencyOrder : List AccountId := [⟨"sales"⟩, ⟨"fee"⟩, ⟨"cost"⟩]

theorem idxOf_lt_of_reads (h : agency.Among agency.Reads source target) :
    agencyOrder.idxOf target < agencyOrder.idxOf source := by
  obtain ⟨a, ha, rfl, hread⟩ := h
  rw [Reads, ← mem_steadyReads] at hread
  have hbefore : ∀ a ∈ agency.accounts, ∀ b ∈ agency.steadyReads a,
      agencyOrder.idxOf b < agencyOrder.idxOf a.id := by decide +kernel
  exact hbefore a ha target hread

theorem idxOf_lt_of_transGen (h : TransGen (agency.Among agency.Reads) source target) :
    agencyOrder.idxOf target < agencyOrder.idxOf source := by
  induction h with
  | single hread => exact idxOf_lt_of_reads hread
  | tail _ hread ih => exact (idxOf_lt_of_reads hread).trans ih

/-- The fee is linked to the cost, which its formula does not read, and there is no order, although
the formulas read one another in a row. -/
theorem linked_without_reading :
    (agency.accounts.map Account.id).Nodup ∧
    (∀ a ∈ agency.accounts, a.total = none ∧ a.relation = none ∧
      ∃ f, agency.formula? .steady a = .ok (some f)) ∧
    agencyFee ∈ agency.accounts ∧
    agency.formula? .steady agencyFee = .ok (some (.ref ⟨"sales"⟩ 0)) ∧
    (agencyFee.id, ⟨"cost"⟩) ∈ agency.precedence.links ∧
    ¬agency.Reads agencyFee ⟨"cost"⟩ ∧
    agency.order = .error (.circular ⟨"fee"⟩) ∧
    ∀ id, ¬TransGen (agency.Among agency.Reads) id id := by
  refine ⟨by decide, ?_, by simp [agency], rfl, by decide +kernel, ?_, order_agency, ?_⟩
  · simp only [agency, List.forall_mem_cons, List.not_mem_nil, false_implies, implies_true,
      and_true]
    exact ⟨⟨rfl, rfl, _, rfl⟩, ⟨rfl, rfl, _, rfl⟩, ⟨rfl, rfl, _, rfl⟩⟩
  · rw [Reads, ← mem_steadyReads]
    decide +kernel
  · exact fun id hcycle => lt_irrefl _ (idxOf_lt_of_transGen hcycle)

end Chart

end ProForma
