import Mathlib.Data.List.Nodup
import ProForma.Ledger.Lemmas
import ProForma.Proofs.Chart.Ancestry
import ProForma.Proofs.Period
import ProForma.Review

/-!
# Well-formed models

A model passes review exactly if it is well-formed. The review looks for faults in one list after
another, with lookups by which the first of several accounts counts, and with a search for loops
that is cut off. What it accepts can be said without any of that. The equivalence goes part by part,
each list of faults being empty exactly if its conditions hold. Where the review looks for loops, or
at the account that a flow adjusts, this needs that no identifier is used twice, which has been
found out by then.
-/

namespace ProForma

variable {α : Type}

namespace Chart

/-! ### The conditions -/

/-- There is an account with the identifier. -/
def Has (chart : Chart α) (id : AccountId) : Prop :=
  ∃ a ∈ chart.accounts, a.id = id

/-- Cash-flow items are derived: by a rule of their own, or as totals. They have no other part in
the cash flow. -/
structure Item (a : Account α) : Prop where
  derived : a.parameter.rule.isCashFlowOnly = true ∨ a.parameter.rule = .none ∧ a.total ≠ none
  adjustment : a.adjustment = none
  profit : a.isBaseProfit = false
  feeds : a.feedsCashFlow = false

/-- The account fits into the chart. -/
structure Fits (chart : Chart α) (a : Account α) : Prop where
  parent : ∀ id, a.parent = some id → chart.Has id
  acyclic : ¬ Relation.TransGen chart.HasParent a.id a.id
  references : ∀ r ∈ a.parameter.references, chart.Has r.account
  terms : ∀ terms, a.total = some (.ofTerms terms) → ∀ t ∈ terms, chart.Has t.account
  total : a.total ≠ none → a.parameter.rule = .none
  referenced : a.parameter.rule.needsReference = true → a.parameter.references ≠ []
  cash : a.parameter.rule = .cashBeginning →
    a.parameter.references ≠ [] ∨ ∃ b ∈ chart.accounts, b.key = some .cashTotal
  rate : a.parameter.rule = .growthRate ∨ a.parameter.rule = .percentage → a.parameter.rate ≠ none
  item : a.isCashFlowItem = true → Item a
  other : a.isCashFlowItem = false → a.parameter.rule.isCashFlowOnly = false
  adjustment : ∀ adjustment, a.adjustment = some adjustment →
    ∃ b ∈ chart.accounts, b.id = adjustment.target ∧ b.nature = .stock ∧ b.side ≠ none
  feeds : a.feedsCashFlow = true → a.nature = .stock ∧ a.side ≠ none
  links : ∀ relation, a.relation = some relation → ∀ link ∈ relation.links, chart.Has link.account
  relation : a.relation ≠ none → a.nature = .stock

end Chart

/-- No identifier, key line or order is used twice, all accounts fit into the chart, and all values
are those of accounts in periods. -/
structure Model.WellFormed (m : Model α) : Prop where
  accountIds : (m.accounts.map Account.id).Nodup
  keyLines : (m.accounts.filterMap Account.key).Nodup
  accounts : ∀ a ∈ m.accounts, m.chart.Fits a
  periodIds : (m.periods.map Period.id).Nodup
  periodOrders : (m.periods.map Period.order).Nodup
  cells : ∀ key cell, m.ledger.cell? key = some cell →
    m.chart.Has key.account ∧ ∃ p ∈ m.periods, p.id = key.period

/-! ### Faults of accounts -/

theorem repeated_eq_nil_iff {β γ : Type} [DecidableEq γ] {key : β → γ} {seen : List γ}
    {xs : List β} :
    repeated key seen xs = [] ↔ (xs.map key).Nodup ∧ ∀ x ∈ xs, key x ∉ seen := by
  induction xs generalizing seen with
  | nil => simp [repeated]
  | cons x xs ih =>
      unfold repeated
      split
      · rename_i hseen
        simp [hseen]
      · rename_i hseen
        rw [ih, List.map_cons, List.nodup_cons]
        simp only [List.mem_cons, not_or, List.mem_map, forall_eq_or_imp]
        grind

theorem Rule.needsRate_iff {rule : Rule} :
    rule.needsRate = true ↔ rule = .growthRate ∨ rule = .percentage := by
  cases rule <;> simp [needsRate]

namespace Chart

variable {chart : Chart α} {a : Account α}

theorem mem_faultIf {condition : Bool} {fault other : Fault α} :
    fault ∈ faultIf condition other ↔ condition = true ∧ fault = other := by
  cases condition <;> simp [faultIf]

theorem faultIf_eq_nil_iff {condition : Bool} {fault : Fault α} :
    faultIf condition fault = [] ↔ condition = false := by
  cases condition <;> simp [faultIf]

theorem account?_isSome_iff {id : AccountId} :
    (chart.account? id).isSome = true ↔ chart.Has id := by
  simp [account?, Has]

theorem key?_isSome_iff {key : KeyLine} :
    (chart.key? key).isSome = true ↔ ∃ a ∈ chart.accounts, a.key = some key := by
  simp [key?]

theorem unknown_eq_nil_iff {ids : List AccountId} :
    chart.unknown ids = [] ↔ ∀ id ∈ ids, chart.Has id := by
  simp [unknown, ← account?_isSome_iff, Option.isSome_iff_ne_none]

theorem duplicateAccounts_eq_nil_iff :
    chart.duplicateAccounts = [] ↔ (chart.accounts.map Account.id).Nodup := by
  unfold duplicateAccounts
  rw [List.map_eq_nil_iff, repeated_eq_nil_iff]
  simp

theorem takenKeys_eq_nil_iff {held : List (KeyLine × AccountId)} {accounts : List (Account α)} :
    takenKeys held accounts = [] ↔ (accounts.filterMap Account.key).Nodup ∧
      ∀ key ∈ accounts.filterMap Account.key, held.lookup key = none := by
  induction accounts generalizing held with
  | nil => simp [takenKeys]
  | cons a accounts ih =>
      unfold takenKeys
      rcases hkey : a.key with _ | key
      · rw [List.filterMap_cons_none hkey]
        exact ih
      · have hlookup (other : KeyLine) : ((key, a.id) :: held).lookup other = none ↔
            other ≠ key ∧ held.lookup other = none := by
          by_cases hother : other = key
          · simp [hother]
          · rw [List.lookup_cons, beq_eq_false_iff_ne.2 hother]
            exact ⟨fun h => ⟨hother, h⟩, And.right⟩
        dsimp only
        rw [List.filterMap_cons_some hkey, List.nodup_cons]
        rcases hheld : held.lookup key with _ | holder
        · dsimp only
          rw [ih]
          simp only [hlookup, List.mem_cons, forall_eq_or_imp, hheld, true_and]
          constructor
          · rintro ⟨hnodup, hrest⟩
            exact ⟨⟨fun hmem => (hrest key hmem).1 rfl, hnodup⟩, fun k hk => (hrest k hk).2⟩
          · rintro ⟨⟨hfresh, hnodup⟩, hrest⟩
            exact ⟨hnodup, fun k hk => ⟨fun hsame => hfresh (hsame ▸ hk), hrest k hk⟩⟩
        · constructor
          · exact nofun
          · rintro ⟨-, hfree⟩
            rw [hfree key List.mem_cons_self] at hheld
            cases hheld

theorem isBalance_iff : a.isBalance = true ↔ a.nature = .stock ∧ a.side ≠ none := by
  simp [Account.isBalance, Account.isStock, Option.isSome_iff_ne_none]

theorem parentFaults_eq_nil_iff (hnodup : (chart.accounts.map Account.id).Nodup)
    (ha : a ∈ chart.accounts) :
    chart.parentFaults a = [] ↔
      (∀ id, a.parent = some id → chart.Has id) ∧
        ¬ Relation.TransGen chart.HasParent a.id a.id := by
  unfold parentFaults
  rw [List.append_eq_nil_iff, unknown_eq_nil_iff, faultIf_eq_nil_iff, ← loops_iff hnodup ha]
  simp

theorem totalFaults_eq_nil_iff : chart.totalFaults a = [] ↔
    (∀ terms, a.total = some (.ofTerms terms) → ∀ t ∈ terms, chart.Has t.account) ∧
      (a.total ≠ none → a.parameter.rule = .none) := by
  unfold totalFaults
  rw [List.append_eq_nil_iff, unknown_eq_nil_iff, faultIf_eq_nil_iff]
  rcases a.total with _ | _ | terms
  · simp
  · simp
  · simp

theorem parameterFaults_eq_nil_iff : chart.parameterFaults a = [] ↔
    (a.parameter.rule.needsReference = true → a.parameter.references ≠ []) ∧
      (a.parameter.rule = .cashBeginning →
        a.parameter.references ≠ [] ∨ ∃ b ∈ chart.accounts, b.key = some .cashTotal) ∧
      (a.parameter.rule = .growthRate ∨ a.parameter.rule = .percentage →
        a.parameter.rate ≠ none) := by
  unfold parameterFaults
  simp only [List.append_eq_nil_iff, faultIf_eq_nil_iff, and_assoc, ← Rule.needsRate_iff,
    ← key?_isSome_iff]
  refine and_congr ?_ (and_congr ?_ ?_)
  · cases a.parameter.rule.needsReference <;> simp
  · by_cases hrule : a.parameter.rule = .cashBeginning
    · rcases a.parameter.references with _ | ⟨r, rest⟩
      · cases chart.key? .cashTotal <;> simp [hrule]
      · simp
    · simp [hrule]
  · cases a.parameter.rule.needsRate <;> simp [Option.isSome_iff_ne_none]

theorem itemFaults_eq_nil_iff : itemFaults a = [] ↔
    (a.isCashFlowItem = true → Item a) ∧
      (a.isCashFlowItem = false → a.parameter.rule.isCashFlowOnly = false) := by
  unfold itemFaults
  cases hitem : a.isCashFlowItem with
  | false => simp [faultIf_eq_nil_iff]
  | true =>
      simp only [if_true, List.append_eq_nil_iff, faultIf_eq_nil_iff]
      constructor
      · rintro ⟨⟨⟨hrule, hadjustment⟩, hprofit⟩, hfeeds⟩
        refine ⟨fun _ => ⟨?_, by simpa using hadjustment, hprofit, hfeeds⟩, nofun⟩
        split at hrule
        · cases hrule
        · rename_i hset
          rw [faultIf_eq_nil_iff] at hrule
          by_cases hnone : a.parameter.rule = .none
          · exact .inr ⟨hnone, by simpa [hnone] using hset⟩
          · exact .inl (by simpa [hnone] using hrule)
      · rintro ⟨hitem, -⟩
        obtain ⟨hderived, hadjustment, hprofit, hfeeds⟩ := hitem trivial
        refine ⟨⟨⟨?_, by simp [hadjustment]⟩, hprofit⟩, hfeeds⟩
        rcases hderived with honly | ⟨hnone, htotal⟩
        · have hne : a.parameter.rule ≠ .none := by
            intro hnone
            rw [hnone] at honly
            cases honly
          simp [hne, honly, faultIf]
        · simp [hnone, htotal, faultIf]

theorem adjustmentFaults_eq_nil_iff (hnodup : (chart.accounts.map Account.id).Nodup) :
    chart.adjustmentFaults a = [] ↔ ∀ adjustment, a.adjustment = some adjustment →
      ∃ b ∈ chart.accounts, b.id = adjustment.target ∧ b.nature = .stock ∧ b.side ≠ none := by
  unfold adjustmentFaults
  rcases a.adjustment with _ | adjustment
  · simp
  · simp only [Option.some.injEq, forall_eq']
    rcases htarget : chart.account? adjustment.target with _ | target
    · constructor
      · exact nofun
      · rintro ⟨b, hb, hid, -⟩
        rw [← hid, account?_eq_of_mem hnodup hb] at htarget
        cases htarget
    · obtain ⟨hmem, hid⟩ := mem_of_account? htarget
      dsimp only
      rw [faultIf_eq_nil_iff, Bool.not_eq_false', isBalance_iff]
      constructor
      · exact fun hbalance => ⟨target, hmem, hid, hbalance⟩
      · rintro ⟨b, hb, hsame, hbalance⟩
        rw [← hsame, account?_eq_of_mem hnodup hb] at htarget
        exact Option.some.inj htarget ▸ hbalance

theorem relationFaults_eq_nil_iff : chart.relationFaults a = [] ↔
    (∀ relation, a.relation = some relation → ∀ link ∈ relation.links, chart.Has link.account) ∧
      (a.relation ≠ none → a.nature = .stock) := by
  unfold relationFaults
  rw [List.append_eq_nil_iff, unknown_eq_nil_iff, faultIf_eq_nil_iff]
  rcases a.relation with _ | relation
  · simp
  · simp [Account.isStock]

theorem accountFaults_eq_nil_iff (hnodup : (chart.accounts.map Account.id).Nodup)
    (ha : a ∈ chart.accounts) : chart.accountFaults a = [] ↔ chart.Fits a := by
  have hfeeds : (a.feedsCashFlow && !a.isBalance) = false ↔
      (a.feedsCashFlow = true → a.nature = .stock ∧ a.side ≠ none) := by
    rw [← isBalance_iff]
    cases a.feedsCashFlow <;> simp
  unfold accountFaults
  simp only [List.append_eq_nil_iff, parentFaults_eq_nil_iff hnodup ha, unknown_eq_nil_iff,
    List.forall_mem_map, totalFaults_eq_nil_iff, parameterFaults_eq_nil_iff, itemFaults_eq_nil_iff,
    adjustmentFaults_eq_nil_iff hnodup, faultIf_eq_nil_iff, hfeeds, relationFaults_eq_nil_iff]
  constructor
  · rintro ⟨⟨⟨⟨⟨⟨⟨⟨hparent, hacyclic⟩, hreferences⟩, hterms, htotal⟩, hreferenced, hcash, hrate⟩,
      hitem, hother⟩, hadjustment⟩, hfeeds⟩, hlinks, hrelation⟩
    exact ⟨hparent, hacyclic, hreferences, hterms, htotal, hreferenced, hcash, hrate, hitem, hother,
      hadjustment, hfeeds, hlinks, hrelation⟩
  · intro h
    exact ⟨⟨⟨⟨⟨⟨⟨⟨h.parent, h.acyclic⟩, h.references⟩, h.terms, h.total⟩, h.referenced, h.cash,
      h.rate⟩, h.item, h.other⟩, h.adjustment⟩, h.feeds⟩, h.links, h.relation⟩

theorem faults_eq_nil_iff : chart.faults = [] ↔ (chart.accounts.map Account.id).Nodup ∧
    (chart.accounts.filterMap Account.key).Nodup ∧ ∀ a ∈ chart.accounts, chart.Fits a := by
  unfold faults
  rw [List.append_eq_nil_iff, List.append_eq_nil_iff, duplicateAccounts_eq_nil_iff,
    takenKeys_eq_nil_iff, List.flatMap_eq_nil_iff]
  constructor
  · rintro ⟨⟨hnodup, hkeys, -⟩, haccounts⟩
    exact ⟨hnodup, hkeys, fun a ha => (accountFaults_eq_nil_iff hnodup ha).1 (haccounts a ha)⟩
  · rintro ⟨hnodup, hkeys, haccounts⟩
    exact ⟨⟨hnodup, hkeys, fun _ _ => rfl⟩,
      fun a ha => (accountFaults_eq_nil_iff hnodup ha).2 (haccounts a ha)⟩

end Chart

namespace Model

variable {m : Model α}

/-! ### Periods -/

theorem pairwise_of_sharedOrders {periods : List Period}
    (hsorted : periods.Pairwise fun p later => p.order ≤ later.order)
    (h : (sharedOrders periods : List (Fault α)) = []) :
    periods.Pairwise fun p later => p.order < later.order := by
  induction periods with
  | nil => exact .nil
  | cons p periods ih =>
      obtain ⟨hfirst, hsorted⟩ := List.pairwise_cons.1 hsorted
      cases periods with
      | nil => exact List.pairwise_singleton _ p
      | cons q periods =>
          unfold sharedOrders at h
          obtain ⟨hshared, hrest⟩ := List.append_eq_nil_iff.1 h
          have hrest := ih hsorted hrest
          have hne : p.order ≠ q.order := by
            simpa using Chart.faultIf_eq_nil_iff.1 hshared
          have hlt : p.order < q.order := by
            have hle := hfirst q List.mem_cons_self
            omega
          refine List.pairwise_cons.2 ⟨fun r hr => ?_, hrest⟩
          rcases List.mem_cons.1 hr with rfl | hr
          · exact hlt
          · exact Int.lt_trans hlt ((List.pairwise_cons.1 hrest).1 r hr)

theorem sharedOrders_eq_nil {periods : List Period}
    (h : periods.Pairwise fun q later => q.order < later.order) :
    (sharedOrders periods : List (Fault α)) = [] := by
  induction h with
  | nil => rfl
  | @cons q periods hfirst _ ih =>
      cases periods with
      | nil => rfl
      | cons r periods =>
          unfold sharedOrders
          have hne : decide (q.order = r.order) = false :=
            decide_eq_false (Int.ne_of_lt (hfirst r List.mem_cons_self))
          rw [ih, Chart.faultIf_eq_nil_iff.2 hne, List.nil_append]

theorem periodFaults_eq_nil_iff : m.periodFaults = [] ↔
    (m.periods.map Period.id).Nodup ∧ (m.periods.map Period.order).Nodup := by
  have hshared : (sharedOrders m.timeline : List (Fault α)) = [] ↔
      (m.periods.map Period.order).Nodup := by
    rw [← Period.pairwise_lt_inOrder_iff]
    exact ⟨pairwise_of_sharedOrders (Period.pairwise_inOrder m.periods), sharedOrders_eq_nil⟩
  unfold periodFaults
  rw [List.append_eq_nil_iff, List.map_eq_nil_iff, repeated_eq_nil_iff, hshared]
  simp

/-! ### Cells -/

/-- A cell is in order if its account and its period are there. -/
theorem cellFaults_eq_nil_iff {key : CellKey} : m.cellFaults key = [] ↔
    (∃ a ∈ m.accounts, a.id = key.account) ∧ ∃ p ∈ m.periods, p.id = key.period := by
  have haccount : (m.chart.account? key.account).isSome = true ↔
      ∃ a ∈ m.accounts, a.id = key.account := by
    simp [Chart.account?, chart]
  have hperiod : (m.period? key.period).isSome = true ↔ ∃ p ∈ m.periods, p.id = key.period := by
    simp [period?]
  rw [← haccount, ← hperiod]
  unfold cellFaults
  rcases m.chart.account? key.account with _ | a
  · simp
  · simp [Chart.faultIf_eq_nil_iff]

/-! ### Models -/

theorem check_eq_ok_iff : m.check = .ok () ↔ m.faults = [] := by
  unfold check
  cases m.faults <;> simp

theorem check_eq_ok_iff_parts : m.check = .ok () ↔ m.chart.faults = [] ∧ m.periodFaults = [] ∧
    ∀ key cell, m.ledger.cell? key = some cell → m.cellFaults key = [] := by
  rw [check_eq_ok_iff]
  simp only [faults, List.append_eq_nil_iff, List.flatMap_eq_nil_iff, and_assoc, Prod.forall,
    Ledger.cell?_eq_some_iff]

/-- **What passes review.** A model passes review exactly if it is well-formed. -/
theorem check_eq_ok_iff_wellFormed : m.check = .ok () ↔ m.WellFormed := by
  rw [check_eq_ok_iff_parts, Chart.faults_eq_nil_iff, periodFaults_eq_nil_iff]
  simp only [cellFaults_eq_nil_iff]
  constructor
  · rintro ⟨⟨hids, hkeys, haccounts⟩, ⟨hperiods, horders⟩, hcells⟩
    exact ⟨hids, hkeys, haccounts, hperiods, horders, hcells⟩
  · intro h
    exact ⟨⟨h.accountIds, h.keyLines, h.accounts⟩, ⟨h.periodIds, h.periodOrders⟩, h.cells⟩

end Model

end ProForma
