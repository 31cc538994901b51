import Mathlib.Tactic.Ring
import ProForma.Proofs.Chart.Flows
import ProForma.Proofs.Review

/-!
# Charts for the indirect method

Three places of the library say how flows and balances count: the formula that rolls a stock
forward, the adjusting flows of a cash flow, and its changes of balances. If every balance other
than cash is either a line of the cash flow or moved by adjusting flows and profit, the three agree:
the changes of the balances, counted as cash, add up to what the cash flow consists of.
-/

namespace ProForma

variable {α : Type}

/-! ### Leaves -/

namespace Account

/-- A balance on the sheet that does not follow from other accounts altogether. -/
def isLeaf (a : Account α) : Bool :=
  a.isBalance && !a.isDerived

theorem isLeaf_iff {a : Account α} : a.isLeaf = true ↔
    a.isStock = true ∧ a.side.isSome = true ∧ a.total = none ∧ a.isCashFlowItem = false := by
  simp [isLeaf, isBalance, isDerived, and_assoc]

/-- What an increase by one counts as cash. -/
def cashFactor (a : Account ℚ) : ℚ :=
  a.cashSign.elim 0 Sign.amount

end Account

namespace Chart

def netDebit (accounts : List (Account ℚ)) (amount : AccountId → ℚ) : ℚ :=
  ((accounts.filter (·.side = some .debit)).map (amount ·.id)).sum -
    ((accounts.filter (·.side = some .credit)).map (amount ·.id)).sum

theorem netDebit_eq (accounts : List (Account ℚ)) (amount : AccountId → ℚ) :
    netDebit accounts amount = -(accounts.map fun a => a.cashFactor * amount a.id).sum := by
  induction accounts with
  | nil => simp [netDebit]
  | cons a accounts ih =>
      unfold netDebit at ih ⊢
      rw [List.map_cons, List.sum_cons, neg_add, ← ih, Account.cashFactor, Account.cashSign]
      cases hside : a.side with
      | none => simp [hside]
      | some side =>
          cases side with
          | debit =>
              simp [hside, Side.cashSign, Sign.amount]
              ring
          | credit =>
              simp [hside, Side.cashSign, Sign.amount]
              ring

theorem netDebit_congr {accounts : List (Account ℚ)} {amount amount' : AccountId → ℚ}
    (h : ∀ a ∈ accounts, amount a.id = amount' a.id) :
    netDebit accounts amount = netDebit accounts amount' := by
  rw [netDebit_eq, netDebit_eq]
  congr 2
  apply List.map_congr_left
  intro a ha
  rw [h a ha]

/-- The leaves other than cash. -/
def leaves (chart : Chart α) (cash : Account α) : List (Account α) :=
  chart.accounts.filter fun a => a.isLeaf && a.id ≠ cash.id

/-- The accounts that a balance sheet is made up of: cash and the leaves. -/
def sheet (chart : Chart α) (cash : Account α) : List (Account α) :=
  chart.accounts.filter fun a => a.isLeaf || a.id = cash.id

theorem mem_leaves {chart : Chart α} {cash a : Account α} :
    a ∈ chart.leaves cash ↔ a ∈ chart.accounts ∧ a.isLeaf = true ∧ a.id ≠ cash.id := by
  simp [leaves]

theorem mem_sheet {chart : Chart α} {cash a : Account α} :
    a ∈ chart.sheet cash ↔ a ∈ chart.accounts ∧ (a.isLeaf = true ∨ a.id = cash.id) := by
  simp [sheet]

theorem perm_sheet {chart : Chart α} (hnodup : (chart.accounts.map Account.id).Nodup)
    {cash : Account α} (hcash : cash ∈ chart.accounts) :
    (chart.sheet cash).Perm (cash :: chart.leaves cash) := by
  have haccounts : chart.accounts.Nodup := hnodup.of_map
  have hout : cash ∉ chart.leaves cash := by simp [mem_leaves]
  refine (List.perm_ext_iff_of_nodup (haccounts.filter _)
    (List.nodup_cons.2 ⟨hout, haccounts.filter _⟩)).2 fun a => ?_
  change a ∈ chart.sheet cash ↔ a ∈ cash :: chart.leaves cash
  rw [mem_sheet, List.mem_cons, mem_leaves]
  by_cases hid : a.id = cash.id
  · have hsame : a ∈ chart.accounts ↔ a = cash := by
      constructor
      · exact fun ha => List.inj_on_of_nodup_map hnodup ha hcash hid
      · rintro rfl
        exact hcash
    simp [hid, hsame]
  · have hne : a ≠ cash := fun hsame => hid (congrArg Account.id hsame)
    simp [hid, hne]

theorem netDebit_sheet {chart : Chart ℚ} (hnodup : (chart.accounts.map Account.id).Nodup)
    {cash : Account ℚ} (hcash : cash ∈ chart.accounts) (hside : cash.side = some .debit)
    (amount : AccountId → ℚ) :
    netDebit (chart.sheet cash) amount =
      amount cash.id - ((chart.leaves cash).map fun a => a.cashFactor * amount a.id).sum := by
  have hfactor : cash.cashFactor = -1 := by
    rw [Account.cashFactor, Account.cashSign, hside]
    rfl
  have hperm := (perm_sheet hnodup hcash).map fun a => a.cashFactor * amount a.id
  rw [netDebit_eq, hperm.sum_eq, List.map_cons, List.sum_cons, hfactor]
  ring

/-- If cash takes up what the leaves change by, debits less credits stay as they are. -/
theorem netDebit_update {chart : Chart ℚ} (hnodup : (chart.accounts.map Account.id).Nodup)
    {cash : Account ℚ} (hcash : cash ∈ chart.accounts) (hside : cash.side = some .debit)
    {amount before : AccountId → ℚ} {ending : ℚ}
    (hending : ending = before cash.id +
      ((chart.leaves cash).map fun a => a.cashFactor * (amount a.id - before a.id)).sum) :
    netDebit (chart.sheet cash) (Function.update amount cash.id ending) =
      netDebit (chart.sheet cash) before := by
  have hleaves : ((chart.leaves cash).map fun a =>
      a.cashFactor * Function.update amount cash.id ending a.id).sum =
        ((chart.leaves cash).map fun a => a.cashFactor * (amount a.id - before a.id)).sum +
          ((chart.leaves cash).map fun a => a.cashFactor * before a.id).sum := by
    rw [← List.sum_map_add]
    congr 1
    apply List.map_congr_left
    intro a ha
    rw [Function.update_of_ne (mem_leaves.1 ha).2.2]
    ring
  rw [netDebit_sheet hnodup hcash hside, netDebit_sheet hnodup hcash hside, hleaves, hending,
    Function.update_self]
  ring

/-! ### The indirect method -/

/-- The change of the balance is a line of the cash flow, and no flow adjusts it. -/
structure Fed (chart : Chart α) (a : Account α) : Prop where
  feeds : a.feedsCashFlow = true
  unadjusted : chart.adjustersOf a.id = []

/-- The flow adjusts the balance. -/
def Adjusts (chart : Chart α) (flow : AccountId) (a : Account α) : Prop :=
  ∃ entry ∈ chart.adjustersOf a.id, entry.1.id = flow

/-- The balance moves by the flows that adjust it. -/
structure Moved (chart : Chart α) (a : Account α) : Prop where
  rule : a.parameter.rule = .none
  feeds : a.feedsCashFlow = false
  relation : a.relation = none ∨ ∃ investment depreciation,
    a.relation = some (.fixedAsset investment depreciation) ∧
      chart.Adjusts investment a ∧ chart.Adjusts depreciation a

/-- The balance retains profit, which does not adjust it. -/
structure Retains (profit a : Account α) : Prop where
  side : a.side = some .credit
  rule : a.parameter.rule = .none
  feeds : a.feedsCashFlow = false
  relation : a.relation = some (.retainedEarnings profit.id)
  apart : ∀ adjustment, profit.adjustment = some adjustment → adjustment.target ≠ a.id

/-- The balance rolls forward by its formula. -/
def RollsForward (chart : Chart α) (profit a : Account α) : Prop :=
  chart.Moved a ∨ Retains profit a

theorem RollsForward.rule {chart : Chart α} {profit a : Account α}
    (h : chart.RollsForward profit a) : a.parameter.rule = .none := by
  rcases h with hmoved | hretains
  · exact hmoved.rule
  · exact hretains.rule

theorem RollsForward.feeds {chart : Chart α} {profit a : Account α}
    (h : chart.RollsForward profit a) : a.feedsCashFlow = false := by
  rcases h with hmoved | hretains
  · exact hmoved.feeds
  · exact hretains.feeds

/-- The indirect method accounts for every change on the sheet: each leaf feeds the cash flow or is
moved by adjustments, but for one that retains the profit. -/
structure Indirect (chart : Chart α) (cash profit : Account α) : Prop where
  cashLine : chart.key? .cashTotal = some cash
  cashSide : cash.side = some .debit
  cashChildren : chart.children cash.id = []
  profitLine : chart.key? .operatingProfit = some profit ∨
    chart.key? .operatingProfit = none ∧ chart.baseProfits = [profit]
  totals : ∀ a ∈ chart.accounts, a.total.isSome = true → a.feedsCashFlow = false
  leaves : ∀ a ∈ chart.leaves cash, chart.Fed a ∨ chart.RollsForward profit a
  retains : ∃! a, a ∈ chart.leaves cash ∧ Retains profit a
  targets : ∀ entry ∈ chart.adjusters, ∃ a ∈ chart.leaves cash,
    entry.2.target = a.id ∧ chart.RollsForward profit a

end Chart

/-! ### What moves a leaf -/

namespace Chart

variable {chart : Chart ℚ} {amount before : AccountId → ℚ} {a : Account ℚ}

def adjustmentCash (chart : Chart ℚ) (amount : AccountId → ℚ) (entry : Account ℚ × Adjustment) :
    ℚ :=
  (chart.adjustmentSign entry.2).elim 0 fun sign => sign.amount * amount entry.1.id

/-- The flows that adjust a balance count as cash what they do to the balance, by its side. -/
theorem sum_adjustmentCash (ha : chart.account? a.id = some a) (amount : AccountId → ℚ) :
    ((chart.adjustersOf a.id).map (chart.adjustmentCash amount)).sum =
      a.cashFactor * netFlow amount (chart.adjusting a) := by
  unfold netFlow adjusting
  rw [List.map_map, ← List.sum_map_mul_left]
  congr 1
  apply List.map_congr_left
  intro entry hentry
  have htarget : entry.2.target = a.id := of_decide_eq_true (List.mem_filter.1 hentry).2
  unfold adjustmentCash adjustmentSign Account.cashFactor
  rw [htarget, ha, Option.bind_some]
  cases a.cashSign with
  | none => exact (zero_mul _).symm
  | some sign =>
      change (sign * entry.2.operation.sign).amount * _ = sign.amount * (_ * _)
      rw [Sign.amount_mul, mul_assoc]

theorem Moved.flowsInto_eq (h : chart.Moved a) : chart.flowsInto a = chart.adjusting a := by
  apply flowsInto_eq_adjusting
  intro link hlink
  rcases h.relation with hnone | ⟨investment, depreciation, hrelation, hinvestment, hdepreciation⟩
  · rw [hnone] at hlink
    cases hlink
  · rw [hrelation] at hlink
    rcases List.mem_pair.1 hlink with rfl | rfl
    · exact hinvestment
    · exact hdepreciation

theorem Retains.flowsInto_eq {profit : Account ℚ} (h : Retains profit a)
    (hprofit : chart.account? profit.id = some profit)
    (haccount : ∀ b ∈ chart.accounts, chart.account? b.id = some b) :
    chart.flowsInto a = chart.adjusting a ++ [⟨profit.id, .add⟩] := by
  apply flowsInto_retainedEarnings h.relation
  intro entry hentry hid
  obtain ⟨hadjuster, htarget⟩ := List.mem_filter.1 hentry
  obtain ⟨b, hb, hadjustment⟩ := List.mem_filterMap.1 hadjuster
  obtain ⟨adjustment, hset, rfl⟩ := Option.map_eq_some_iff.1 hadjustment
  have hsame : b = profit := by
    have hfound := haccount b hb
    rw [hid, hprofit] at hfound
    exact (Option.some.inj hfound).symm
  exact h.apart adjustment (hsame ▸ hset) (of_decide_eq_true htarget)

namespace Indirect

variable {cash profit : Account ℚ}

theorem mem_accounts (h : chart.Indirect cash profit) :
    cash ∈ chart.accounts ∧ profit ∈ chart.accounts := by
  refine ⟨List.mem_of_find?_eq_some h.cashLine, ?_⟩
  rcases h.profitLine with hprofit | ⟨-, hprofit⟩
  · exact List.mem_of_find?_eq_some hprofit
  · have hmem : profit ∈ chart.baseProfits := by
      rw [hprofit]
      exact List.mem_singleton_self profit
    exact (List.mem_filter.1 hmem).1

theorem cashFeeds_eq (h : chart.Indirect cash profit) (hfaults : chart.faults = []) :
    chart.cashFeeds = (chart.leaves cash).filter fun a => a.feedsCashFlow = true := by
  unfold cashFeeds Chart.leaves
  rw [List.filter_filter]
  apply List.filter_congr
  intro a ha
  cases hfeeds : a.feedsCashFlow with
  | false => rfl
  | true =>
      obtain ⟨hbalance, hitem⟩ := isBalance_of_feeds hfaults ha hfeeds
      have htotal : a.total = none := by
        by_contra hsome
        have hquiet := h.totals a ha (Option.isSome_iff_ne_none.2 hsome)
        rw [hfeeds] at hquiet
        cases hquiet
      obtain ⟨hstock, hside⟩ := Bool.and_eq_true_iff.1 hbalance
      have hleaf : a.isLeaf = true := Account.isLeaf_iff.2 ⟨hstock, hside, htotal, hitem⟩
      have hcash : chart.isCash a.id = decide (a.id = cash.id) := by
        rw [Bool.eq_iff_iff, isCash_iff h.cashLine h.cashChildren, decide_eq_true_iff]
      rw [hstock, hleaf, hcash]
      simp

/-- The change of a leaf counts as cash by one of three ways: as a line of the cash flow, by the
flows that adjust it, and as the profit that it retains. -/
theorem leaf_change (h : chart.Indirect cash profit)
    (haccount : ∀ b ∈ chart.accounts, chart.account? b.id = some b)
    (hmoves : ∀ a ∈ chart.leaves cash, chart.RollsForward profit a →
      amount a.id = before a.id + netFlow amount (chart.flowsInto a))
    {earnings : Account ℚ}
    (hearnings : ∀ a ∈ chart.leaves cash, a.id = earnings.id ↔ Retains profit a)
    (ha : a ∈ chart.leaves cash) :
    a.cashFactor * (amount a.id - before a.id) =
      (if a.feedsCashFlow = true then a.cashFactor * (amount a.id - before a.id) else 0) +
        ((chart.adjustersOf a.id).map (chart.adjustmentCash amount)).sum +
        (if a.id = earnings.id then amount profit.id else 0) := by
  have hfound := haccount a (mem_leaves.1 ha).1
  rcases h.leaves a ha with hfed | hmoved | hretains
  · have hother : ¬ a.id = earnings.id := fun hid => by
      have hquiet := ((hearnings a ha).1 hid).feeds
      rw [hfed.feeds] at hquiet
      cases hquiet
    rw [if_pos hfed.feeds, if_neg hother, hfed.unadjusted, List.map_nil, List.sum_nil]
    ring
  · have hother : ¬ a.id = earnings.id := fun hid => by
      have hrelation := ((hearnings a ha).1 hid).relation
      rcases hmoved.relation with hnone | ⟨investment, depreciation, hfixed, -⟩
      · rw [hnone] at hrelation
        cases hrelation
      · rw [hfixed] at hrelation
        cases hrelation
    have hquiet : ¬ a.feedsCashFlow = true := by simp [hmoved.feeds]
    rw [if_neg hquiet, if_neg hother, sum_adjustmentCash hfound, hmoves a ha (.inl hmoved),
      hmoved.flowsInto_eq]
    ring
  · have hfactor : a.cashFactor = 1 := by
      rw [Account.cashFactor, Account.cashSign, hretains.side]
      rfl
    have hquiet : ¬ a.feedsCashFlow = true := by simp [hretains.feeds]
    have hflow : netFlow amount (chart.adjusting a ++ [⟨profit.id, .add⟩]) =
        netFlow amount (chart.adjusting a) + amount profit.id := by
      simp [netFlow, Operation.sign, Sign.amount]
    rw [if_neg hquiet, if_pos ((hearnings a ha).2 hretains), sum_adjustmentCash hfound,
      hmoves a ha (.inr hretains),
      hretains.flowsInto_eq (haccount profit h.mem_accounts.2) haccount, hflow, hfactor]
    ring

theorem sum_feeds (h : chart.Indirect cash profit) (hfaults : chart.faults = [])
    (change : Account ℚ → ℚ) :
    ((chart.leaves cash).map fun a => if a.feedsCashFlow = true then change a else 0).sum =
      (chart.cashFeeds.map change).sum := by
  rw [List.sum_map_ite, List.sum_map_zero, add_zero, h.cashFeeds_eq hfaults]

/-- Every adjusting flow adjusts one of the leaves. -/
theorem sum_adjusters (h : chart.Indirect cash profit)
    (hids : ((chart.leaves cash).map Account.id).Nodup) (amount : AccountId → ℚ) :
    ((chart.leaves cash).map fun a =>
      ((chart.adjustersOf a.id).map (chart.adjustmentCash amount)).sum).sum =
        (chart.adjusters.map (chart.adjustmentCash amount)).sum := by
  have hgroup : ∀ entry ∈ chart.adjusters,
      entry.2.target ∈ (chart.leaves cash).map Account.id := by
    intro entry hentry
    obtain ⟨a, ha, htarget, -⟩ := h.targets entry hentry
    rw [htarget]
    exact List.mem_map_of_mem ha
  rw [← sum_groups hids hgroup, List.map_map]
  rfl

/-- Profit, adjusting flows and lines of the cash flow account for the changes of all leaves. -/
theorem sum_leaf_changes (h : chart.Indirect cash profit) (hfaults : chart.faults = [])
    (hmoves : ∀ a ∈ chart.leaves cash, chart.RollsForward profit a →
      amount a.id = before a.id + netFlow amount (chart.flowsInto a)) :
    ((chart.leaves cash).map fun a => a.cashFactor * (amount a.id - before a.id)).sum =
      amount profit.id + (chart.adjusters.map (chart.adjustmentCash amount)).sum +
        (chart.cashFeeds.map fun a => a.cashFactor * (amount a.id - before a.id)).sum := by
  have hnodup := nodup_ids_of_faults hfaults
  have haccount : ∀ b ∈ chart.accounts, chart.account? b.id = some b :=
    fun b hb => account?_eq_of_mem hnodup hb
  have hids : ((chart.leaves cash).map Account.id).Nodup :=
    hnodup.sublist (List.filter_sublist.map Account.id)
  obtain ⟨earnings, ⟨hmem, hretains⟩, hunique⟩ := h.retains
  have hearnings : ∀ a ∈ chart.leaves cash, a.id = earnings.id ↔ Retains profit a := by
    intro a ha
    constructor
    · intro hid
      rwa [List.inj_on_of_nodup_map hids ha hmem hid]
    · intro ha'
      rw [hunique a ⟨ha, ha'⟩]
  have hprofit : ((chart.leaves cash).map fun a =>
      if a.id = earnings.id then amount profit.id else 0).sum = amount profit.id := by
    have hsingle := sum_map_ite_single hids (List.mem_map_of_mem hmem) (amount profit.id)
    rwa [List.map_map] at hsingle
  calc ((chart.leaves cash).map fun a => a.cashFactor * (amount a.id - before a.id)).sum
      = ((chart.leaves cash).map fun a =>
          (if a.feedsCashFlow = true then a.cashFactor * (amount a.id - before a.id) else 0) +
            ((chart.adjustersOf a.id).map (chart.adjustmentCash amount)).sum +
            (if a.id = earnings.id then amount profit.id else 0)).sum := by
        rw [List.map_congr_left fun a ha => h.leaf_change haccount hmoves hearnings ha]
    _ = (chart.cashFeeds.map fun a => a.cashFactor * (amount a.id - before a.id)).sum +
          (chart.adjusters.map (chart.adjustmentCash amount)).sum + amount profit.id := by
        rw [List.sum_map_add, List.sum_map_add, h.sum_feeds hfaults, h.sum_adjusters hids, hprofit]
    _ = _ := by ring

end Indirect

end Chart

end ProForma
