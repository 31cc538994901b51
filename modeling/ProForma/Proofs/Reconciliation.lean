import ProForma.Ledger.Lemmas
import ProForma.Proofs.Chart.Indirect
import ProForma.Proofs.CashLines
import ProForma.Proofs.Timeline
import ProForma.Reconciliation

/-!
# The indirect method and the balance sheet

A reconciliation of cash takes up what all other balances on the sheet change by, if these follow
their formulas. So with the reconciled cash debits less credits are what they were in the period
before, and a sheet that was balanced stays balanced.
-/

namespace ProForma

/-- What a ledger holds for the accounts of a period. -/
def Ledger.amounts {α : Type} [Zero α] (ledger : Ledger α) (period : PeriodId) (id : AccountId) :
    α :=
  ledger.value ⟨id, period⟩

/-! ### Balances that follow their formulas -/

namespace Model

/-- The account has in the period what its formula comes to. -/
def Computes {α : Type} [Amount α] (m : Model α) (i : Nat) (p : Period) (a : Account α) : Prop :=
  ∃ f, m.chart.formula? (Plan.timing p i) a = .ok (some f) ∧
    f.value m.stored i = .ok (m.ledger.value ⟨a.id, p.id⟩)

variable {m : Model ℚ} {i : Nat} {p q : Period} {a : Account ℚ}

theorem Computes.eq_rollForward (hp : m.timeline[i + 1]? = some p) (hq : m.timeline[i]? = some q)
    (himported : p.isImported = false) (hleaf : a.isLeaf = true)
    (hrule : a.parameter.rule = .none) (h : m.Computes (i + 1) p a) :
    m.ledger.amounts p.id a.id = m.ledger.amounts q.id a.id +
      Chart.netFlow (m.ledger.amounts p.id) (m.chart.flowsInto a) := by
  obtain ⟨f, hf, hvalue⟩ := h
  obtain ⟨hstock, -, htotal, hitem⟩ := Account.isLeaf_iff.1 hleaf
  have hprevious : (Plan.timing p (i + 1)).hasPrevious = true := decide_eq_true (Nat.succ_pos i)
  rw [Chart.formula?_eq_rollForward htotal hstock hitem hrule himported hprevious] at hf
  cases hf
  rw [Chart.value_rollForward] at hvalue
  have hcurrent : (m.stored · ((i + 1 : Nat) : Int)) = m.ledger.amounts p.id :=
    funext (stored_of_getElem? hp)
  have hbefore : ((i + 1 : Nat) : Int) - 1 = (i : Nat) := by omega
  rw [hcurrent, hbefore, stored_of_getElem? hq] at hvalue
  exact (Except.ok.inj hvalue).symm

end Model

/-! ### The change of cash -/

namespace Reconciliation

variable {chart : Chart ℚ} {current previous : AccountId → ℚ} {cash profit : Account ℚ}

theorem sum_profits (h : chart.Indirect cash profit) :
    ((profits chart current).map Contribution.amount).sum = current profit.id := by
  unfold profits
  rcases h.profitLine with hprofit | ⟨hnone, hprofit⟩
  · rw [hprofit]
    exact add_zero _
  · rw [hnone, hprofit]
    exact add_zero _

theorem sum_adjustments :
    ((adjustments chart current).map Contribution.amount).sum =
      (chart.adjusters.map (chart.adjustmentCash current)).sum := by
  unfold adjustments
  rw [sum_map_filterMap]
  congr 1
  apply List.map_congr_left
  rintro ⟨a, adjustment⟩ _
  unfold Chart.adjustmentCash
  dsimp only
  cases chart.adjustmentSign adjustment with
  | none => rfl
  | some sign => rfl

theorem sum_changes :
    ((changes chart current previous).map Contribution.amount).sum =
      (chart.cashFeeds.map fun a => a.cashFactor * (current a.id - previous a.id)).sum := by
  unfold changes
  rw [sum_map_filterMap]
  congr 1
  apply List.map_congr_left
  intro a _
  unfold Account.cashFactor
  cases a.cashSign with
  | none => exact (zero_mul _).symm
  | some sign => rfl

variable {m : Model ℚ} {p q : Period}

/-- With a period before, a reconciliation goes from the cash of that period by profit, adjusting
flows and lines of the cash flow. -/
theorem exists_of (hcheck : m.check = .ok ()) (hp : p ∈ m.periods)
    (hq : m.periodBefore? p.id = some q) (h : m.chart.Indirect cash profit) :
    ∃ r, Reconciliation.of m p.id = .ok r ∧ r.period = p.id ∧
      r.ending = m.ledger.amounts q.id cash.id +
        (m.ledger.amounts p.id profit.id +
          (m.chart.adjusters.map (m.chart.adjustmentCash (m.ledger.amounts p.id))).sum +
          (m.chart.cashFeeds.map fun a =>
            a.cashFactor * (m.ledger.amounts p.id a.id - m.ledger.amounts q.id a.id)).sum) := by
  refine ⟨⟨p.id, m.ledger.amounts q.id cash.id, profits m.chart (m.ledger.amounts p.id) ++
    adjustments m.chart (m.ledger.amounts p.id) ++
    changes m.chart (m.ledger.amounts p.id) (m.ledger.amounts q.id)⟩, ?_, rfl, ?_⟩
  · unfold Reconciliation.of Model.period Chart.key
    rw [Model.period?_of_mem hcheck hp, h.cashLine, hq]
    rfl
  · unfold ending change
    dsimp only
    rw [Amount.total_eq_sum, List.map_append, List.map_append, List.sum_append, List.sum_append,
      sum_profits h, sum_adjustments, sum_changes]

/-! ### Writing the cash lines -/

/-- The ledger with amounts written for key lines, where they are classified. -/
def writeLines (chart : Chart ℚ) (period : PeriodId) (lines : List (KeyLine × ℚ))
    (ledger : Ledger ℚ) : Ledger ℚ :=
  lines.foldl
    (fun ledger line => match chart.key? line.1 with
      | some a => ledger.derive ⟨a.id, period⟩ line.2
      | none => ledger)
    ledger

theorem writeLines_eq_foldl (chart : Chart ℚ) (period : PeriodId) (lines : List (KeyLine × ℚ))
    (ledger : Ledger ℚ) :
    writeLines chart period lines ledger = lines.foldl (writeLine chart period) ledger := by
  unfold writeLines writeLine
  congr 1
  ext ledger line : 2
  cases chart.key? line.1 with
  | none => rfl
  | some a => rfl

theorem cell?_writeLines {chart : Chart ℚ} {period : PeriodId} {key : CellKey}
    {lines : List (KeyLine × ℚ)}
    (h : ∀ line ∈ lines, ∀ b, chart.key? line.1 = some b → key ≠ ⟨b.id, period⟩)
    (ledger : Ledger ℚ) :
    (writeLines chart period lines ledger).cell? key = ledger.cell? key := by
  rw [writeLines_eq_foldl]
  exact cell?_foldl_writeLine_of_ne ledger h

/-- The lines of a cash-flow statement other than the cash total, which is written last. -/
def cashLines (r : Reconciliation ℚ) : List (KeyLine × ℚ) :=
  [(.cashBeginningBalance, r.beginning), (.cashChange, r.change), (.cashEndingBalance, r.ending)]

theorem written_eq (r : Reconciliation ℚ) (hcash : m.chart.key? .cashTotal = some cash) :
    r.written m =
      (writeLines m.chart r.period r.cashLines m.ledger).derive ⟨cash.id, r.period⟩ r.ending := by
  rw [written_eq_foldl, writeLines_eq_foldl]
  change (r.cashLines ++ [(KeyLine.cashTotal, r.ending)]).foldl
    (writeLine m.chart r.period) m.ledger = _
  rw [List.foldl_append, List.foldl_cons, List.foldl_nil, writeLine, hcash]

/-- Of the sheet, writing the cash lines changes cash only. -/
theorem amounts_written (r : Reconciliation ℚ) (hcheck : m.check = .ok ())
    (hcash : m.chart.key? .cashTotal = some cash)
    (hlines : ∀ a ∈ m.chart.leaves cash, ∀ line ∈ r.cashLines, a.key ≠ some line.1) {a : Account ℚ}
    (ha : a ∈ m.chart.sheet cash) :
    (r.written m).amounts r.period a.id =
      Function.update (m.ledger.amounts r.period) cash.id r.ending a.id := by
  obtain ⟨hmem, hleaf⟩ := Chart.mem_sheet.1 ha
  rw [r.written_eq hcash]
  unfold Ledger.amounts Ledger.value Ledger.value?
  rw [Ledger.derive, Ledger.cell?_insert]
  by_cases hid : a.id = cash.id
  · rw [hid, if_pos rfl, Function.update_self]
    rfl
  · have hleaf : a ∈ m.chart.leaves cash := Chart.mem_leaves.2 ⟨hmem, hleaf.resolve_right hid, hid⟩
    have hother : (⟨a.id, r.period⟩ : CellKey) ≠ ⟨cash.id, r.period⟩ := fun hkey =>
      hid (congrArg CellKey.account hkey)
    rw [if_neg hother, Function.update_of_ne hid, cell?_writeLines]
    intro line hline b hb hkey
    have hsame : a = b := by
      have hnodup := Chart.nodup_ids_of_faults (Model.chart_faults_of_check hcheck)
      have hbmem : b ∈ m.chart.accounts := List.mem_of_find?_eq_some hb
      exact List.inj_on_of_nodup_map hnodup hmem hbmem (congrArg CellKey.account hkey)
    have hset := List.find?_some hb
    exact hlines a hleaf line hline (hsame ▸ of_decide_eq_true hset)

/-! ### The sheet stays balanced -/

/-- **The indirect method.** If balances roll forward by their formulas in a period that was not
imported, the cash of the period can be reconciled, and with the reconciled cash debits less credits
are what they were in the period before. The same can be read off the ledger in which the cash lines
are written, as long as none of them is a leaf. -/
theorem netDebit_ending (hcheck : m.check = .ok ()) {i : Nat} (hp : m.timeline[i]? = some p)
    (himported : p.isImported = false) (hq : m.periodBefore? p.id = some q)
    (hindirect : m.chart.Indirect cash profit)
    (hcomputes : ∀ a ∈ m.chart.leaves cash, m.chart.RollsForward profit a →
      m.Computes i p a) :
    ∃ r, Reconciliation.of m p.id = .ok r ∧
      Chart.netDebit (m.chart.sheet cash)
          (Function.update (m.ledger.amounts p.id) cash.id r.ending) =
        Chart.netDebit (m.chart.sheet cash) (m.ledger.amounts q.id) ∧
      ((∀ a ∈ m.chart.leaves cash, ∀ line ∈ r.cashLines, a.key ≠ some line.1) →
        Chart.netDebit (m.chart.sheet cash) ((r.written m).amounts p.id) =
          Chart.netDebit (m.chart.sheet cash) (m.ledger.amounts q.id)) := by
  have hfaults := Model.chart_faults_of_check hcheck
  have hnodup := Chart.nodup_ids_of_faults hfaults
  have hcash := hindirect.mem_accounts.1
  obtain ⟨j, rfl, hj⟩ := Model.periodBefore?_eq_some hcheck hp hq
  have hmoves : ∀ a ∈ m.chart.leaves cash, m.chart.RollsForward profit a →
      m.ledger.amounts p.id a.id = m.ledger.amounts q.id a.id +
        Chart.netFlow (m.ledger.amounts p.id) (m.chart.flowsInto a) := by
    intro a ha hkind
    have hleaf := (Chart.mem_leaves.1 ha).2.1
    exact (hcomputes a ha hkind).eq_rollForward hp hj himported hleaf hkind.rule
  have hmem : p ∈ m.periods := Model.mem_timeline.1 (List.mem_of_getElem? hp)
  obtain ⟨r, hr, hperiod, hending⟩ := exists_of hcheck hmem hq hindirect
  rw [← hindirect.sum_leaf_changes hfaults hmoves] at hending
  have hbalance := Chart.netDebit_update hnodup hcash hindirect.cashSide hending
  refine ⟨r, hr, hbalance, fun hlines => ?_⟩
  rw [← hbalance]
  apply Chart.netDebit_congr
  intro a ha
  rw [← hperiod]
  exact r.amounts_written hcheck hindirect.cashLine hlines ha

def dairyCash : Account ℚ :=
  { Account.stock ⟨"cash"⟩ "Cash" .debit with key := some .cashTotal }

def dairyProfit : Account ℚ :=
  { (Account.flow ⟨"profit"⟩ "Profit" : Account ℚ) with key := some .operatingProfit }

def receivables : Account ℚ :=
  { Account.stock ⟨"receivables"⟩ "Receivables" .debit with feedsCashFlow := true }

def payables : Account ℚ :=
  { Account.stock ⟨"payables"⟩ "Payables" .credit with feedsCashFlow := true }

def plant : Account ℚ :=
  { Account.stock ⟨"plant"⟩ "Plant" .debit with
    relation := some (.fixedAsset ⟨"purchases"⟩ ⟨"wear"⟩) }

def loan : Account ℚ :=
  .stock ⟨"loan"⟩ "Loan" .credit

def earnings : Account ℚ :=
  { Account.stock ⟨"earnings"⟩ "Earnings" .credit with
    relation := some (.retainedEarnings ⟨"profit"⟩) }

/-- A dairy that buys plant on a loan and pays a dividend out of its earnings. -/
def dairy : Model ℚ where
  name := "Dairy"
  accounts := [dairyCash, receivables, payables, plant, loan, earnings, dairyProfit,
    { (Account.flow ⟨"purchases"⟩ "Purchases" : Account ℚ) with
      adjustment := some ⟨⟨"plant"⟩, .add, .investing⟩ },
    { (Account.flow ⟨"wear"⟩ "Wear" : Account ℚ) with
      adjustment := some ⟨⟨"plant"⟩, .sub, .operating⟩ },
    { (Account.flow ⟨"borrowing"⟩ "Borrowing" : Account ℚ) with
      adjustment := some ⟨⟨"loan"⟩, .add, .financing⟩ },
    { (Account.flow ⟨"dividend"⟩ "Dividend" : Account ℚ) with
      adjustment := some ⟨⟨"earnings"⟩, .sub, .financing⟩ }]
  periods := [.imported ⟨"2024"⟩ 2024, .plain ⟨"2025"⟩ 2025]
  ledger :=
    let posted : List (String × String × ℚ) :=
      [("cash", "2024", 300), ("receivables", "2024", 1000), ("payables", "2024", 400),
        ("plant", "2024", 5000), ("loan", "2024", 2000), ("earnings", "2024", 3900),
        ("receivables", "2025", 1500), ("payables", "2025", 450), ("profit", "2025", 700),
        ("purchases", "2025", 800), ("wear", "2025", 200), ("borrowing", "2025", 500),
        ("dividend", "2025", 100), ("plant", "2025", 5600), ("loan", "2025", 2500),
        ("earnings", "2025", 4500)]
    posted.foldl
      (fun ledger (account, period, amount) => ledger.derive ⟨⟨account⟩, ⟨period⟩⟩ amount)
      .empty
  settings := { passes := 16, tolerance := 0, carriesForward := true }

theorem mem_leaves_dairy {a : Account ℚ} : a ∈ dairy.chart.leaves dairyCash ↔
    a = receivables ∨ a = payables ∨ a = plant ∨ a = loan ∨ a = earnings := by
  have hleaves : dairy.chart.leaves dairyCash =
      [receivables, payables, plant, loan, earnings] := rfl
  simp [hleaves]

theorem moved_plant : dairy.chart.Moved plant := by
  refine ⟨rfl, rfl, .inr ⟨⟨"purchases"⟩, ⟨"wear"⟩, rfl, ?_, ?_⟩⟩
  · unfold Chart.Adjusts
    decide
  · unfold Chart.Adjusts
    decide

theorem moved_loan : dairy.chart.Moved loan :=
  ⟨rfl, rfl, .inl rfl⟩

theorem retains_earnings : Chart.Retains dairyProfit earnings := by
  refine ⟨rfl, rfl, rfl, rfl, fun adjustment hset => ?_⟩
  cases hset

theorem indirect_dairy : dairy.chart.Indirect dairyCash dairyProfit where
  cashLine := rfl
  cashSide := rfl
  cashChildren := rfl
  profitLine := .inl rfl
  totals := by decide
  leaves := by
    intro a ha
    rcases mem_leaves_dairy.1 ha with rfl | rfl | rfl | rfl | rfl
    · exact .inl ⟨rfl, rfl⟩
    · exact .inl ⟨rfl, rfl⟩
    · exact .inr (.inl moved_plant)
    · exact .inr (.inl moved_loan)
    · exact .inr (.inr retains_earnings)
  retains := by
    have hmem : earnings ∈ dairy.chart.leaves dairyCash := by simp [mem_leaves_dairy]
    refine ⟨earnings, ⟨hmem, retains_earnings⟩, fun a ⟨ha, hretains⟩ => ?_⟩
    rcases mem_leaves_dairy.1 ha with rfl | rfl | rfl | rfl | rfl
    · cases hretains.feeds
    · cases hretains.feeds
    · cases hretains.relation
    · cases hretains.relation
    · rfl
  targets := by
    have htargets : ∀ entry ∈ dairy.chart.adjusters,
        entry.2.target = plant.id ∨ entry.2.target = loan.id ∨ entry.2.target = earnings.id := by
      decide
    intro entry hentry
    rcases htargets entry hentry with htarget | htarget | htarget
    · exact ⟨plant, by simp [mem_leaves_dairy], htarget, .inl moved_plant⟩
    · exact ⟨loan, by simp [mem_leaves_dairy], htarget, .inl moved_loan⟩
    · exact ⟨earnings, by simp [mem_leaves_dairy], htarget, .inr retains_earnings⟩

theorem computes_dairy : ∀ a ∈ dairy.chart.leaves dairyCash,
    dairy.chart.RollsForward dairyProfit a → dairy.Computes 1 (.plain ⟨"2025"⟩ 2025) a := by
  intro a ha hkind
  have hquiet := hkind.feeds
  rcases mem_leaves_dairy.1 ha with rfl | rfl | rfl | rfl | rfl
  · cases hquiet
  · cases hquiet
  · exact ⟨_, rfl, eq_ok_of_toOption (by decide +kernel)⟩
  · exact ⟨_, rfl, eq_ok_of_toOption (by decide +kernel)⟩
  · exact ⟨_, rfl, eq_ok_of_toOption (by decide +kernel)⟩

theorem netDebit_dairy :
    dairy.check = .ok () ∧ dairy.chart.Indirect dairyCash dairyProfit ∧
    ∃ r, Reconciliation.of dairy ⟨"2025"⟩ = .ok r ∧
      Chart.netDebit (dairy.chart.sheet dairyCash)
          (Function.update (dairy.ledger.amounts ⟨"2025"⟩) ⟨"cash"⟩ r.ending) =
        Chart.netDebit (dairy.chart.sheet dairyCash) (dairy.ledger.amounts ⟨"2024"⟩) ∧
      Chart.netDebit (dairy.chart.sheet dairyCash) ((r.written dairy).amounts ⟨"2025"⟩) =
        Chart.netDebit (dairy.chart.sheet dairyCash) (dairy.ledger.amounts ⟨"2024"⟩) := by
  have hcheck : dairy.check = .ok () := rfl
  have hp : dairy.timeline[1]? = some (.plain ⟨"2025"⟩ 2025) := rfl
  have hq : dairy.periodBefore? ⟨"2025"⟩ = some (.imported ⟨"2024"⟩ 2024) := rfl
  obtain ⟨r, hr, hending, hwritten⟩ :=
    netDebit_ending hcheck hp rfl hq indirect_dairy computes_dairy
  refine ⟨hcheck, indirect_dairy, r, hr, hending, hwritten ?_⟩
  have hkeys : ∀ a ∈ dairy.chart.leaves dairyCash, a.key = none := by decide
  intro a ha line _ hkey
  rw [hkeys a ha] at hkey
  cases hkey

end Reconciliation

end ProForma
