import ProForma.Proofs.CashLines
import ProForma.Proofs.CashRun

/-!
# What a reconciliation reads

In its period a reconciliation reads the accounts that contribute to the change of cash. Of the
period before it reads balances, but it writes nothing there. So where no cash line contributes, it
reads nothing that it writes, and when it is done again it comes to the same.
-/

namespace ProForma.Reconciliation

variable {α : Type} [Amount α] {m : Model α} {chart : Chart α} {id : PeriodId}
  {r : Reconciliation α}

/-! ### What is read -/

/-- The account has a part in the change of cash: by an adjustment, as a base profit where there is
no operating profit, or as a balance that feeds the cash flow. -/
def Contributes (chart : Chart α) (a : Account α) : Prop :=
  a.adjustment ≠ none ∨ (a.isBaseProfit = true ∧ chart.key? .operatingProfit = none) ∨
    a ∈ chart.cashFeeds

section Congruence

variable {current current' : AccountId → α}

omit [Amount α] in
theorem profits_congr
    (h : ∀ a ∈ chart.accounts, Contributes chart a ∨ chart.key? .operatingProfit = some a →
      current' a.id = current a.id) :
    profits chart current' = profits chart current := by
  unfold profits
  apply List.map_congr_left
  intro a ha
  have hread : current' a.id = current a.id := by
    cases hprofit : chart.key? .operatingProfit with
    | some profit =>
        rw [hprofit] at ha
        obtain rfl : a = profit := List.mem_singleton.1 ha
        exact h a (List.mem_of_find?_eq_some hprofit) (.inr hprofit)
    | none =>
        rw [hprofit] at ha
        obtain ⟨hmem, hbase⟩ := List.mem_filter.1 ha
        exact h a hmem (.inl (.inr (.inl ⟨hbase, hprofit⟩)))
  rw [hread]

theorem adjustments_congr
    (h : ∀ a ∈ chart.accounts, Contributes chart a → current' a.id = current a.id) :
    adjustments chart current' = adjustments chart current := by
  unfold adjustments
  apply List.filterMap_congr
  rintro ⟨a, adjustment⟩ hentry
  obtain ⟨b, hb, hset⟩ := List.mem_filterMap.1 hentry
  obtain ⟨adjustment', hadjustment, heq⟩ := Option.map_eq_some_iff.1 hset
  cases heq
  have hcontributes : Contributes chart a := .inl (hadjustment ▸ Option.some_ne_none _)
  dsimp only
  rw [h a hb hcontributes]

theorem changes_congr
    (h : ∀ a ∈ chart.accounts, Contributes chart a → current' a.id = current a.id) :
    changes chart current' = changes chart current := by
  funext previous
  unfold changes
  apply List.filterMap_congr
  intro a ha
  rw [h a (List.mem_of_mem_filter ha) (.inr (.inr ha))]

end Congruence

omit [Amount α] in
theorem id_of_period {p : Period} (h : m.period id = .ok p) : p.id = id := by
  unfold Model.period at h
  rcases hfound : m.period? id with _ | q <;> rw [hfound] at h <;> cases h
  simpa using List.find?_some hfound

theorem period_eq_of (h : Reconciliation.of m id = .ok r) : r.period = id := by
  obtain ⟨p, hp, h⟩ := bind_eq_ok.1 h
  obtain ⟨cash, -, h⟩ := bind_eq_ok.1 h
  cases h
  exact id_of_period hp

theorem exists_cash_of (h : Reconciliation.of m id = .ok r) :
    ∃ cash, m.chart.key? .cashTotal = some cash := by
  obtain ⟨p, -, h⟩ := bind_eq_ok.1 h
  obtain ⟨cash, hcash, -⟩ := bind_eq_ok.1 h
  unfold Chart.key at hcash
  split at hcash
  · rename_i a ha
    exact ⟨a, ha⟩
  · cases hcash

omit [Amount α] in
/-- The period before is another period. -/
theorem id_ne_of_periodBefore? (hcheck : m.check = .ok ()) {q : Period}
    (hq : m.periodBefore? id = some q) : q.id ≠ id := by
  intro hsame
  obtain ⟨p, hp, hlatest⟩ := Option.bind_eq_some_iff.1 hq
  obtain ⟨hmem, hearlier⟩ := List.mem_filter.1 (Period.latest?_eq_some hlatest).1
  rw [← hsame, Model.period?_of_mem hcheck hmem] at hp
  obtain rfl : q = p := Option.some.inj hp
  exact lt_irrefl _ (of_decide_eq_true hearlier)

/-- In its period a reconciliation reads the accounts that contribute and the operating profit, and
no others. -/
theorem of_withLedger (hcheck : m.check = .ok ()) {ledger : Ledger α}
    (hother : ∀ key : CellKey, key.period ≠ id → ledger.cell? key = m.ledger.cell? key)
    (hread : ∀ a ∈ m.accounts, Contributes m.chart a ∨ m.chart.key? .operatingProfit = some a →
      ledger.cell? ⟨a.id, id⟩ = m.ledger.cell? ⟨a.id, id⟩) :
    Reconciliation.of { m with ledger } id = Reconciliation.of m id := by
  have hprevious : (m.periodBefore? id).map (fun q => ledger.amounts q.id) =
      (m.periodBefore? id).map fun q => m.ledger.amounts q.id := by
    apply Option.map_congr
    intro q hq
    funext account
    exact Ledger.value_congr (hother _ (id_ne_of_periodBefore? hcheck hq))
  unfold Reconciliation.of
  change (m.period id >>= _) = (m.period id >>= _)
  rcases hp : m.period id with fault | p
  · rfl
  · change (m.chart.key .cashTotal >>= _) = (m.chart.key .cashTotal >>= _)
    rcases m.chart.key .cashTotal with fault | cash
    · rfl
    · have hcurrent : ∀ a ∈ m.accounts,
          Contributes m.chart a ∨ m.chart.key? .operatingProfit = some a →
            ledger.amounts p.id a.id = m.ledger.amounts p.id a.id := by
        rw [id_of_period hp]
        exact fun a ha hpart => Ledger.value_congr (hread a ha hpart)
      have hprofits : profits m.chart (ledger.amounts p.id) =
          profits m.chart (m.ledger.amounts p.id) := profits_congr hcurrent
      have hadjustments : adjustments m.chart (ledger.amounts p.id) =
          adjustments m.chart (m.ledger.amounts p.id) :=
        adjustments_congr fun a ha hpart => hcurrent a ha (.inl hpart)
      have hchanges : changes m.chart (ledger.amounts p.id) =
          changes m.chart (m.ledger.amounts p.id) :=
        changes_congr fun a ha hpart => hcurrent a ha (.inl hpart)
      change Except.ok (Reconciliation.mk p.id
        (((m.periodBefore? id).map fun q => ledger.amounts q.id).elim 0 (· cash.id))
        (profits m.chart (ledger.amounts p.id) ++ adjustments m.chart (ledger.amounts p.id) ++
          ((m.periodBefore? id).map fun q => ledger.amounts q.id).elim []
            (changes m.chart (ledger.amounts p.id)))) = _
      rw [hprevious, hprofits, hadjustments, hchanges]
      rfl

/-! ### Reading what was written -/

/-- Where no cash line contributes, a reconciliation reads nothing that it has written. -/
theorem of_written (hcheck : m.check = .ok ()) (h : Reconciliation.of m id = .ok r)
    (hlines : ∀ line ∈ r.lines, ∀ a, m.chart.key? line.1 = some a → ¬ Contributes m.chart a) :
    Reconciliation.of { m with ledger := r.written m } id = .ok r := by
  have hperiod := period_eq_of h
  have hfaults := Model.chart_faults_of_check hcheck
  rw [← h]
  refine of_withLedger hcheck (fun key hkey => ?_) fun a ha hpart => ?_
  · exact cell?_written_of_period_ne (hperiod ▸ hkey)
  · apply cell?_written_of_ne
    intro line hline b hb hkey
    have hid : a.id = b.id := congrArg CellKey.account hkey
    rcases hpart with hcontributes | hprofit
    · have hnodup := Chart.nodup_ids_of_faults hfaults
      obtain rfl : a = b :=
        List.inj_on_of_nodup_map hnodup ha (List.mem_of_find?_eq_some hb) hid
      exact hlines line hline a hb hcontributes
    · -- The operating profit is a key line of its own.
      have hne : KeyLine.operatingProfit ≠ line.1 := by
        have hkeys : KeyLine.operatingProfit ∉ r.lines.map Prod.fst := by
          change KeyLine.operatingProfit ∉
            [KeyLine.cashBeginningBalance, .cashChange, .cashEndingBalance, .cashTotal]
          decide
        exact fun hsame => hkeys (hsame ▸ List.mem_map_of_mem hline)
      exact id_ne_of_key? hfaults hprofit hb hne hid

/-- **Four cells.** A reconciliation leaves every cell alone but those of the cash lines in its
period. These hold in the end what it comes to, as derived values. If no cash line contributes to
the change of cash, then reconciling the period again comes to the same and leaves the same
ledger. -/
theorem writes_lines (hcheck : m.check = .ok ()) (h : Reconciliation.of m id = .ok r) :
    (∀ key, (∀ line ∈ r.lines, ∀ a, m.chart.key? line.1 = some a → key ≠ ⟨a.id, id⟩) →
      (r.written m).cell? key = m.ledger.cell? key) ∧
    (∃ cash, m.chart.key? .cashTotal = some cash) ∧
    (∀ line ∈ r.lines, ∀ a, m.chart.key? line.1 = some a →
      (r.written m).cell? ⟨a.id, id⟩ = some ⟨line.2, true⟩) ∧
    ((∀ line ∈ r.lines, ∀ a, m.chart.key? line.1 = some a → ¬ Contributes m.chart a) →
      Reconciliation.of { m with ledger := r.written m } id = .ok r ∧
        r.written { m with ledger := r.written m } = r.written m) := by
  have hfaults := Model.chart_faults_of_check hcheck
  obtain rfl := period_eq_of h
  refine ⟨fun key hkey => cell?_written_of_ne hkey, exists_cash_of h,
    fun line hline a ha => cell?_written_of_line hfaults hline ha, fun hlines => ?_⟩
  exact ⟨of_written hcheck h hlines, written_written hfaults⟩

/-- A stall that has flour in store, buys on credit and pays for an oven, with all cash lines. -/
def stall : Model Float where
  name := "Stall"
  accounts := [
    { Account.cashFlowItem ⟨"opening"⟩ "Cash at the start" (.cashBeginning (some ⟨"cash"⟩)) with
      key := some .cashBeginningBalance },
    { Account.cashFlowItem ⟨"change"⟩ "Change of cash" .cashChange with key := some .cashChange },
    { Account.cashFlowItem ⟨"closing"⟩ "Cash at the end" (.cashEnding [.to ⟨"cash"⟩]) with
      key := some .cashEndingBalance },
    { Account.stock ⟨"cash"⟩ "Cash" .debit with key := some .cashTotal },
    { Account.stock ⟨"flour"⟩ "Flour in store" .debit with feedsCashFlow := true },
    { Account.stock ⟨"bills"⟩ "Bills to pay" .credit with feedsCashFlow := true },
    .stock ⟨"oven"⟩ "Oven" .debit,
    { (Account.flow ⟨"bread"⟩ "Profit on bread" : Account Float) with isBaseProfit := true },
    { (Account.flow ⟨"cake"⟩ "Profit on cake" : Account Float) with isBaseProfit := true },
    { (Account.flow ⟨"fittings"⟩ "Oven fittings" : Account Float) with
      adjustment := some ⟨⟨"oven"⟩, .add, .investing⟩ }]
  periods := [.imported ⟨"2024"⟩ 2024, .plain ⟨"2025"⟩ 2025]
  ledger :=
    let posted : List (String × String × Float) :=
      [("cash", "2024", 40), ("flour", "2024", 12), ("bills", "2024", 5), ("closing", "2024", 40),
        ("flour", "2025", 10.5), ("bills", "2025", 8), ("bread", "2025", 30),
        ("cake", "2025", 6.25), ("fittings", "2025", 20), ("cash", "2025", 1),
        ("change", "2025", 2)]
    posted.foldl
      (fun ledger (account, period, amount) =>
        ledger.insert ⟨⟨account⟩, ⟨period⟩⟩ ⟨amount, false⟩)
      .empty
  settings := Settings.standard

theorem writes_lines_stall : stall.check = .ok () ∧
    ∃ r, Reconciliation.of stall ⟨"2025"⟩ = .ok r ∧
      (r.written stall).cell? ⟨⟨"opening"⟩, ⟨"2025"⟩⟩ = some ⟨40, true⟩ ∧
      (r.written stall).cell? ⟨⟨"change"⟩, ⟨"2025"⟩⟩ = some ⟨20.75, true⟩ ∧
      (r.written stall).cell? ⟨⟨"closing"⟩, ⟨"2025"⟩⟩ = some ⟨60.75, true⟩ ∧
      (r.written stall).cell? ⟨⟨"cash"⟩, ⟨"2025"⟩⟩ = some ⟨60.75, true⟩ ∧
      (r.written stall).cell? ⟨⟨"closing"⟩, ⟨"2024"⟩⟩ = some ⟨40, false⟩ ∧
      Reconciliation.of { stall with ledger := r.written stall } ⟨"2025"⟩ = .ok r ∧
      r.written { stall with ledger := r.written stall } = r.written stall := by
  have hcheck : stall.check = .ok () := rfl
  obtain ⟨r, hr⟩ : ∃ r, Reconciliation.of stall ⟨"2025"⟩ = .ok r := ⟨_, rfl⟩
  have hamounts : r.beginning = 40 ∧ r.change = 20.75 ∧ r.ending = 60.75 := by
    cases hr
    decide +kernel
  obtain ⟨hframe, -, hlines, hagain⟩ := writes_lines hcheck hr
  have hplain : ∀ a ∈ stall.accounts, a.key ≠ none →
      a.adjustment = none ∧ a.isBaseProfit = false ∧ a.feedsCashFlow = false := by decide
  obtain ⟨hbeginning, hchange, hending⟩ := hamounts
  refine ⟨hcheck, r, hr, ?_, ?_, ?_, ?_, ?_, hagain ?_⟩
  · rw [← hbeginning]
    exact hlines (.cashBeginningBalance, r.beginning) (by simp [lines]) _ rfl
  · rw [← hchange]
    exact hlines (.cashChange, r.change) (by simp [lines]) _ rfl
  · rw [← hending]
    exact hlines (.cashEndingBalance, r.ending) (by simp [lines]) _ rfl
  · rw [← hending]
    exact hlines (.cashTotal, r.ending) (by simp [lines]) _ rfl
  · rw [hframe]
    · rfl
    · intro line _ a _ hkey
      have hperiod : (⟨"2024"⟩ : PeriodId) ≠ ⟨"2025"⟩ := by decide
      exact hperiod (congrArg CellKey.period hkey)
  · intro line hline a ha
    have hkey : a.key ≠ none := by
      have hset : a.key = some line.1 := by simpa using List.find?_some ha
      rw [hset]
      exact Option.some_ne_none _
    obtain ⟨hadjustment, hprofit, hfeeds⟩ := hplain a (List.mem_of_find?_eq_some ha) hkey
    rintro (hadjusts | ⟨hbase, -⟩ | hfeed)
    · exact hadjusts hadjustment
    · rw [hprofit] at hbase
      cases hbase
    · have hfeed := List.of_mem_filter hfeed
      rw [hfeeds] at hfeed
      cases hfeed

end ProForma.Reconciliation
