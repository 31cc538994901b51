import ProForma.Proofs.Chart.Flows
import ProForma.Proofs.Formula.Rational
import ProForma.Proofs.Timeline
import ProForma.Reconciliation

/-!
# The change of cash, by formula and by reconciliation

The change of cash is worked out in two places: as the formula of a cash-change line, and as the sum
of the contributions that a reconciliation lists. With rational amounts the two go together term by
term: the formula has a term for every contribution, in the same order, which comes to its amount.
The formula always adds up the base profits, and a reconciliation takes the operating profit where
there is one, so there they need the same accounts to start from.
-/

namespace ProForma

namespace Reconciliation

variable {chart : Chart ℚ} {table : AccountId → Int → ℚ} {position : Int}

/-! ### Terms -/

/-- The term of the formula comes to the amount of the contribution. -/
def ComesTo (table : AccountId → Int → ℚ) (position : Int) (f : Formula ℚ)
    (c : Contribution ℚ) : Prop :=
  f.value table position = .ok c.amount

/-- The formula and the reconciliation start from the same profits: no line is classified as the
operating profit, or it is the one base profit. -/
def SameProfits (chart : Chart ℚ) : Prop :=
  ∀ profit, chart.key? .operatingProfit = some profit → chart.baseProfits = [profit]

theorem baseProfits_comeTo (chart : Chart ℚ) :
    List.Forall₂ (ComesTo table position) (chart.baseProfits.map fun a => .ref a.id 0)
      (chart.baseProfits.map fun a => ⟨a.id, none, table a.id position⟩) := by
  rw [List.forall₂_map_left_iff, List.forall₂_map_right_iff, List.forall₂_same]
  exact fun a _ => Formula.value_ref_zero a.id

theorem profits_comeTo (h : SameProfits chart) :
    List.Forall₂ (ComesTo table position) (chart.baseProfits.map fun a => .ref a.id 0)
      (profits chart (table · position)) := by
  have hprofits : profits chart (table · position) =
      chart.baseProfits.map fun a => ⟨a.id, none, table a.id position⟩ := by
    unfold profits
    cases hkey : chart.key? .operatingProfit with
    | none => rfl
    | some profit => rw [h profit hkey]
  rw [hprofits]
  exact baseProfits_comeTo chart

theorem adjustments_comeTo :
    List.Forall₂ (ComesTo table position)
      (chart.adjusters.filterMap fun (a, adjustment) =>
        (chart.adjustmentSign adjustment).map (Formula.withSign (.ref a.id 0)))
      (adjustments chart (table · position)) := by
  refine List.rel_filterMap (R := Eq) ?_ (List.forall₂_eq_eq_eq ▸ rfl)
  rintro ⟨a, adjustment⟩ _ rfl
  dsimp only
  cases chart.adjustmentSign adjustment with
  | none => exact .none
  | some sign => exact .some (Formula.value_withSign (Formula.value_ref_zero a.id) sign)

theorem changes_comeTo :
    List.Forall₂ (ComesTo table position)
      (chart.cashFeeds.filterMap fun a => a.cashSign.map (Formula.withSign (.change a.id)))
      (changes chart (table · position) (table · (position - 1))) := by
  refine List.rel_filterMap (R := Eq) ?_ (List.forall₂_eq_eq_eq ▸ rfl)
  rintro a _ rfl
  dsimp only
  cases a.cashSign with
  | none => exact .none
  | some sign => exact .some (Formula.value_withSign (Formula.value_change a.id) sign)

/-- The formula of a cash change is a sum with a term for each contribution. -/
theorem cashChangeFormula_comesTo (h : SameProfits chart) :
    ∃ fs, chart.cashChangeFormula = .sum fs ∧
      List.Forall₂ (ComesTo table position) fs
        (profits chart (table · position) ++ adjustments chart (table · position) ++
          changes chart (table · position) (table · (position - 1))) :=
  ⟨_, rfl, List.rel_append (List.rel_append (profits_comeTo h) adjustments_comeTo) changes_comeTo⟩

theorem value_sum_of_comesTo {fs : List (Formula ℚ)} {r : Reconciliation ℚ}
    (h : List.Forall₂ (ComesTo table position) fs r.contributions) :
    (Formula.sum fs).value table position = .ok r.change := by
  rw [Formula.value_sum (List.forall₂_map_right_iff.2 h), change, Amount.total_eq_sum,
    List.sum_eq_foldl]

variable {m : Model ℚ} {p : Period} {a : Account ℚ}

theorem formula?_cashChange (hfaults : chart.faults = []) (ha : a ∈ chart.accounts)
    (hrule : a.parameter.rule = .cashChange) {timing : Timing}
    (hprevious : timing.hasPrevious = true) :
    chart.formula? timing a = .ok (some chart.cashChangeFormula) := by
  have htotal : a.total = none :=
    Chart.total_eq_none_of_rule hfaults ha (by rw [hrule]; decide)
  have hitem : a.isCashFlowItem = true :=
    Chart.isCashFlowItem_of_rule hfaults ha (by rw [hrule]; rfl)
  unfold Chart.formula? Chart.ruleFormula
  rw [htotal]
  simp only [hitem, hrule, hprevious, Bool.not_true, Bool.and_false, Bool.false_eq_true, if_false,
    if_true]
  rfl

/-- **One change of cash.** In a period with one before it, a cash-change line has a formula and the
cash of the period can be reconciled. The formula is a sum with a term for each contribution, in
order, that comes to its amount, and it comes to the change of the reconciliation. -/
theorem cashChange_eq_change (hcheck : m.check = .ok ()) {cash : Account ℚ}
    (hcash : m.chart.key? .cashTotal = some cash) (hprofits : SameProfits m.chart) {i : Nat}
    (hp : m.timeline[i + 1]? = some p) (ha : a ∈ m.accounts)
    (hrule : a.parameter.rule = .cashChange) :
    ∃ r fs, Reconciliation.of m p.id = .ok r ∧
      m.chart.formula? (Plan.timing p (i + 1)) a = .ok (some (.sum fs)) ∧
      (Formula.sum fs).value m.stored (i + 1 : Nat) = .ok r.change ∧
      List.Forall₂ (fun f c => f.value m.stored (i + 1 : Nat) = .ok c.amount) fs
        r.contributions := by
  obtain ⟨q, hq⟩ : ∃ q, m.timeline[i]? = some q := by
    have hi := (List.getElem?_eq_some_iff.1 hp).1
    exact ⟨_, List.getElem?_eq_getElem (by omega)⟩
  -- The position before is that of the period before.
  have hbefore : m.periodBefore? p.id = some q := (Model.periodBefore?_of_succ hcheck hp).trans hq
  have hposition : ((i + 1 : Nat) : Int) - 1 = (i : Nat) := by omega
  obtain ⟨fs, hformula, hterms⟩ : ∃ fs, m.chart.cashChangeFormula = .sum fs ∧
      List.Forall₂ (ComesTo m.stored (i + 1 : Nat)) fs _ := cashChangeFormula_comesTo hprofits
  rw [hposition, funext (Model.stored_of_getElem? hp), funext (Model.stored_of_getElem? hq)]
    at hterms
  have hmem : p ∈ m.periods := Model.mem_timeline.1 (List.mem_of_getElem? hp)
  refine ⟨⟨p.id, m.ledger.value ⟨cash.id, q.id⟩, _⟩, fs, ?_, ?_, value_sum_of_comesTo hterms,
    hterms⟩
  · unfold Reconciliation.of Model.period Chart.key
    rw [Model.period?_of_mem hcheck hmem, hcash, hbefore]
    rfl
  · rw [← hformula]
    exact formula?_cashChange (Model.chart_faults_of_check hcheck) ha hrule
      (decide_eq_true (Nat.succ_pos i))

/-- A ferry that carries on credit, owes for its fuel and pays back a loan. -/
def ferry : Model ℚ where
  name := "Ferry"
  accounts := [
    { Account.stock ⟨"cash"⟩ "Cash" .debit with key := some .cashTotal },
    { Account.stock ⟨"fares"⟩ "Fares due" .debit with feedsCashFlow := true },
    { Account.stock ⟨"fuel"⟩ "Fuel owed" .credit with feedsCashFlow := true },
    .stock ⟨"loan"⟩ "Loan" .credit,
    { (Account.flow ⟨"profit"⟩ "Profit" : Account ℚ) with
      key := some .operatingProfit, isBaseProfit := true },
    { (Account.flow ⟨"payback"⟩ "Payback" : Account ℚ) with
      adjustment := some ⟨⟨"loan"⟩, .sub, .financing⟩ },
    .cashFlowItem ⟨"change"⟩ "Change of cash" .cashChange]
  periods := [.plain ⟨"2025"⟩ 2025, .imported ⟨"2024"⟩ 2024]
  ledger :=
    let posted : List (String × String × ℚ) :=
      [("fares", "2024", 100), ("fuel", "2024", 40), ("fares", "2025", 150), ("fuel", "2025", 60),
        ("profit", "2025", 300), ("payback", "2025", 80)]
    posted.foldl
      (fun ledger (account, period, amount) => ledger.derive ⟨⟨account⟩, ⟨period⟩⟩ amount)
      .empty
  settings := { passes := 16, tolerance := 0, carriesForward := true }

theorem cashChange_ferry :
    ferry.check = .ok () ∧ (ferry.chart.key? .cashTotal).isSome = true ∧ SameProfits ferry.chart ∧
    ∃ r fs, Reconciliation.of ferry ⟨"2025"⟩ = .ok r ∧ r.change = 190 ∧
      ferry.chart.cashChangeFormula = .sum fs ∧
      (Formula.sum fs).value ferry.stored 1 = .ok 190 ∧
      List.Forall₂ (fun f c => f.value ferry.stored 1 = .ok c.amount) fs r.contributions := by
  have hcheck : ferry.check = .ok () := rfl
  have hprofits : SameProfits ferry.chart := by
    intro profit hprofit
    cases hprofit
    rfl
  have hp : ferry.timeline[0 + 1]? = some (.plain ⟨"2025"⟩ 2025) := rfl
  have ha : Account.cashFlowItem ⟨"change"⟩ "Change of cash" .cashChange ∈ ferry.accounts := by
    simp [ferry]
  obtain ⟨r, fs, hr, hformula, hvalue, hterms⟩ :=
    cashChange_eq_change hcheck rfl hprofits hp ha rfl
  have hchange : r.change = 190 := by
    cases hr
    decide +kernel
  rw [hchange] at hvalue
  exact ⟨hcheck, rfl, hprofits, r, fs, hr, hchange, Option.some.inj (Except.ok.inj hformula),
    hvalue, hterms⟩

end Reconciliation

end ProForma
