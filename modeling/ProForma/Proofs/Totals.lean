import ProForma.Proofs.Formula.Value
import ProForma.Proofs.Refresh

/-!
# Totals of a refreshed model

In a refreshed model every summary line has what it is made of, in every period and all at once:
settling leaves no line behind that a later one has put out of date. Lines whose formula fails have
no say in this, and values that are no numbers count as the same.
-/

namespace ProForma

variable {α : Type} [Amount α]

/-- The amounts compare equal, or neither of them is a number. -/
def Amount.Matches (x y : α) : Prop :=
  (x == y) = true ∨ (x == x) = false ∧ (y == y) = false

theorem Amount.matches_self (x : α) : Amount.Matches x x := by
  unfold Amount.Matches
  cases x == x with
  | true => exact .inl rfl
  | false => exact .inr ⟨rfl, rfl⟩

/-- The ledger has a derived value that matches the amount. -/
def Ledger.Shows (ledger : Ledger α) (key : CellKey) (x : α) : Prop :=
  ∃ cell, ledger.cell? key = some cell ∧ cell.isCalculated = true ∧ Amount.Matches cell.value x

theorem Ledger.Holds.shows {ledger : Ledger α} {key : CellKey} {x : α} (h : ledger.Holds key x) :
    ledger.Shows key x := by
  rcases h with hagrees | hcell
  · unfold Plan.agrees at hagrees
    obtain ⟨cell, hcell, hsame⟩ := (Option.any_eq_true _ _).1 hagrees
    obtain ⟨hvalue, hcalculated⟩ := Bool.and_eq_true_iff.1 hsame
    exact ⟨cell, hcell, hcalculated, .inl hvalue⟩
  · exact ⟨⟨x, true⟩, hcell, rfl, Amount.matches_self x⟩

omit [Amount α] in
theorem Account.isDerived_of_total {a : Account α} {total : Total} (h : a.total = some total) :
    a.isDerived = true := by
  rw [isDerived, h]
  rfl

namespace Model

variable {m m' : Model α}

/-- Every summary line and cash-flow item of the model has the value of its formula, if it has one
that evaluates: a total of children their sum, and a total of terms what they combine to. -/
structure Totalled (m : Model α) : Prop where
  formula {i : Nat} {p : Period} {a : Account α} {f : Formula α} {x : α} :
    m.timeline[i]? = some p → a ∈ m.accounts → a.isDerived = true →
    m.chart.formula? (Plan.timing p i) a = .ok (some f) → f.value m.stored i = .ok x →
    m.ledger.Shows ⟨a.id, p.id⟩ x
  ofChildren {p : Period} {a : Account α} : p ∈ m.periods → a ∈ m.accounts →
    a.total = some .ofChildren → m.chart.children a.id ≠ [] →
    m.ledger.Shows ⟨a.id, p.id⟩
      (((m.chart.children a.id).map fun child => m.ledger.value ⟨child.id, p.id⟩).foldl (· + ·) 0)
  ofTerms {p : Period} {a : Account α} {terms : List Term} {x : α} : p ∈ m.periods →
    a ∈ m.accounts → a.total = some (.ofTerms terms) →
    Term.combined? (fun id => m.ledger.value ⟨id, p.id⟩) terms = some x →
    m.ledger.Shows ⟨a.id, p.id⟩ x

/-- Totals follow from the formulas that stand for them. -/
theorem totalled_of_formula (hformula : ∀ (i : Nat) (p : Period) (a : Account α) (f : Formula α)
      (x : α), m.timeline[i]? = some p → a ∈ m.accounts → a.isDerived = true →
      m.chart.formula? (Plan.timing p i) a = .ok (some f) → f.value m.stored i = .ok x →
      m.ledger.Shows ⟨a.id, p.id⟩ x) : m.Totalled := by
  refine ⟨fun {i p a f x} => hformula i p a f x, ?_, ?_⟩
  · intro p a hp ha htotal hchildren
    obtain ⟨i, hi⟩ := exists_position hp
    have hderived := Account.isDerived_of_total htotal
    refine hformula i p a (.sum ((m.chart.children a.id).map fun child => .ref child.id 0)) _ hi ha
      hderived ?_ (Formula.value_sum ?_)
    · unfold Chart.formula? Chart.totalFormula?
      rw [htotal]
      dsimp only
      split
      · contradiction
      · rfl
    · rw [List.forall₂_map_left_iff, List.forall₂_map_right_iff, List.forall₂_same]
      intro child _
      rw [Formula.value_ref_zero, stored_of_getElem? hi]
  · intro p a terms x hp ha htotal hcombined
    obtain ⟨i, hi⟩ := exists_position hp
    have hderived := Account.isDerived_of_total htotal
    obtain ⟨f, hf⟩ : ∃ f, Formula.ofTerms?
        (terms.map fun t => (t.operation, (.ref t.account 0 : Formula α))) = some f := by
      cases terms with
      | nil => cases hcombined
      | cons t terms => exact ⟨_, rfl⟩
    refine hformula i p a f x hi ha hderived ?_ (eq_ok_of_toOption ?_)
    · unfold Chart.formula? Chart.totalFormula?
      rw [htotal]
      exact congrArg Except.ok hf
    · rw [Formula.toOption_value_ofTerms? hf, ← hcombined]
      congr 1
      ext account
      exact stored_of_getElem? hi account

/-- **Settled totals.** If there may be a sweep at all, refreshing a model changes its ledger only,
and leaves all of its summary lines and cash-flow items with what they are made of. -/
theorem refresh_totalled (hcheck : m.check = .ok ()) (hpasses : 1 ≤ m.settings.passes)
    (h : m.refresh.result = .ok m') : m' = { m with ledger := m'.ledger } ∧ m'.Totalled := by
  obtain ⟨plan, hof⟩ := exists_plan_of_refresh hcheck h
  obtain ⟨filled, -, hsettle, hsame⟩ := (refresh_eq_ok_iff hcheck hof).1 h
  refine ⟨hsame, totalled_of_formula ?_⟩
  have hplan := Plan.reviewed_of hcheck hof
  obtain ⟨-, hchart, htimeline, hsettings⟩ := Plan.of_eq_ok_iff.1 hof
  have hchart' : plan.chart = m'.chart := by rw [hchart, hsame]; rfl
  have htimeline' : plan.timeline = m'.timeline := by rw [htimeline, hsame]; rfl
  have hsettled := Plan.settled_settle hplan (by rwa [hsettings]) hsettle
  intro i p a f x hi ha hderived hf hx
  have hline : ({ period := p, position := i, account := a } : Line α) ∈
      plan.lines plan.timeline.zipIdx := by
    refine (Plan.mem_lines_zipIdx hplan).2 ⟨?_, ?_, hderived⟩
    · rwa [htimeline']
    · rwa [hchart']
  rw [← hchart'] at hf
  rw [← stored_eq htimeline'] at hx
  have hholds := (Plan.settled_iff_of_formula? hf).1 (hsettled _ hline)
  rw [hx] at hholds
  exact Ledger.Holds.shows hholds

/-- What the first site of the mill makes is no less beyond all bounds in the later year, and the
second one makes what it made. -/
def millRefreshed : Ledger Float :=
  ((((((((((Plan.mill.ledger.derive ⟨⟨"gap"⟩, ⟨"2024"⟩⟩ (0 / 0)).derive
    ⟨⟨"sites"⟩, ⟨"2024"⟩⟩ (1 / 0)).derive ⟨⟨"grand"⟩, ⟨"2024"⟩⟩ (0 / 0)).derive
    ⟨⟨"yield"⟩, ⟨"2024"⟩⟩ (1 / 0)).derive ⟨⟨"north"⟩, ⟨"2025"⟩⟩ (1 / 0)).derive
    ⟨⟨"south"⟩, ⟨"2025"⟩⟩ 100).derive ⟨⟨"gap"⟩, ⟨"2025"⟩⟩ (0 / 0)).derive
    ⟨⟨"sites"⟩, ⟨"2025"⟩⟩ (1 / 0)).derive ⟨⟨"grand"⟩, ⟨"2025"⟩⟩ (0 / 0)).derive
    ⟨⟨"yield"⟩, ⟨"2025"⟩⟩ (1 / 0))

theorem refresh_mill :
    Plan.mill.check = .ok () ∧ 1 ≤ Plan.mill.settings.passes ∧
    Plan.mill.refresh.result = .ok { Plan.mill with ledger := millRefreshed } ∧
    ({ Plan.mill with ledger := millRefreshed } : Model Float).Totalled := by
  have hcheck := Plan.check_mill
  have hpasses : 1 ≤ Plan.mill.settings.passes := by decide
  have hledger : (Plan.mill.refresh.result.map Model.ledger).toOption = some millRefreshed := by
    decide +kernel
  rcases hrefresh : Plan.mill.refresh.result with fault | refreshed
  · rw [hrefresh] at hledger
    cases hledger
  · rw [hrefresh] at hledger
    obtain ⟨hsame, htotalled⟩ := refresh_totalled hcheck hpasses hrefresh
    rw [Option.some.inj hledger] at hsame
    rw [hsame] at htotalled
    exact ⟨hcheck, hpasses, congrArg Except.ok hsame, htotalled⟩

end Model

end ProForma
