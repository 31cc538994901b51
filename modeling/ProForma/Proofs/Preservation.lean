import ProForma.Proofs.Refresh
import ProForma.Revision

/-!
# What refreshing leaves alone

Filling in computes values of forecast periods, but none where one was entered. Settling writes
summary lines and cash-flow items, whether their period was imported or not, and whatever was
entered for them. So history and entered values of all other accounts survive a refresh, and an
entered value of a summary line does unless the line has a formula that evaluates.
-/

namespace ProForma

variable {α : Type} [Amount α]

/-! ### What either pass writes -/

namespace Plan

open Chart Formula Ledger

variable {plan : Plan α} {ledger filled settled : Ledger α} {line : Line α} {key : CellKey}
  {x y : α}

/-- Filling in writes derived values of forecast periods where none was entered. -/
theorem exists_open_of_fillAfresh (hplan : plan.Reviewed)
    (hfill : plan.fillAfresh ledger = .ok filled) (hkey : filled.cell? key ≠ ledger.cell? key) :
    ∃ line, plan.Stands line ∧ line.key = key ∧ line.period.isImported = false ∧
      ledger.isEntered key = false ∧ ∃ x, filled.cell? key = some ⟨x, true⟩ := by
  obtain ⟨⟨a, ha, haccount⟩, p, hp, hperiod⟩ := known_of_fillAfresh hplan hfill hkey
  obtain ⟨i, hi⟩ := List.mem_iff_getElem?.1 hp
  obtain rfl : key = ⟨a.id, p.id⟩ := by rw [haccount, hperiod]
  have himported : p.isImported = false := by
    by_contra himported
    rw [Bool.not_eq_false] at himported
    exact hkey (cell?_fillAfresh_of_isImported hplan hfill hi himported a.id)
  have hentered : ledger.isEntered ⟨a.id, p.id⟩ = false := by
    by_contra hentered
    rw [Bool.not_eq_false] at hentered
    exact hkey (cell?_fillAfresh_of_isEntered hplan hfill hi himported hentered)
  obtain ⟨x, hcell, -⟩ := exists_follows_of_fillAfresh hplan hfill hi himported ha hentered
  exact ⟨⟨p, i, a⟩, ⟨hi, hplan.account a ha⟩, rfl, himported, hentered, x, hcell⟩

/-- Settling writes summary lines and cash-flow items, and the values that they should have. -/
theorem exists_asked_of_settle (hplan : plan.Reviewed)
    (hsettle : (plan.settle ledger).result = .ok settled)
    (hkey : settled.cell? key ≠ ledger.cell? key) :
    ∃ line, plan.Stands line ∧ line.key = key ∧ line.account.isDerived = true ∧
      1 ≤ plan.settings.passes ∧
      ∃ x, plan.asked settled line = .ok (some x) ∧ settled.cell? key = some ⟨x, true⟩ := by
  rcases Nat.eq_zero_or_pos plan.settings.passes with hzero | hpasses
  · rw [Pass.result, Pass.outcome, run_settle_of_zero hzero] at hsettle
    cases hsettle
    exact absurd rfl hkey
  · rw [result_settle hplan hpasses] at hsettle
    have hplaces := plan.places_zipIdx
    have hstands : ∀ line ∈ plan.lines plan.timeline.zipIdx, plan.Stands line := fun line hline =>
      stands_of_mem_lines hplaces hline
    obtain ⟨line, hline, hsame, x, hasked, hcell⟩ := exists_asked_of_settleLines hplan hstands
      (pairwise_lines hplan hplaces) hsettle hkey
    obtain ⟨-, -, hderived⟩ := (mem_lines_zipIdx hplan).1 hline
    exact ⟨line, hstands line hline, hsame, hderived, hpasses, x, hasked, hcell⟩

/-- The two passes write derived values of forecast periods where none was entered, and of summary
lines and cash-flow items. -/
theorem exists_written (hplan : plan.Reviewed) (hfill : plan.fillAfresh ledger = .ok filled)
    (hsettle : (plan.settle filled).result = .ok settled)
    (hkey : settled.cell? key ≠ ledger.cell? key) :
    ∃ line, plan.Stands line ∧ line.key = key ∧ (line.account.isDerived = true ∨
      line.period.isImported = false ∧ ledger.isEntered key = false) ∧
      ∃ x, settled.cell? key = some ⟨x, true⟩ := by
  by_cases hsettled : settled.cell? key = filled.cell? key
  · rw [hsettled] at hkey ⊢
    obtain ⟨line, hstands, hsame, himported, hentered, hcell⟩ :=
      exists_open_of_fillAfresh hplan hfill hkey
    exact ⟨line, hstands, hsame, .inr ⟨himported, hentered⟩, hcell⟩
  · obtain ⟨line, hstands, hsame, hderived, -, x, -, hcell⟩ :=
      exists_asked_of_settle hplan hsettle hsettled
    exact ⟨line, hstands, hsame, .inl hderived, x, hcell⟩

/-! ### Entered values of lines -/

theorem cell?_fillAfresh_of_entered (hplan : plan.Reviewed)
    (hfill : plan.fillAfresh ledger = .ok filled) (hentered : ledger.cell? key = some ⟨x, false⟩) :
    filled.cell? key = some ⟨x, false⟩ := by
  rw [← hentered]
  by_contra hkey
  obtain ⟨-, -, -, -, hopen, -⟩ := exists_open_of_fillAfresh hplan hfill hkey
  rw [isEntered_of_cell? hentered] at hopen
  cases hopen

/-- What was entered for a line does not count as derived, so it never agrees with the value that
the line should have, be it the same. -/
theorem cell?_settle_of_asked (hplan : plan.Reviewed) (hpasses : 1 ≤ plan.settings.passes)
    (hsettle : (plan.settle ledger).result = .ok settled) (hstands : plan.Stands line)
    (hderived : line.account.isDerived = true) (hentered : ledger.cell? line.key = some ⟨x, false⟩)
    (hasked : plan.asked settled line = .ok (some y)) :
    settled.cell? line.key = some ⟨y, true⟩ := by
  rw [result_settle hplan hpasses] at hsettle
  have hplaces := plan.places_zipIdx
  have hline : line ∈ plan.lines plan.timeline.zipIdx :=
    (mem_lines_zipIdx hplan).2 ⟨hstands.period, (mem_of_account? hstands.account).1, hderived⟩
  rw [cell?_of_settleLines hplan (fun _ h => stands_of_mem_lines hplaces h)
    (pairwise_lines hplan hplaces) hsettle hline, hentered, hasked]
  simp [settledCell]

end Plan

/-! ### History and entered values -/

namespace Model

open Plan

variable {m m' : Model α} {plan : Plan α}

/-- The second model has the ledger of the first one with derived values written over it, but none
of them in imported periods and over entered values, except on summary lines and cash-flow items. -/
structure Preserves (m m' : Model α) : Prop where
  frame : m' = { m with ledger := m'.ledger }
  kept {key : CellKey} {cell : Cell α} : m.ledger.cell? key = some cell →
    ∃ cell', m'.ledger.cell? key = some cell'
  imported {a : Account α} {p : Period} : a ∈ m.accounts → a.isDerived = false → p ∈ m.periods →
    p.isImported = true → m'.ledger.cell? ⟨a.id, p.id⟩ = m.ledger.cell? ⟨a.id, p.id⟩
  entered {a : Account α} {period : PeriodId} : a ∈ m.accounts → a.isDerived = false →
    m.ledger.isEntered ⟨a.id, period⟩ = true →
    m'.ledger.cell? ⟨a.id, period⟩ = m.ledger.cell? ⟨a.id, period⟩
  written {key : CellKey} : m'.ledger.cell? key ≠ m.ledger.cell? key →
    ∃ a ∈ m.accounts, ∃ p ∈ m.periods, key = ⟨a.id, p.id⟩ ∧
      (a.isDerived = true ∨ p.isImported = false ∧ m.ledger.isEntered key = false) ∧
      ∃ x, m'.ledger.cell? key = some ⟨x, true⟩

omit [Amount α] in
/-- What is written decides about all that is left alone. -/
theorem preserves_of_written (hcheck : m.check = .ok ())
    (hframe : m' = { m with ledger := m'.ledger })
    (hwritten : ∀ key, m'.ledger.cell? key ≠ m.ledger.cell? key →
      ∃ a ∈ m.accounts, ∃ p ∈ m.periods, key = ⟨a.id, p.id⟩ ∧
        (a.isDerived = true ∨ p.isImported = false ∧ m.ledger.isEntered key = false) ∧
        ∃ x, m'.ledger.cell? key = some ⟨x, true⟩) : m.Preserves m' := by
  -- Identifiers are unique, so a cell that is written tells its account and its period.
  have haccounts : ∀ a ∈ m.accounts, ∀ b ∈ m.accounts, a.id = b.id → a = b := fun _ ha _ hb =>
    List.inj_on_of_nodup_map (Chart.nodup_ids_of_faults (chart_faults_of_check hcheck)) ha hb
  have hperiods : ∀ p ∈ m.periods, ∀ q ∈ m.periods, p.id = q.id → p = q := fun _ hp _ hq =>
    List.inj_on_of_nodup_map (nodup_periods_of_check hcheck).1 hp hq
  refine { frame := hframe, kept := ?kept, imported := ?imported, entered := ?entered,
           written := fun {key} => hwritten key }
  case kept =>
    intro key cell hcell
    by_cases hkey : m'.ledger.cell? key = m.ledger.cell? key
    · exact ⟨cell, hkey.trans hcell⟩
    · obtain ⟨-, -, -, -, -, -, x, hx⟩ := hwritten key hkey
      exact ⟨_, hx⟩
  case imported =>
    intro a p ha hderived hp himported
    by_contra hkey
    obtain ⟨b, hb, q, hq, hsame, hopen, -⟩ := hwritten _ hkey
    obtain rfl := haccounts a ha b hb (congrArg CellKey.account hsame)
    obtain rfl := hperiods p hp q hq (congrArg CellKey.period hsame)
    rcases hopen with hopen | ⟨hopen, -⟩
    · exact Bool.false_ne_true (hderived.symm.trans hopen)
    · exact Bool.false_ne_true (hopen.symm.trans himported)
  case entered =>
    intro a period ha hderived hentered
    by_contra hkey
    obtain ⟨b, hb, q, -, hsame, hopen, -⟩ := hwritten _ hkey
    obtain rfl := haccounts a ha b hb (congrArg CellKey.account hsame)
    rcases hopen with hopen | ⟨-, hopen⟩
    · exact Bool.false_ne_true (hderived.symm.trans hopen)
    · exact Bool.false_ne_true (hopen.symm.trans hentered)

/-- **History and entered values are preserved.** A refresh leaves everything but the ledger, and of
the ledger all imported and entered cells of accounts that are not derived. -/
theorem refresh_preserves (hcheck : m.check = .ok ()) (h : m.refresh.result = .ok m') :
    m.Preserves m' := by
  obtain ⟨plan, hof⟩ := exists_plan_of_refresh hcheck h
  have hplan := reviewed_of hcheck hof
  obtain ⟨-, hchart, htimeline, -⟩ := of_eq_ok_iff.1 hof
  obtain ⟨filled, hfill, hsettle, hframe⟩ := (refresh_eq_ok_iff hcheck hof).1 h
  refine preserves_of_written hcheck hframe fun key hkey => ?_
  obtain ⟨line, hstands, rfl, hopen, hcell⟩ := exists_written hplan hfill hsettle hkey
  obtain ⟨hmem, -⟩ := Chart.mem_of_account? hstands.account
  rw [hchart] at hmem
  have hperiod := List.mem_of_getElem? hstands.period
  rw [htimeline] at hperiod
  exact ⟨line.account, hmem, line.period, mem_timeline.1 hperiod, rfl, hopen, hcell⟩

/-- The school with a value entered for an account in the forecast year. -/
def schoolEntered (account : AccountId) : Model Float :=
  { school ⟨"first"⟩ with
    ledger := (school ⟨"first"⟩).ledger.insert ⟨account, ⟨"2025"⟩⟩ ⟨70, false⟩ }

theorem refresh_preserves_school : (schoolEntered ⟨"first"⟩).check = .ok () ∧
    ∃ m', (schoolEntered ⟨"first"⟩).refresh.result = .ok m' ∧
      (schoolEntered ⟨"first"⟩).Preserves m' ∧
      m'.ledger.cell? ⟨⟨"first"⟩, ⟨"2025"⟩⟩ = some ⟨70, false⟩ ∧
      m'.ledger.cell? ⟨⟨"budget"⟩, ⟨"2024"⟩⟩ = none := by
  have hcheck : (schoolEntered ⟨"first"⟩).check = .ok () := rfl
  obtain ⟨m', hrefresh⟩ : ∃ m', (schoolEntered ⟨"first"⟩).refresh.result = .ok m' :=
    exists_eq_ok_of_isSome (by decide +kernel)
  have hpreserves := refresh_preserves hcheck hrefresh
  refine ⟨hcheck, m', hrefresh, hpreserves, ?_, ?_⟩
  · exact hpreserves.entered (List.mem_of_getElem? (i := 1) rfl) rfl rfl
  · exact hpreserves.imported (p := .imported ⟨"2024"⟩ 2024) (List.mem_of_getElem? (i := 2) rfl) rfl
      List.mem_cons_self rfl

/-! ### Entering a value -/

omit [Amount α] in
/-- A revision that enters a value writes that cell only, and the model with it passes review. -/
theorem of_apply_enter {key : CellKey} {x : α}
    (h : (Revision.ofEdit (.enter key x)).apply m = .ok m') :
    m' = { m with ledger := m.ledger.insert key ⟨x, false⟩ } ∧ m'.check = .ok () := by
  obtain ⟨revised, hedits, h⟩ := bind_eq_ok.1 h
  obtain ⟨⟨⟩, hreview, h⟩ := bind_eq_ok.1 h
  cases h
  obtain ⟨entered, hentered, hlast⟩ := bind_eq_ok.1 hedits
  cases hlast
  obtain ⟨a, -, hentered⟩ := bind_eq_ok.1 hentered
  obtain ⟨p, -, hentered⟩ := bind_eq_ok.1 hentered
  cases hentered
  refine ⟨?_, hreview⟩
  dsimp only [Revision.ofEdit]
  rw [List.append_nil]

/-- Settling brings a summary line or a cash-flow item to the amount: there is a sweep that does,
and the account has a formula, which comes to the amount. -/
def Settles (m : Model α) (i : Nat) (p : Period) (a : Account α) (y : α) : Prop :=
  a.isDerived = true ∧ 1 ≤ m.settings.passes ∧
    ∃ f, m.chart.formula? (Plan.timing p i) a = .ok (some f) ∧ f.value m.stored i = .ok y

variable {m₁ m₂ : Model α}

/-- A line of the plan of a model is settled by what the ledger of the model asks for. -/
theorem settles_iff (hof : Plan.of m = .ok plan) (line : Line α) {y : α} :
    m.Settles line.position line.period line.account y ↔ line.account.isDerived = true ∧
      1 ≤ plan.settings.passes ∧ plan.asked m.ledger line = .ok (some y) := by
  obtain ⟨-, hchart, htimeline, hsettings⟩ := of_eq_ok_iff.1 hof
  rw [asked_eq_some_iff, hchart, hsettings, stored_eq htimeline]
  rfl

/-- **Entered values survive a refresh**, unless they are of a summary line or a cash-flow item that
has a formula, and its formula evaluates. Such a line is settled, whatever was entered for it. -/
theorem enter_refresh {key : CellKey} {x : α}
    (henter : (Revision.ofEdit (.enter key x)).apply m = .ok m₁)
    (hrefresh : m₁.refresh.result = .ok m₂) :
    ∃ a ∈ m.accounts, ∃ i p, m.timeline[i]? = some p ∧ key = ⟨a.id, p.id⟩ ∧
      ((∀ y, ¬ m₂.Settles i p a y) → m₂.ledger.cell? key = some ⟨x, false⟩) ∧
      ∀ y, m₂.Settles i p a y → m₂.ledger.cell? key = some ⟨y, true⟩ := by
  obtain ⟨rfl, hcheck⟩ := of_apply_enter henter
  obtain ⟨plan, hof⟩ := exists_plan_of_refresh hcheck hrefresh
  have hplan := reviewed_of hcheck hof
  obtain ⟨-, hchart, htimeline, -⟩ := of_eq_ok_iff.1 hof
  obtain ⟨filled, hfill, hsettle, hframe⟩ := (refresh_eq_ok_iff hcheck hof).1 hrefresh
  have hof₂ : Plan.of m₂ = .ok plan := by
    rw [hframe]
    exact hof
  have hentered : (m.ledger.insert key ⟨x, false⟩).cell? key = some ⟨x, false⟩ := by
    rw [Ledger.cell?_insert, if_pos rfl]
  -- Filling in leaves what was entered, so it is all up to settling.
  have hfilled := cell?_fillAfresh_of_entered hplan hfill hentered
  obtain ⟨-, -, hcells⟩ := check_eq_ok_iff_parts.1 hcheck
  obtain ⟨⟨a, ha, haccount⟩, p, hp, hperiod⟩ := cellFaults_eq_nil_iff.1 (hcells key _ hentered)
  obtain ⟨i, hi⟩ := exists_position hp
  obtain rfl : key = ⟨a.id, p.id⟩ := by rw [haccount, hperiod]
  have hstands : plan.Stands ⟨p, i, a⟩ :=
    ⟨by rw [htimeline]; exact hi, hplan.account a (by rw [hchart]; exact ha)⟩
  refine ⟨a, ha, i, p, hi, rfl, fun hfree => ?_, fun y hy => ?_⟩
  · rw [← hfilled]
    by_contra hkey
    obtain ⟨line, hline, hsame, hderived, hpasses, y, hasked, -⟩ :=
      exists_asked_of_settle hplan hsettle hkey
    obtain rfl := hplan.line_eq hline hstands hsame
    exact hfree y ((settles_iff hof₂ ⟨p, i, a⟩).2 ⟨hderived, hpasses, hasked⟩)
  · obtain ⟨hderived, hpasses, hasked⟩ := (settles_iff hof₂ ⟨p, i, a⟩).1 hy
    exact cell?_settle_of_asked hplan hpasses hsettle hstands hderived hfilled hasked

theorem enter_refresh_first :
    ∃ m₂, (Revision.ofEdit (.enter ⟨⟨"first"⟩, ⟨"2025"⟩⟩ 70)).apply (school ⟨"first"⟩) =
        .ok (schoolEntered ⟨"first"⟩) ∧ (schoolEntered ⟨"first"⟩).refresh.result = .ok m₂ ∧
      m₂.ledger.cell? ⟨⟨"first"⟩, ⟨"2025"⟩⟩ = some ⟨70, false⟩ := by
  have henter : (Revision.ofEdit (.enter ⟨⟨"first"⟩, ⟨"2025"⟩⟩ 70)).apply (school ⟨"first"⟩) =
      .ok (schoolEntered ⟨"first"⟩) := rfl
  obtain ⟨m₂, hrefresh⟩ : ∃ m₂, (schoolEntered ⟨"first"⟩).refresh.result = .ok m₂ :=
    exists_eq_ok_of_isSome (by decide +kernel)
  obtain ⟨a, ha, i, p, -, hkey, hkept, -⟩ := enter_refresh henter hrefresh
  refine ⟨m₂, henter, hrefresh, hkept ?_⟩
  have hplain : ∀ a ∈ (school ⟨"first"⟩).accounts, a.id = ⟨"first"⟩ → a.isDerived = false := by
    decide
  rintro y ⟨hderived, -⟩
  rw [hplain a ha (congrArg CellKey.account hkey).symm] at hderived
  cases hderived

/-- What was entered for all classes gives way to their total. -/
theorem enter_refresh_classes :
    (school ⟨"first"⟩).check = .ok () ∧
    (Revision.ofEdit (.enter ⟨⟨"classes"⟩, ⟨"2025"⟩⟩ 70)).apply (school ⟨"first"⟩) =
      .ok (schoolEntered ⟨"classes"⟩) ∧
    ∃ m₂, (schoolEntered ⟨"classes"⟩).refresh.result = .ok m₂ ∧
      m₂.ledger.cell? ⟨⟨"classes"⟩, ⟨"2025"⟩⟩ = some ⟨100, true⟩ ∧
      m₂.ledger.cell? ⟨⟨"classes"⟩, ⟨"2025"⟩⟩ ≠ some ⟨70, false⟩ := by
  refine ⟨rfl, rfl, ?_⟩
  have hcell : ((schoolEntered ⟨"classes"⟩).refresh.result.map
      (·.ledger.cell? ⟨⟨"classes"⟩, ⟨"2025"⟩⟩)).toOption = some (some ⟨100, true⟩) := by
    decide +kernel
  rcases hrefresh : (schoolEntered ⟨"classes"⟩).refresh.result with fault | m₂
  · rw [hrefresh] at hcell
    cases hcell
  · rw [hrefresh] at hcell
    have hderived : m₂.ledger.cell? ⟨⟨"classes"⟩, ⟨"2025"⟩⟩ = some ⟨100, true⟩ :=
      Option.some.inj hcell
    exact ⟨m₂, rfl, hderived, by simp [hderived]⟩

end Model

end ProForma
