import ProForma.Proofs.Forecast
import ProForma.Proofs.Plan.Fixpoint
import ProForma.Proofs.Timeline

/-!
# Refreshing twice

Refreshing goes one way: values are filled in first, and settling makes totals of them afterwards.
Where filling in has read a total that settling then changes, as happens with totals of imported
periods that are out of date, the next refresh reads another total and comes to another value. Apart
from that, a refreshed model stays as it is.
-/

namespace ProForma.Model

open Plan

variable {α : Type} [Amount α] {m m' : Model α} {plan : Plan α} {filled settled : Ledger α}

/-! ### What refreshing does -/

/-- Refreshing fills in and settles, or fails as the first of them that fails. -/
theorem result_refresh (hcheck : m.check = .ok ()) (hplan : Plan.of m = .ok plan) :
    m.refresh.result = (do
      let filled ← plan.fillAfresh m.ledger
      let ledger ← (plan.settle filled).result
      pure { m with ledger }) := by
  have hreviewed := reviewed_of hcheck hplan
  unfold refresh Pass.result Pass.outcome
  rw [plan_eq_of_check hcheck, hplan, run_bind, run_liftM]
  dsimp only
  rw [run_bind, ← run_fill hreviewed m.ledger []]
  rcases (plan.fill m.ledger).run [] with ⟨fault | filled, warnings⟩
  · rfl
  · dsimp only
    change _ = (do
      let ledger ← (plan.settle filled).result
      pure { m with ledger })
    rw [run_bind, ← run_settle_eq_result hreviewed filled warnings]
    rcases (plan.settle filled).run warnings with ⟨fault | ledger, warnings'⟩
    · rfl
    · rfl

/-- Refreshing checks, plans, fills in and settles. -/
theorem result_refresh_eq_bind (m : Model α) :
    m.refresh.result = (do
      m.check
      let plan ← Plan.of m
      let filled ← plan.fillAfresh m.ledger
      let ledger ← (plan.settle filled).result
      pure { m with ledger }) := by
  rcases hcheck : m.check with fault | ⟨⟩
  · unfold refresh plan
    rw [hcheck]
    rfl
  · rcases hplan : Plan.of m with fault | plan
    · unfold refresh
      rw [plan_eq_of_check hcheck, hplan]
      rfl
    · exact result_refresh hcheck hplan

theorem exists_plan_of_refresh (hcheck : m.check = .ok ()) (h : m.refresh.result = .ok m') :
    ∃ plan, Plan.of m = .ok plan := by
  rcases hplan : Plan.of m with fault | plan
  · unfold refresh Pass.result Pass.outcome at h
    rw [plan_eq_of_check hcheck, hplan] at h
    cases h
  · exact ⟨plan, rfl⟩

theorem refresh_eq_ok_iff (hcheck : m.check = .ok ()) (hplan : Plan.of m = .ok plan) :
    m.refresh.result = .ok m' ↔ ∃ filled, plan.fillAfresh m.ledger = .ok filled ∧
      (plan.settle filled).result = .ok m'.ledger ∧ m' = { m with ledger := m'.ledger } := by
  rw [result_refresh hcheck hplan]
  constructor
  · intro h
    obtain ⟨filled, hfilled, h⟩ := bind_eq_ok.1 h
    obtain ⟨ledger, hsettled, h⟩ := bind_eq_ok.1 h
    cases h
    exact ⟨filled, hfilled, hsettled, rfl⟩
  · rintro ⟨filled, hfilled, hsettled, hm'⟩
    refine bind_eq_ok.2 ⟨filled, hfilled, bind_eq_ok.2 ⟨m'.ledger, hsettled, ?_⟩⟩
    exact congrArg Except.ok hm'.symm

/-- Refreshing changes the ledger only. -/
theorem refresh_eq_ok_of_ledger {ledger : Ledger α} (hcheck : m.check = .ok ())
    (hplan : Plan.of m = .ok plan)
    (h : (m.refresh.result.map Model.ledger).toOption = some ledger) :
    m.refresh.result = .ok { m with ledger } := by
  rcases hrefresh : m.refresh.result with fault | m'
  · rw [hrefresh] at h
    cases h
  · rw [hrefresh] at h
    obtain ⟨-, -, -, hm'⟩ := (refresh_eq_ok_iff hcheck hplan).1 hrefresh
    rw [hm', Option.some.inj h]

/-- A ledger passes review if it differs only in cells of accounts and periods of the plan. -/
theorem check_withLedger_of_known (hcheck : m.check = .ok ()) (hplan : Plan.of m = .ok plan)
    {ledger : Ledger α} (h : ∀ key, ledger.cell? key ≠ m.ledger.cell? key →
      (∃ a ∈ plan.chart.accounts, a.id = key.account) ∧ ∃ p ∈ plan.timeline, p.id = key.period) :
    ({ m with ledger } : Model α).check = .ok () := by
  obtain ⟨-, hchart, htimeline, -⟩ := of_eq_ok_iff.1 hplan
  refine check_withLedger hcheck fun key => ?_
  by_cases hkey : ledger.cell? key = m.ledger.cell? key
  · exact .inl hkey
  · obtain ⟨haccount, p, hp, hid⟩ := h key hkey
    rw [hchart] at haccount
    rw [htimeline, mem_timeline] at hp
    exact .inr (cellFaults_eq_nil_iff.2 ⟨haccount, p, hp, hid⟩)

theorem check_withLedger_of_fill (hcheck : m.check = .ok ()) (hplan : Plan.of m = .ok plan)
    (hfill : plan.fillAfresh m.ledger = .ok filled) :
    ({ m with ledger := filled } : Model α).check = .ok () :=
  check_withLedger_of_known hcheck hplan fun _ hkey =>
    known_of_fillAfresh (reviewed_of hcheck hplan) hfill hkey

theorem check_withLedger_of_settle (hcheck : m.check = .ok ()) (hplan : Plan.of m = .ok plan)
    (hsettle : (plan.settle m.ledger).result = .ok settled) :
    ({ m with ledger := settled } : Model α).check = .ok () :=
  check_withLedger_of_known hcheck hplan fun _ hkey =>
    known_of_settle (reviewed_of hcheck hplan) hsettle hkey

theorem check_withLedger_of_passes (hcheck : m.check = .ok ()) (hplan : Plan.of m = .ok plan)
    (hfill : plan.fillAfresh m.ledger = .ok filled)
    (hsettle : (plan.settle filled).result = .ok settled) :
    ({ m with ledger := settled } : Model α).check = .ok () := by
  have hfilled := check_withLedger_of_fill hcheck hplan hfill
  exact check_withLedger_of_settle (m := { m with ledger := filled }) hfilled hplan hsettle

/-! ### Both passes agree -/

/-- **Both passes agree.** Where no total was entered for a forecast period, and settling leaves the
imported periods as they are, it leaves everything that was filled in, and refreshing once more
changes nothing. -/
theorem settle_agrees_fill (hcheck : m.check = .ok ()) (hplan : Plan.of m = .ok plan)
    (hfill : (plan.fill m.ledger).result = .ok filled)
    (hopen : ∀ p ∈ m.periods, p.isImported = false → ∀ a ∈ m.accounts, a.isDerived = true →
      m.ledger.isEntered ⟨a.id, p.id⟩ = false)
    (hsettle : (plan.settle filled).result = .ok settled)
    (himported : ∀ p ∈ m.periods, p.isImported = true → ∀ account,
      settled.cell? ⟨account, p.id⟩ = filled.cell? ⟨account, p.id⟩) :
    settled = filled ∧ m.refresh.result = .ok { m with ledger := filled } ∧
      ({ m with ledger := filled } : Model α).refresh.result =
        .ok { m with ledger := filled } := by
  have hreviewed := reviewed_of hcheck hplan
  obtain ⟨-, hchart, htimeline, -⟩ := of_eq_ok_iff.1 hplan
  rw [result_fill hreviewed] at hfill
  obtain rfl : settled = filled := by
    refine settle_fillAfresh hreviewed hfill hsettle fun line hline hleft => ?_
    obtain ⟨hposition, haccount, hderived⟩ := (mem_lines_zipIdx hreviewed).1 hline
    rw [hchart] at haccount
    have hperiod : line.period ∈ m.periods := by
      rw [← mem_timeline, ← htimeline]
      exact List.mem_of_getElem? hposition
    cases hforecast : line.period.isImported with
    | true => exact himported line.period hperiod hforecast line.account.id
    | false =>
        have hentered := hleft.resolve_left (by simp [hforecast])
        have hfree := hopen line.period hperiod hforecast line.account haccount hderived
        rw [Line.key, hfree] at hentered
        cases hentered
  refine ⟨rfl, (refresh_eq_ok_iff hcheck hplan).2 ⟨settled, hfill, hsettle, rfl⟩, ?_⟩
  have hcheck' := check_withLedger_of_passes hcheck hplan hfill hsettle
  exact (refresh_eq_ok_iff hcheck' hplan).2
    ⟨settled, fillAfresh_fillAfresh hreviewed hfill, hsettle, rfl⟩

/-- A school with a budget that comes from an account of the year before. For the year that was
imported there is the one class, but no total. -/
def school (basis : AccountId) : Model Float where
  name := "School"
  accounts := [
    { (Account.flow ⟨"classes"⟩ "All classes" : Account Float) with total := some .ofChildren },
    { (Account.flow ⟨"first"⟩ "First class" : Account Float) with parent := some ⟨"classes"⟩ },
    { (Account.flow ⟨"budget"⟩ "Budget" : Account Float) with
      parameter := ⟨.reference, none, [⟨basis, .add, 1⟩]⟩ }]
  periods := [.imported ⟨"2024"⟩ 2024, .plain ⟨"2025"⟩ 2025]
  ledger := Ledger.empty.insert ⟨⟨"first"⟩, ⟨"2024"⟩⟩ ⟨100, false⟩
  settings := Settings.standard

def schoolPlan (basis : AccountId) : Plan Float where
  chart := (school basis).chart
  timeline := (school basis).periods
  settings := (school basis).settings
  order := [⟨"first"⟩, ⟨"classes"⟩, ⟨"budget"⟩]

/-- The school with the total of the imported year. -/
def schoolTotalled (basis : AccountId) : Model Float :=
  { school basis with ledger := (school basis).ledger.derive ⟨⟨"classes"⟩, ⟨"2024"⟩⟩ 100 }

/-- What the other year is filled in with, given its budget. -/
def schoolYear (ledger : Ledger Float) (budget : Float) : Ledger Float :=
  ((ledger.derive ⟨⟨"first"⟩, ⟨"2025"⟩⟩ 100).derive ⟨⟨"classes"⟩, ⟨"2025"⟩⟩ 100).derive
    ⟨⟨"budget"⟩, ⟨"2025"⟩⟩ budget

theorem settle_agrees_school :
    (schoolTotalled ⟨"classes"⟩).check = .ok () ∧
    Plan.of (schoolTotalled ⟨"classes"⟩) = .ok (schoolPlan ⟨"classes"⟩) ∧
    ∃ filled, filled = schoolYear (schoolTotalled ⟨"classes"⟩).ledger 100 ∧
      ((schoolPlan ⟨"classes"⟩).fill (schoolTotalled ⟨"classes"⟩).ledger).result = .ok filled ∧
      ((schoolPlan ⟨"classes"⟩).settle filled).result = .ok filled ∧
      ({ schoolTotalled ⟨"classes"⟩ with ledger := filled } : Model Float).refresh.result =
        .ok { schoolTotalled ⟨"classes"⟩ with ledger := filled } := by
  have hcheck : (schoolTotalled ⟨"classes"⟩).check = .ok () := rfl
  have hplan : Plan.of (schoolTotalled ⟨"classes"⟩) = .ok (schoolPlan ⟨"classes"⟩) := rfl
  have hfill : ((schoolPlan ⟨"classes"⟩).fill (schoolTotalled ⟨"classes"⟩).ledger).result =
      .ok (schoolYear (schoolTotalled ⟨"classes"⟩).ledger 100) :=
    eq_ok_of_toOption (by decide +kernel)
  have hsettle : ((schoolPlan ⟨"classes"⟩).settle
        (schoolYear (schoolTotalled ⟨"classes"⟩).ledger 100)).result =
      .ok (schoolYear (schoolTotalled ⟨"classes"⟩).ledger 100) :=
    eq_ok_of_toOption (by decide +kernel)
  obtain ⟨-, -, hagain⟩ := settle_agrees_fill hcheck hplan hfill (by decide +kernel) hsettle
    fun _ _ _ _ => rfl
  exact ⟨hcheck, hplan, _, rfl, hfill, hsettle, hagain⟩

/-! ### Refreshing once more -/

/-- A refreshed model stays as it is exactly if filling in leaves its ledger. -/
theorem refresh_withLedger_iff (hcheck : m.check = .ok ()) (hplan : Plan.of m = .ok plan)
    (hfill : plan.fillAfresh m.ledger = .ok filled)
    (hsettle : (plan.settle filled).result = .ok settled) :
    ({ m with ledger := settled } : Model α).refresh.result = .ok { m with ledger := settled } ↔
      plan.fillAfresh settled = .ok settled := by
  have hreviewed := reviewed_of hcheck hplan
  rw [refresh_eq_ok_iff (check_withLedger_of_passes hcheck hplan hfill hsettle) hplan]
  constructor
  · rintro ⟨again, hagain, hsettled, -⟩
    obtain rfl : settled = again := by
      -- Settling gives back the ledger from which it was filled in, so it leaves all the lines that
      -- filling in leaves; and the lines that filling in computes are settled.
      refine settle_fillAfresh hreviewed hagain hsettled fun line hline hleft => ?_
      obtain ⟨hperiod, -⟩ := stands_of_mem_lines plan.places_zipIdx hline
      cases himported : line.period.isImported with
      | true =>
          exact (cell?_fillAfresh_of_isImported hreviewed hagain hperiod himported _).symm
      | false =>
          have hentered := hleft.resolve_left (by simp [himported])
          exact (cell?_fillAfresh_of_isEntered hreviewed hagain hperiod himported hentered).symm
    exact hagain
  · exact fun hagain => ⟨settled, hagain, settle_settled hreviewed hsettle, rfl⟩

/-- **Refreshing again.** A refreshed model stays as it is when it is refreshed again exactly if
filling in leaves its ledger, and this is so if settling has left what values were computed from.
Where values are carried forward, refreshing again succeeds in any case. -/
theorem refresh_again (hcheck : m.check = .ok ()) (h : m.refresh.result = .ok m') :
    ∃ plan filled, Plan.of m = .ok plan ∧ (plan.fill m.ledger).result = .ok filled ∧
      (m'.refresh.result = .ok m' ↔ (plan.fill m'.ledger).result = .ok m'.ledger) ∧
      (plan.Undisturbed filled m'.ledger → m'.refresh.result = .ok m') ∧
      (m.settings.carriesForward = true → ∃ m'', m'.refresh.result = .ok m'') := by
  obtain ⟨plan, hplan⟩ := exists_plan_of_refresh hcheck h
  have hreviewed := reviewed_of hcheck hplan
  obtain ⟨filled, hfill, hsettle, hm'⟩ := (refresh_eq_ok_iff hcheck hplan).1 h
  obtain ⟨settled, hsettled⟩ : ∃ settled, m'.ledger = settled := ⟨_, rfl⟩
  rw [hsettled] at hsettle hm'
  subst hm'
  have hagain := refresh_withLedger_iff hcheck hplan hfill hsettle
  have hcheck' := check_withLedger_of_passes hcheck hplan hfill hsettle
  refine ⟨plan, filled, hplan, ?_, ?_, fun hundisturbed => ?_, fun hcarries => ?_⟩
  · rw [result_fill hreviewed, hfill]
  · rw [result_fill hreviewed]
    exact hagain
  · exact hagain.2 (fillAfresh_of_undisturbed hreviewed hfill hsettle hundisturbed)
  · rcases hresult : ({ m with ledger := settled } : Model α).refresh.result with fault | m''
    · have hescapes := failsOnly_refresh hcheck' hplan [] fault hresult
      have hstrict := hescapes.not_carriesForward
      obtain ⟨-, -, -, hsettings⟩ := of_eq_ok_iff.1 hplan
      rw [hsettings, hcarries] at hstrict
      cases hstrict
    · exact ⟨m'', rfl⟩

/-- The school after a refresh, given the budget that it comes to. -/
def schoolRefreshed (basis : AccountId) (budget : Float) : Model Float :=
  { school basis with ledger := schoolYear (schoolTotalled basis).ledger budget }

/-- The budget is read before the total of the imported year is settled, and once more after it has
been settled. -/
theorem refresh_school_changes :
    (school ⟨"classes"⟩).check = .ok () ∧
    (school ⟨"classes"⟩).refresh.result = .ok (schoolRefreshed ⟨"classes"⟩ 0) ∧
    (schoolRefreshed ⟨"classes"⟩ 0).refresh.result = .ok (schoolRefreshed ⟨"classes"⟩ 100) ∧
    (schoolRefreshed ⟨"classes"⟩ 100).ledger ≠ (schoolRefreshed ⟨"classes"⟩ 0).ledger := by
  have hplan : Plan.of (school ⟨"classes"⟩) = .ok (schoolPlan ⟨"classes"⟩) := rfl
  have hfirst : (school ⟨"classes"⟩).refresh.result = .ok (schoolRefreshed ⟨"classes"⟩ 0) :=
    refresh_eq_ok_of_ledger rfl hplan (by decide +kernel)
  have hsecond : (schoolRefreshed ⟨"classes"⟩ 0).refresh.result =
      .ok (schoolRefreshed ⟨"classes"⟩ 100) :=
    refresh_eq_ok_of_ledger rfl hplan (by decide +kernel)
  exact ⟨rfl, hfirst, hsecond, by decide +kernel⟩

theorem refresh_school_stays :
    (school ⟨"first"⟩).check = .ok () ∧
    (school ⟨"first"⟩).refresh.result = .ok (schoolRefreshed ⟨"first"⟩ 100) ∧
    (schoolPlan ⟨"first"⟩).Undisturbed (schoolYear (school ⟨"first"⟩).ledger 100)
      (schoolRefreshed ⟨"first"⟩ 100).ledger ∧
    (schoolRefreshed ⟨"first"⟩ 100).refresh.result = .ok (schoolRefreshed ⟨"first"⟩ 100) := by
  have hcheck : (school ⟨"first"⟩).check = .ok () := rfl
  have hplan : Plan.of (school ⟨"first"⟩) = .ok (schoolPlan ⟨"first"⟩) := rfl
  have hrefresh : (school ⟨"first"⟩).refresh.result = .ok (schoolRefreshed ⟨"first"⟩ 100) :=
    refresh_eq_ok_of_ledger hcheck hplan (by decide +kernel)
  have hundisturbed : (schoolPlan ⟨"first"⟩).Undisturbed (schoolYear (school ⟨"first"⟩).ledger 100)
      (schoolRefreshed ⟨"first"⟩ 100).ledger := by decide +kernel
  have hfilled : ((schoolPlan ⟨"first"⟩).fill (school ⟨"first"⟩).ledger).result =
      .ok (schoolYear (school ⟨"first"⟩).ledger 100) := eq_ok_of_toOption (by decide +kernel)
  obtain ⟨plan, filled, hplan', hfilled', -, hstays, -⟩ := refresh_again hcheck hrefresh
  rw [hplan] at hplan'
  cases hplan'
  rw [hfilled] at hfilled'
  cases hfilled'
  exact ⟨hcheck, hrefresh, hundisturbed, hstays hundisturbed⟩

end ProForma.Model
