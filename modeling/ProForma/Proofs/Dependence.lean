import ProForma.Proofs.Chart.Reassign
import ProForma.Proofs.Plan.Prefix
import ProForma.Proofs.Refresh

/-!
# What a refresh depends on

Two models are refreshed, each by its own plan. If later periods are all that they differ in, the
earlier periods come out the same. If they differ in one account only, so do all accounts whose
formulas do not lead to it. In both cases the cells in question refer to one another and to no other
cells, and what else the models hold does not reach them: not by way of the order of computation,
the number of sweeps, or failures that are worked around.
-/

namespace ProForma.Model

open Plan

variable {α : Type} [Amount α] {m m' r r' : Model α} {plan plan' : Plan α}

/-! ### Two refreshes -/

theorem agreeOn_refresh {scope : AccountId → Nat → Prop} (hcheck : m.check = .ok ())
    (hcheck' : m'.check = .ok ()) (hplan : Plan.of m = .ok plan) (hplan' : Plan.of m' = .ok plan')
    (halike : Alike plan plan' scope) (hagree : plan.AgreeOn scope m.ledger m'.ledger)
    (h : m.refresh.result = .ok r) (h' : m'.refresh.result = .ok r') :
    plan.AgreeOn scope r.ledger r'.ledger := by
  have hreviewed := reviewed_of hcheck hplan
  have hreviewed' := reviewed_of hcheck' hplan'
  obtain ⟨filled, hfill, hsettle, -⟩ := (refresh_eq_ok_iff hcheck hplan).1 h
  obtain ⟨filled', hfill', hsettle', -⟩ := (refresh_eq_ok_iff hcheck' hplan').1 h'
  have hfilled := halike.fillAfresh hreviewed hreviewed' hagree hfill hfill'
  exact halike.settle hreviewed hreviewed' hfilled hsettle hsettle'

/-- There is nothing to refresh where there is no period. -/
theorem cell?_refresh_of_period (hcheck : m.check = .ok ()) (h : m.refresh.result = .ok r)
    {key : CellKey} (hkey : ∀ p ∈ m.periods, p.id ≠ key.period) :
    r.ledger.cell? key = m.ledger.cell? key := by
  obtain ⟨plan, hplan⟩ := exists_plan_of_refresh hcheck h
  have hreviewed := reviewed_of hcheck hplan
  obtain ⟨-, -, htimeline, -⟩ := of_eq_ok_iff.1 hplan
  obtain ⟨filled, hfill, hsettle, -⟩ := (refresh_eq_ok_iff hcheck hplan).1 h
  have hunknown : ¬ ∃ p ∈ plan.timeline, p.id = key.period := by
    rintro ⟨p, hp, hid⟩
    rw [htimeline, mem_timeline] at hp
    exact hkey p hp hid
  calc r.ledger.cell? key = filled.cell? key := by
        by_contra hchanged
        exact hunknown (known_of_settle hreviewed hsettle hchanged).2
    _ = m.ledger.cell? key := by
        by_contra hchanged
        exact hunknown (known_of_fillAfresh hreviewed hfill hchanged).2

/-! ### Later periods -/

/-- **No look-ahead.** The first periods of two models come out the same if they were the same,
whatever comes later. -/
theorem refresh_no_lookahead (hcheck : m.check = .ok ()) (hcheck' : m'.check = .ok ())
    (haccounts : m'.accounts = m.accounts) (hsettings : m'.settings = m.settings) {k : Nat}
    (hperiods : m'.timeline.take k = m.timeline.take k)
    (hcells : ∀ p ∈ m.timeline.take k, ∀ account,
      m'.ledger.cell? ⟨account, p.id⟩ = m.ledger.cell? ⟨account, p.id⟩)
    (h : m.refresh.result = .ok r) (h' : m'.refresh.result = .ok r') :
    ∀ p ∈ m.timeline.take k, ∀ account,
      r'.ledger.cell? ⟨account, p.id⟩ = r.ledger.cell? ⟨account, p.id⟩ := by
  obtain ⟨plan, hplan⟩ := exists_plan_of_refresh hcheck h
  obtain ⟨plan', hplan'⟩ := exists_plan_of_refresh hcheck' h'
  obtain ⟨-, hchart, htimeline, hplanSettings⟩ := of_eq_ok_iff.1 hplan
  obtain ⟨-, hchart', htimeline', hplanSettings'⟩ := of_eq_ok_iff.1 hplan'
  have hagree : Agree plan plan' m.ledger m'.ledger k := by
    refine ⟨?_, ?_, fun {n} hn => ?_, fun {n p} hn hp => hcells p ?_⟩
    · rw [hchart, hchart', chart, chart, haccounts]
    · rw [hplanSettings, hplanSettings', hsettings]
    · rw [htimeline, htimeline', ← List.getElem?_take_of_lt hn, hperiods,
        List.getElem?_take_of_lt hn]
    · rw [htimeline, ← List.getElem?_take_of_lt hn] at hp
      exact List.mem_of_getElem? hp
  intro p hp account
  obtain ⟨n, hn⟩ := List.mem_iff_getElem?.1 hp
  have hlt : n < k := by
    have hlength := (List.getElem?_eq_some_iff.1 hn).1
    rw [List.length_take] at hlength
    omega
  rw [List.getElem?_take_of_lt hlt, ← htimeline] at hn
  exact agreeOn_refresh hcheck hcheck' hplan hplan' hagree.alike hagree.agreeOn h h' account n p
    hlt hn

/-- The school with a later year, for which there is a total as well. -/
def schoolLater (basis : AccountId) : Model Float :=
  { school basis with
    periods := .imported ⟨"2026"⟩ 2026 :: (school basis).periods
    ledger := (school basis).ledger.insert ⟨⟨"classes"⟩, ⟨"2026"⟩⟩ ⟨70, false⟩ }

theorem refresh_school_later :
    (school ⟨"first"⟩).check = .ok () ∧ (schoolLater ⟨"first"⟩).check = .ok () ∧
    ∃ r r', (school ⟨"first"⟩).refresh.result = .ok r ∧
      (schoolLater ⟨"first"⟩).refresh.result = .ok r' ∧
      ∀ p ∈ (school ⟨"first"⟩).timeline.take 2, ∀ account,
        r'.ledger.cell? ⟨account, p.id⟩ = r.ledger.cell? ⟨account, p.id⟩ := by
  have hcheck : (school ⟨"first"⟩).check = .ok () := rfl
  have hcheck' : (schoolLater ⟨"first"⟩).check = .ok () := rfl
  have hsuccess : (school ⟨"first"⟩).refresh.result.toOption.isSome = true := by decide +kernel
  have hsuccess' : (schoolLater ⟨"first"⟩).refresh.result.toOption.isSome = true := by
    decide +kernel
  obtain ⟨r, hr⟩ := Option.isSome_iff_exists.1 hsuccess
  obtain ⟨r', hr'⟩ := Option.isSome_iff_exists.1 hsuccess'
  have hcells : ∀ p ∈ (school ⟨"first"⟩).timeline.take 2, ∀ account,
      (schoolLater ⟨"first"⟩).ledger.cell? ⟨account, p.id⟩ =
        (school ⟨"first"⟩).ledger.cell? ⟨account, p.id⟩ := by
    intro p hp account
    have hid : ∀ p ∈ (school ⟨"first"⟩).timeline.take 2, p.id ≠ ⟨"2026"⟩ := by decide +kernel
    refine (Ledger.cell?_insert _ _ _ _).trans (if_neg fun hkey => ?_)
    exact hid p hp (congrArg CellKey.period hkey)
  exact ⟨hcheck, hcheck', r, r', eq_ok_of_toOption hr, eq_ok_of_toOption hr',
    refresh_no_lookahead hcheck hcheck' rfl rfl rfl hcells (eq_ok_of_toOption hr)
      (eq_ok_of_toOption hr')⟩

/-! ### One account -/

/-- The models differ in the parameter of one account and in its cells. -/
structure EditedAt (m m' : Model α) (x : AccountId) : Prop where
  accounts : ∃ parameter, m'.accounts = m.accounts.map (Account.reassign x parameter)
  periods : m'.periods = m.periods
  settings : m'.settings = m.settings
  cell? (key : CellKey) : key.account ≠ x → m'.ledger.cell? key = m.ledger.cell? key

/-- The references of formulas do not lead from the second account to the first. An account leads to
itself, since an edit may well change its own cells. -/
def Apart (m : Model α) (x id : AccountId) : Prop :=
  ¬ Relation.ReflTransGen m.chart.Refers id x

theorem Apart.ne {x id : AccountId} (h : m.Apart x id) : id ≠ x := by
  rintro rfl
  exact h .refl

theorem apart_of_not_refers {x id : AccountId} (hne : id ≠ x)
    (hfree : ¬ Relation.TransGen m.chart.Refers id x) : m.Apart x id := by
  intro hleads
  rcases Relation.reflTransGen_iff_eq_or_transGen.1 hleads with rfl | hleads
  · exact hne rfl
  · exact hfree hleads

theorem EditedAt.alike {x : AccountId} (h : EditedAt m m' x) (hplan : Plan.of m = .ok plan)
    (hplan' : Plan.of m' = .ok plan') : Alike plan plan' fun id _ => m.Apart x id := by
  obtain ⟨-, hchart, htimeline, hsettings⟩ := of_eq_ok_iff.1 hplan
  obtain ⟨-, hchart', htimeline', hsettings'⟩ := of_eq_ok_iff.1 hplan'
  obtain ⟨parameter, haccounts⟩ := h.accounts
  have hchanged : plan'.chart = plan.chart.reassign x parameter := by
    rw [hchart, hchart']
    exact congrArg Chart.mk haccounts
  refine ⟨?_, fun _ => ?_, fun hid => ?_, fun _ _ => ?_, fun {a _ _ _} ha hid hread => ?_⟩
  · rw [hsettings, hsettings', h.settings]
  · rw [htimeline, htimeline', timeline, timeline, h.periods]
  · rw [hchanged, Chart.account?_reassign_of_ne hid.ne]
  · rw [hchanged, Chart.formula?_reassign]
  · cases hread with
    | previous hk => exact hid
    | ref hf hr hk =>
        rw [hchart] at ha hf
        exact fun hleads => hid (.head ⟨a, ha, rfl, Chart.mem_steadyRefs hf hr⟩ hleads)

/-- **Edits reach dependents only.** If the references of formulas do not lead from an account to
one that is edited, the edit changes none of its cells. -/
theorem refresh_of_not_refers (hcheck : m.check = .ok ()) (hcheck' : m'.check = .ok ())
    {x y : AccountId} (hedit : EditedAt m m' x) (h : m.refresh.result = .ok r)
    (h' : m'.refresh.result = .ok r') (hne : y ≠ x)
    (hfree : ¬ Relation.TransGen m.chart.Refers y x) :
    ∀ period, r'.ledger.cell? ⟨y, period⟩ = r.ledger.cell? ⟨y, period⟩ := by
  obtain ⟨plan, hplan⟩ := exists_plan_of_refresh hcheck h
  obtain ⟨plan', hplan'⟩ := exists_plan_of_refresh hcheck' h'
  have hagree : plan.AgreeOn (fun id _ => m.Apart x id) m.ledger m'.ledger :=
    fun id _ p hid _ => hedit.cell? ⟨id, p.id⟩ hid.ne
  have hrefreshed :=
    agreeOn_refresh hcheck hcheck' hplan hplan' (hedit.alike hplan hplan') hagree h h'
  intro period
  by_cases hperiod : ∃ p ∈ m.periods, p.id = period
  · obtain ⟨p, hp, rfl⟩ := hperiod
    obtain ⟨n, hn⟩ := exists_position hp
    rw [← (of_eq_ok_iff.1 hplan).2.2.1] at hn
    exact hrefreshed y n p (apart_of_not_refers hne hfree) hn
  · have hunknown : ∀ p ∈ m.periods, p.id ≠ period := fun p hp hid => hperiod ⟨p, hp, hid⟩
    rw [cell?_refresh_of_period hcheck h hunknown,
      cell?_refresh_of_period hcheck' h' (hedit.periods ▸ hunknown)]
    exact hedit.cell? ⟨y, period⟩ hne

/-- The shop with a fixed burden, which was recorded otherwise. -/
def shopEdited : Model ℚ :=
  { shop with
    accounts := shop.accounts.map (Account.reassign ⟨"burden"⟩ .fixedValue)
    ledger := shop.ledger.insert ⟨⟨"burden"⟩, ⟨"2024"⟩⟩ ⟨9, false⟩ }

/-- Sales refer to sales of the year before, and to nothing else. -/
theorem refers_sales {id : AccountId} (h : Relation.TransGen shop.chart.Refers ⟨"sales"⟩ id) :
    id = ⟨"sales"⟩ := by
  have hstep : ∀ a ∈ shop.chart.accounts, a.id = ⟨"sales"⟩ →
      ∀ ref ∈ shop.chart.steadyRefs a, ref = ⟨"sales"⟩ := by decide +kernel
  induction h with
  | single h =>
      obtain ⟨a, ha, hid, href⟩ := h
      exact hstep a ha hid _ href
  | tail _ h ih =>
      obtain ⟨a, ha, hid, href⟩ := h
      exact hstep a ha (hid.trans ih) _ href

theorem refresh_shop_edited :
    shop.check = .ok () ∧ shopEdited.check = .ok () ∧ EditedAt shop shopEdited ⟨"burden"⟩ ∧
    ¬ Relation.TransGen shop.chart.Refers ⟨"sales"⟩ ⟨"burden"⟩ ∧
    ∃ r r', shop.refresh.result = .ok r ∧ shopEdited.refresh.result = .ok r' ∧
      ∀ period, r'.ledger.cell? ⟨⟨"sales"⟩, period⟩ = r.ledger.cell? ⟨⟨"sales"⟩, period⟩ := by
  have hcheck : shop.check = .ok () := rfl
  have hcheck' : shopEdited.check = .ok () := rfl
  have hedit : EditedAt shop shopEdited ⟨"burden"⟩ := by
    refine ⟨⟨.fixedValue, rfl⟩, rfl, rfl, fun key hkey => ?_⟩
    refine (Ledger.cell?_insert _ _ _ _).trans (if_neg ?_)
    rintro rfl
    exact hkey rfl
  have hfree : ¬ Relation.TransGen shop.chart.Refers ⟨"sales"⟩ ⟨"burden"⟩ := fun h =>
    absurd (refers_sales h) (by decide)
  have hsuccess : shop.refresh.result.toOption.isSome = true := by decide +kernel
  have hsuccess' : shopEdited.refresh.result.toOption.isSome = true := by decide +kernel
  obtain ⟨r, hr⟩ := Option.isSome_iff_exists.1 hsuccess
  obtain ⟨r', hr'⟩ := Option.isSome_iff_exists.1 hsuccess'
  exact ⟨hcheck, hcheck', hedit, hfree, r, r', eq_ok_of_toOption hr, eq_ok_of_toOption hr',
    refresh_of_not_refers hcheck hcheck' hedit (eq_ok_of_toOption hr) (eq_ok_of_toOption hr')
      (by decide) hfree⟩

end ProForma.Model
