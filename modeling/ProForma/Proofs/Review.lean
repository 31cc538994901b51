import Mathlib.Data.List.Pairwise
import ProForma.Proofs.WellFormed

/-!
# What a passed review promises

In a model that passes review no identifier is used twice, so accounts and periods are what their
identifiers say, and every account is supplied with what its rule needs.
-/

namespace ProForma

variable {α : Type}

/-- Of elements with different keys, one is apart from those before and after it. -/
theorem exists_split_of_nodup {β γ : Type} {key : β → γ} {xs : List β} {x : β}
    (h : (xs.map key).Nodup) (hx : x ∈ xs) :
    ∃ before after, xs = before ++ x :: after ∧ ∀ y ∈ before ++ after, key y ≠ key x := by
  obtain ⟨before, after, rfl⟩ := List.append_of_mem hx
  rw [List.map_append, List.map_cons, List.nodup_middle, List.nodup_cons,
    ← List.map_append] at h
  exact ⟨before, after, rfl, fun y hy hsame => h.1 (hsame ▸ List.mem_map_of_mem hy)⟩

namespace Chart

variable {chart : Chart α} {a : Account α}

theorem nodup_ids_of_faults (h : chart.faults = []) : (chart.accounts.map Account.id).Nodup :=
  (faults_eq_nil_iff.1 h).1

theorem fits_of_faults (h : chart.faults = []) (ha : a ∈ chart.accounts) : chart.Fits a :=
  (faults_eq_nil_iff.1 h).2.2 a ha

theorem Fits.supplies (h : chart.Fits a) : chart.Supplies a where
  references := h.referenced
  rate hneeds := Option.isSome_iff_ne_none.2 (h.rate (Rule.needsRate_iff.1 hneeds))
  cash hrule := (h.cash hrule).imp_right key?_isSome_iff.2

theorem exists_account {id : AccountId} (h : chart.Has id) : ∃ a, chart.account id = .ok a := by
  obtain ⟨a, ha⟩ := exists_account? h
  unfold account
  rw [ha]
  exact ⟨a, rfl⟩

/-- No two accounts are the same key line. -/
theorem eq_of_key_eq {accounts : List (Account α)} (h : (accounts.filterMap Account.key).Nodup)
    {a b : Account α} (ha : a ∈ accounts) (hb : b ∈ accounts) {key : KeyLine}
    (hkey : a.key = some key) (hkey' : b.key = some key) : a = b := by
  by_contra hne
  have hsymm : Std.Symm fun a b : Account α =>
      ∀ x, a.key = some x → ∀ y, b.key = some y → x ≠ y :=
    ⟨fun _ _ hapart x hx y hy => (hapart y hy x hx).symm⟩
  exact (List.pairwise_filterMap.1 h).forall ha hb hne key hkey key hkey' rfl

/-- Only balances feed the cash flow, and no items of the cash flow do. -/
theorem isBalance_of_feeds (h : chart.faults = []) (ha : a ∈ chart.accounts)
    (hfeeds : a.feedsCashFlow = true) : a.isBalance = true ∧ a.isCashFlowItem = false := by
  have hfits := fits_of_faults h ha
  refine ⟨isBalance_iff.2 (hfits.feeds hfeeds), ?_⟩
  by_contra hitem
  have hquiet := (hfits.item (by simpa using hitem)).feeds
  rw [hfeeds] at hquiet
  cases hquiet

/-- An account with a rule is no total. -/
theorem total_eq_none_of_rule (h : chart.faults = []) (ha : a ∈ chart.accounts)
    (hrule : a.parameter.rule ≠ .none) : a.total = none := by
  by_contra htotal
  exact hrule ((fits_of_faults h ha).total htotal)

/-- The rules of cash-flow items are on cash-flow items. -/
theorem isCashFlowItem_of_rule (h : chart.faults = []) (ha : a ∈ chart.accounts)
    (hrule : a.parameter.rule.isCashFlowOnly = true) : a.isCashFlowItem = true := by
  by_contra hitem
  have hfree := (fits_of_faults h ha).other (by simpa using hitem)
  rw [hrule] at hfree
  cases hfree

end Chart

namespace Model

variable {m : Model α}

theorem chart_faults_of_check (h : m.check = .ok ()) : m.chart.faults = [] :=
  (check_eq_ok_iff_parts.1 h).1

/-- A model is refused with one of its faults. -/
theorem mem_faults_of_check {fault : Fault α} (h : m.check = .error fault) : fault ∈ m.faults := by
  unfold check at h
  split at h
  · cases h
  · rename_i first rest hfaults
    cases h
    exact hfaults ▸ List.mem_cons_self

theorem supplies_of_check (h : m.check = .ok ()) {a : Account α} (ha : a ∈ m.accounts) :
    m.chart.Supplies a :=
  (Chart.fits_of_faults (chart_faults_of_check h) ha).supplies

theorem nodup_periods_of_check (h : m.check = .ok ()) :
    (m.periods.map Period.id).Nodup ∧ (m.periods.map Period.order).Nodup :=
  periodFaults_eq_nil_iff.1 (check_eq_ok_iff_parts.1 h).2.1

theorem nodup_timeline_of_check (h : m.check = .ok ()) : (m.timeline.map Period.id).Nodup :=
  ((Period.perm_inOrder m.periods).map Period.id).nodup_iff.2 (nodup_periods_of_check h).1

/-- Another ledger makes no difference to the review, as long as its cells are in order. -/
theorem check_withLedger (h : m.check = .ok ()) {ledger : Ledger α}
    (hcells : ∀ key, ledger.cell? key = m.ledger.cell? key ∨ m.cellFaults key = []) :
    ({ m with ledger } : Model α).check = .ok () := by
  obtain ⟨hchart, hperiods, hledger⟩ := check_eq_ok_iff_parts.1 h
  refine check_eq_ok_iff_parts.2 ⟨hchart, hperiods, fun key cell hcell => ?_⟩
  rcases hcells key with hsame | hknown
  · exact hledger key cell (hsame.symm.trans hcell)
  · exact hknown

end Model

end ProForma
