import Mathlib.Data.List.Chain
import ProForma.Proofs.PeriodBefore
import ProForma.Proofs.Session

/-!
# Reconciling period after period

A reconciliation begins with the cash total of the period before, and writes the cash total of its
own period, and no cell of another one. So when all periods are reconciled in turn, each begins with
what the one before it has ended with, and that is what the cash lines still say in the end.
-/

namespace ProForma.Reconciliation

variable {α : Type} [Amount α] {m last : Model α} {cash a : Account α} {p : Period} {i : Nat}
  {r : Reconciliation α} {rs : List (Reconciliation α)} {line : KeyLine}

/-! ### One period -/

/-- Where cash is classified, every period can be reconciled. It begins with the cash of the
position before it, and the first one with none. -/
theorem exists_of_position (hcheck : m.check = .ok ()) (hcash : m.chart.key? .cashTotal = some cash)
    (hp : m.timeline[i]? = some p) :
    ∃ r, Reconciliation.of m p.id = .ok r ∧ r.period = p.id ∧
      r.beginning = m.stored cash.id ((i : Int) - 1) := by
  obtain ⟨hids, horders⟩ := Model.nodup_periods_of_check hcheck
  rw [of_eq_of_position hids horders hp, Chart.key, hcash]
  exact ⟨_, rfl, rfl, rfl⟩

theorem cell?_written_of_period_ne {key : CellKey} (hkey : key.period ≠ r.period) :
    (r.written m).cell? key = m.ledger.cell? key := by
  by_contra hchanged
  obtain ⟨a, -, rfl⟩ := r.known_of_written hchanged
  exact hkey rfl

/-- The lines on which a reconciliation puts the cash that it ends with. -/
def closingLines : List KeyLine :=
  [.cashEndingBalance, .cashTotal]

theorem cell?_written_of_closing (r : Reconciliation α) (hline : line ∈ closingLines)
    (ha : m.chart.key? line = some a) :
    (r.written m).cell? ⟨a.id, r.period⟩ = some ⟨r.ending, true⟩ := by
  unfold written
  simp only [List.foldl_cons, List.foldl_nil]
  simp only [closingLines, List.mem_cons, List.not_mem_nil, or_false] at hline
  rcases hline with rfl | rfl
  · -- The cash total comes after the ending balance, but it is the same amount.
    rw [ha]
    dsimp only
    split
    · rw [Ledger.cell?_derive, Ledger.cell?_derive, if_pos rfl, ite_self]
    · rw [Ledger.cell?_derive, if_pos rfl]
  · rw [ha]
    dsimp only
    rw [Ledger.cell?_derive, if_pos rfl]

/-- The next period begins with what this one has ended with. -/
theorem stored_written (hcash : m.chart.key? .cashTotal = some cash)
    (hp : m.timeline[i]? = some p) (hperiod : r.period = p.id) :
    ({ m with ledger := r.written m } : Model α).stored cash.id i = r.ending := by
  have hp' : ({ m with ledger := r.written m } : Model α).timeline[i]? = some p := hp
  have hcell := r.cell?_written_of_closing (List.mem_of_getElem? (i := 1) rfl) hcash
  rw [Model.stored_of_getElem? hp', ← hperiod, Ledger.value_of_cell? hcell]

/-! ### One period after another -/

/-- Reconciles periods in turn, each with the cash lines of those before it written. -/
def inTurn (m : Model α) : List Period → Except (Fault α) (List (Reconciliation α) × Model α)
  | [] => .ok ([], m)
  | p :: periods => do
    let r ← Reconciliation.of m p.id
    let (rs, last) ← inTurn { m with ledger := r.written m } periods
    pure (r :: rs, last)

/-- The model that a run leaves is that of a session with one reconciliation after another. -/
theorem map_snd_inTurn (m : Model α) (periods : List Period) :
    (inTurn m periods).map Prod.snd = m.performAll (periods.map fun p => .reconcile p.id) := by
  induction periods generalizing m with
  | nil => rfl
  | cons p periods ih =>
      rw [List.map_cons, Model.performAll, List.foldlM_cons, Model.perform, inTurn]
      rcases Reconciliation.of m p.id with fault | r
      · rfl
      · have hrest := ih { m with ledger := r.written m }
        change Except.map Prod.snd (inTurn _ periods >>= _) = Model.performAll _ _
        rw [← hrest]
        rcases inTurn { m with ledger := r.written m } periods with fault | ⟨rs, last⟩
        · rfl
        · rfl

/-- The reconciliations hand cash on from period to period, and the last model has it on its closing
lines. -/
structure Chained (m : Model α) (opening : α) (periods : List Period)
    (rs : List (Reconciliation α)) (last : Model α) : Prop where
  frame : last = { m with ledger := last.ledger }
  covered : rs.map Reconciliation.period = periods.map Period.id
  first : ∀ r ∈ rs.head?, r.beginning = opening
  linked : rs.IsChain fun r later => later.beginning = r.ending
  ending : ∀ r ∈ rs, r.ending = r.beginning + r.change
  held : ∀ r ∈ rs, ∀ line ∈ closingLines, ∀ a, m.chart.key? line = some a →
    last.ledger.cell? ⟨a.id, r.period⟩ = some ⟨r.ending, true⟩
  kept : ∀ key : CellKey, key.period ∉ periods.map Period.id →
    last.ledger.cell? key = m.ledger.cell? key

theorem chained_nil (m : Model α) (opening : α) : Chained m opening [] [] m where
  frame := rfl
  covered := rfl
  first := nofun
  linked := .nil
  ending := nofun
  held := nofun
  kept _ _ := rfl

theorem Chained.cons {opening : α} {periods : List Period}
    (h : Chained { m with ledger := r.written m } r.ending periods rs last)
    (hperiod : r.period = p.id) (hbeginning : r.beginning = opening)
    (hnew : p.id ∉ periods.map Period.id) :
    Chained m opening (p :: periods) (r :: rs) last where
  frame := h.frame
  covered := by rw [List.map_cons, List.map_cons, hperiod, h.covered]
  first := by
    rintro _ ⟨⟩
    exact hbeginning
  linked := List.isChain_cons.2 ⟨h.first, h.linked⟩
  ending _ _ := rfl
  held := by
    intro s hs line hline a ha
    rcases List.mem_cons.1 hs with rfl | hs
    · -- Nothing is written into this period later on.
      rw [h.kept _ (by rwa [hperiod])]
      exact s.cell?_written_of_closing hline ha
    · exact h.held s hs line hline a ha
  kept := by
    intro key hkey
    rw [List.map_cons, List.mem_cons, not_or] at hkey
    obtain ⟨hother, hkey⟩ := hkey
    rw [h.kept key hkey]
    exact cell?_written_of_period_ne (by rwa [hperiod])

/-- From any position on, the periods can be reconciled in turn. -/
theorem exists_chained (hcheck : m.check = .ok ()) (hcash : m.chart.key? .cashTotal = some cash)
    {periods : List Period} (hperiods : m.timeline.drop i = periods) :
    ∃ rs last, inTurn m periods = .ok (rs, last) ∧
      Chained m (m.stored cash.id ((i : Int) - 1)) periods rs last := by
  induction periods generalizing m i with
  | nil => exact ⟨[], m, rfl, chained_nil m _⟩
  | cons p periods ih =>
      have hp : m.timeline[i]? = some p := by
        rw [← List.head?_drop, hperiods, List.head?_cons]
      have hrest : m.timeline.drop (i + 1) = periods := by
        rw [← List.tail_drop, hperiods, List.tail_cons]
      have hnodup : ((p :: periods).map Period.id).Nodup := by
        rw [← hperiods, List.map_drop]
        exact (Model.nodup_timeline_of_check hcheck).sublist (List.drop_sublist _ _)
      obtain ⟨r, hr, hperiod, hbeginning⟩ := exists_of_position hcheck hcash hp
      obtain ⟨rs, last, hrs, hchained⟩ := ih (m := { m with ledger := r.written m }) (i := i + 1)
        (Model.check_reconcile hcheck hr) hcash hrest
      have hposition : ((i + 1 : Nat) : Int) - 1 = (i : Nat) := by omega
      rw [hposition, stored_written hcash hp hperiod] at hchained
      exact ⟨r :: rs, last, bind_eq_ok.2 ⟨r, hr, bind_eq_ok.2 ⟨_, hrs, rfl⟩⟩,
        hchained.cons hperiod hbeginning (List.nodup_cons.1 hnodup).1⟩

/-- **Cash is handed on.** Where cash is classified, a session can reconcile all periods of a model
in turn. Cash begins with nothing, every later period begins with what the one before it has ended
with, and in the end the closing lines of all periods hold what these have ended with. -/
theorem chained_timeline (hcheck : m.check = .ok ())
    (hcash : m.chart.key? .cashTotal = some cash) :
    ∃ rs last, inTurn m m.timeline = .ok (rs, last) ∧
      m.performAll (m.timeline.map fun p => .reconcile p.id) = .ok last ∧
      Chained m 0 m.timeline rs last := by
  obtain ⟨rs, last, hrun, hchained⟩ := exists_chained (i := 0) hcheck hcash List.drop_zero
  have hsession := map_snd_inTurn m m.timeline
  rw [hrun] at hsession
  exact ⟨rs, last, hrun, hsession.symm, hchained⟩

/-- A kiosk that buys goods to have in store. -/
def kiosk : Model Float where
  name := "Kiosk"
  accounts := [
    { Account.stock ⟨"cash"⟩ "Cash" .debit with key := some .cashTotal },
    { Account.stock ⟨"goods"⟩ "Goods in store" .debit with feedsCashFlow := true },
    { (Account.flow ⟨"profit"⟩ "Profit" : Account Float) with key := some .operatingProfit },
    { Account.cashFlowItem ⟨"closing"⟩ "Cash at the end" (.cashEnding [.to ⟨"cash"⟩]) with
      key := some .cashEndingBalance }]
  periods := [.plain ⟨"2026"⟩ 2026, .imported ⟨"2024"⟩ 2024, .plain ⟨"2025"⟩ 2025]
  ledger :=
    let posted : List (String × String × Float) :=
      [("cash", "2024", 1), ("goods", "2024", 20), ("profit", "2024", 12.5), ("goods", "2025", 50),
        ("profit", "2025", 4), ("goods", "2026", 50), ("profit", "2026", 30)]
    posted.foldl
      (fun ledger (account, period, amount) =>
        ledger.insert ⟨⟨account⟩, ⟨period⟩⟩ ⟨amount, false⟩)
      .empty
  settings := Settings.standard

theorem chained_kiosk : kiosk.check = .ok () ∧ (kiosk.chart.key? .cashTotal).isSome = true ∧
    ∃ rs last, inTurn kiosk kiosk.timeline = .ok (rs, last) ∧
      Chained kiosk 0 kiosk.timeline rs last ∧ rs.map ending = [12.5, -13.5, 16.5] ∧
      last.ledger.cell? ⟨⟨"closing"⟩, ⟨"2025"⟩⟩ = some ⟨-13.5, true⟩ := by
  have hcheck : kiosk.check = .ok () := rfl
  obtain ⟨rs, last, hrun, -, hchained⟩ := chained_timeline hcheck rfl
  have hresult : (inTurn kiosk kiosk.timeline).toOption.map (fun (rs, last) =>
      (rs.map ending, last.ledger.cell? ⟨⟨"closing"⟩, ⟨"2025"⟩⟩)) =
      some ([12.5, -13.5, 16.5], some ⟨-13.5, true⟩) := by
    decide +kernel
  rw [hrun] at hresult
  obtain ⟨hendings, hcell⟩ := Prod.ext_iff.1 (Option.some.inj hresult)
  exact ⟨hcheck, rfl, rs, last, hrun, hchained, hendings, hcell⟩

end ProForma.Reconciliation
