import ProForma.Record.Model
import ProForma.Ledger.Lemmas
import ProForma.Proofs.Calendar.Text
import ProForma.Proofs.Record.Account

/-!
Periods, values, settings and whole models are read back from their records.
-/

namespace ProForma

open Record Record.Members

theorem PeriodId.inverts (id : PeriodId) : Inverts PeriodId.read PeriodId.toJson id := rfl

theorem Date.inverts (d : Date) : Inverts date Date.toJson d := by
  have htext : (Date.ofText d.text).mapError RecordFault.date = .ok d := by
    rw [Date.ofText_text]
    rfl
  exact bind_eq_ok.2 ⟨d.text, rfl, htext⟩

/-- The order fits the 64 bits of its record. -/
def Period.Fits (p : Period) : Prop :=
  -9223372036854775808 ≤ p.order ∧ p.order ≤ 9223372036854775807

instance Period.decidableFits (p : Period) : Decidable p.Fits := by
  unfold Period.Fits; infer_instance

theorem Date.normalize_toJson_ne (d : Date) : d.toJson.normalize ≠ .null := by
  simp [Date.toJson, Json.normalize]

theorem Period.inverts {p : Period} (hp : p.Fits) : Inverts Period.read Period.toJson p := by
  refine record_object (by simp) fun ms has => ?_
  rw [required_eq_ok (PeriodId.inverts p.id) (has "id" _ (by simp)),
    optional_eq_ok (inverts_string p.label) (has "label" _ (by simp)),
    required_eq_ok (inverts_integer hp) (has "order" _ (by simp)),
    nullable_eq_ok p.finish Date.inverts Date.normalize_toJson_ne (has "end_date" _ (by simp)),
    optional_eq_ok (inverts_flag p.isActual) (has "is_actual" _ (by simp)),
    optional_eq_ok (inverts_flag p.isImported) (has "is_from_excel" _ (by simp))]
  rfl

theorem Posting.inverts (p : Posting Float) : Inverts Posting.read Posting.toJson p := by
  refine record_object (by simp) fun ms has => ?_
  rw [required_eq_ok (AccountId.inverts p.key.account) (has "account_id" _ (by simp)),
    required_eq_ok (PeriodId.inverts p.key.period) (has "period_id" _ (by simp)),
    required_eq_ok (inverts_amount p.cell.value) (has "value" _ (by simp)),
    optional_eq_ok (inverts_flag p.cell.isCalculated) (has "is_calculated" _ (by simp))]
  rfl

namespace Ledger

variable {α : Type}

/-- A cell whose key comes after all others is put at the end. -/
theorem place_of_forall_lt {key : CellKey} {cell : Cell α} {entries : List (CellKey × Cell α)}
    (h : ∀ entry ∈ entries, entry.1 < key) : place key cell entries = entries ++ [(key, cell)] := by
  induction entries with
  | nil => rfl
  | cons first rest ih =>
    obtain ⟨hfirst, hrest⟩ := List.forall_mem_cons.1 h
    have hlt : ¬key < first.1 := fun hlt => CellKey.lt_irrefl _ (CellKey.lt_trans hlt hfirst)
    have hne : key ≠ first.1 := by
      rintro rfl
      exact CellKey.lt_irrefl _ hfirst
    rw [place, if_neg hlt, if_neg hne, ih hrest, List.cons_append]

/-- Entries that come after those of a ledger are posted behind them. -/
theorem post_map {ledger : Ledger α} {rest : List (CellKey × Cell α)}
    (hsorted : (ledger.entries ++ rest).Pairwise fun a b => a.1 < b.1) :
    ledger.post (rest.map fun entry => ⟨entry.1, entry.2⟩) =
      .ok ⟨ledger.entries ++ rest, hsorted⟩ := by
  induction rest generalizing ledger with
  | nil => simp [post]
  | cons entry rest ih =>
    obtain ⟨key, cell⟩ := entry
    have hbefore : ∀ earlier ∈ ledger.entries, earlier.1 < key := fun earlier hearlier =>
      (List.pairwise_append.1 hsorted).2.2 earlier hearlier _ List.mem_cons_self
    have habsent : ¬(ledger.cell? key).isSome := by
      rw [Option.isSome_iff_exists]
      rintro ⟨held, hheld⟩
      exact CellKey.lt_irrefl key (hbefore _ (cell?_eq_some_iff.1 hheld))
    have hinsert : (ledger.insert key cell).entries = ledger.entries ++ [(key, cell)] :=
      place_of_forall_lt hbefore
    have hassoc :
        (ledger.insert key cell).entries ++ rest = ledger.entries ++ (key, cell) :: rest := by
      rw [hinsert, List.append_assoc, List.singleton_append]
    rw [List.map_cons, post, if_neg habsent, ih (hassoc ▸ hsorted)]
    simp only [hassoc]

/-- Posting the cells of a ledger gives the ledger. -/
theorem ofPostings?_toPostings (ledger : Ledger α) :
    ofPostings? ledger.toPostings = .ok ledger := by
  have hsorted : ((empty : Ledger α).entries ++ ledger.entries).Pairwise fun a b => a.1 < b.1 :=
    ledger.sorted
  exact post_map hsorted

end Ledger

theorem Ledger.inverts (ledger : Ledger Float) : Inverts Ledger.read Ledger.toJson ledger := by
  have hpostings := inverts_listOf fun p (_ : p ∈ ledger.toPostings) => Posting.inverts p
  refine bind_eq_ok.2 ⟨ledger.toPostings, hpostings, ?_⟩
  rw [Ledger.ofPostings?_toPostings]
  rfl

/-- The passes fit the 64 bits of their record. -/
def Settings.Fits (s : Settings Float) : Prop :=
  s.passes < Nat.pow 2 64

instance Settings.decidableFits (s : Settings Float) : Decidable s.Fits := by
  unfold Settings.Fits; infer_instance

theorem Settings.inverts {s : Settings Float} (hs : s.Fits) :
    Inverts Settings.read Settings.toJson s := by
  refine record_object (by simp) fun ms has => ?_
  rw [optional_eq_ok (inverts_natural hs) (has "max_summary_passes" _ (by simp)),
    optional_eq_ok (inverts_amount s.tolerance) (has "balance_tolerance" _ (by simp)),
    optional_eq_ok (inverts_flag s.carriesForward) (has "carry_forward_on_error" _ (by simp))]
  rfl

/-- The whole numbers of a model fit their records, which no record can exceed. -/
structure Model.Fits (m : Model Float) : Prop where
  lag : ∀ a ∈ m.accounts, ∀ r ∈ a.parameter.references, r.Fits
  order : ∀ p ∈ m.periods, p.Fits
  passes : m.settings.Fits

theorem Model.inverts {m : Model Float} (hm : m.Fits) : Inverts Model.read Model.toJson m := by
  have haccounts := inverts_listOf fun a ha => Account.inverts (hm.lag a ha)
  have hperiods := inverts_listOf fun p hp => Period.inverts (hm.order p hp)
  refine record_object (by simp) fun ms has => ?_
  rw [optional_eq_ok (inverts_string m.name) (has "name" _ (by simp)),
    required_eq_ok haccounts (has "accounts" _ (by simp)),
    required_eq_ok hperiods (has "periods" _ (by simp)),
    optional_eq_ok (Ledger.inverts m.ledger) (has "values" _ (by simp)),
    optional_eq_ok (Settings.inverts hm.passes) (has "settings" _ (by simp))]
  rfl

end ProForma
