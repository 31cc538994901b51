import ProForma.Proofs.Review
import ProForma.Revision

/-!
# Removing an account

An account can be removed if no other account depends on it: by its name, or as the cash total. Its
children move to the top, which puts nothing else out of order. So the faults that review finds in
the rest are all about the account that is gone.
-/

namespace ProForma

variable {α : Type}

/-- The account names another one in its rule, in its total, as the balance that it adjusts, or as a
linked flow. -/
inductive Account.Names (a : Account α) : AccountId → Prop
  | reference {r : Reference} (h : r ∈ a.parameter.references) : Names a r.account
  | term {terms : List Term} {t : Term} (htotal : a.total = some (.ofTerms terms)) (h : t ∈ terms) :
      Names a t.account
  | target {adjustment : Adjustment} (h : a.adjustment = some adjustment) :
      Names a adjustment.target
  | link {relation : Relation} {link : Term} (hrelation : a.relation = some relation)
      (h : link ∈ relation.links) : Names a link.account

/-- The account begins with the cash total, without naming it. -/
def Account.BeginsWithCash (a : Account α) : Prop :=
  a.parameter.rule = .cashBeginning ∧ a.parameter.references = []

/-- The account as it is without another one: if this was its parent, it is at the top. -/
def Account.without (x : AccountId) (a : Account α) : Account α :=
  { a with parent := a.parent.filter (· ≠ x) }

namespace Model

/-- The account is the cash total. -/
def IsCashTotal (m : Model α) (x : AccountId) : Prop :=
  ∃ cash ∈ m.accounts, cash.id = x ∧ cash.key = some .cashTotal

/-- No other account depends on the account. -/
structure Removable (m : Model α) (x : AccountId) : Prop where
  names : ∀ a ∈ m.accounts, a.id ≠ x → ¬ a.Names x
  cash : ¬ (m.IsCashTotal x ∧ ∃ a ∈ m.accounts, a.id ≠ x ∧ a.BeginsWithCash)

/-- The second model is the first one without an account, and does not mention it. -/
structure Loses (m m' : Model α) (x : AccountId) : Prop where
  accounts : ∃ before a after, m.accounts = before ++ a :: after ∧ a.id = x ∧
    m'.accounts = (before ++ after).map (Account.without x)
  cells : ∀ key, m'.ledger.cell? key = if key.account = x then none else m.ledger.cell? key
  rest : m' = { m with accounts := m'.accounts, ledger := m'.ledger }
  unmentioned : ∀ a ∈ m'.accounts, a.id ≠ x ∧ a.parent ≠ some x ∧ ¬ a.Names x

/-- The model without the account, whether or not it passes review. -/
def removed (m : Model α) (x : AccountId) : Model α :=
  { m with accounts := withoutAccount x m.accounts, ledger := m.ledger.eraseAccount x }

variable {m : Model α} {x id : AccountId} {a : Account α} {fault : Fault α}

/-! ### What is left -/

theorem accounts_removed (m : Model α) (x : AccountId) :
    (m.removed x).accounts = (m.accounts.filter (·.id ≠ x)).map (Account.without x) := by
  refine List.map_congr_left fun a _ => ?_
  unfold Account.without
  split
  · rename_i hparent
    simp [hparent, Option.filter]
  · rename_i hparent
    have hkept : a.parent.filter (· ≠ x) = a.parent := by
      rcases h : a.parent with _ | parent
      · rfl
      · have hne : parent ≠ x := fun heq => hparent (heq ▸ h)
        simp [Option.filter, hne]
    rw [hkept]

theorem names_of_without (h : (a.without x).Names id) : a.Names id := by
  rcases h with h | ⟨htotal, h⟩ | h | ⟨hrelation, h⟩
  · exact .reference h
  · exact .term htotal h
  · exact .target h
  · exact .link hrelation h

theorem mem_removed {a' : Account α} : a' ∈ (m.removed x).accounts ↔
    ∃ a ∈ m.accounts, a.id ≠ x ∧ a.without x = a' := by
  rw [accounts_removed]
  simp [and_assoc]

theorem has_removed_iff : (m.removed x).chart.Has id ↔ m.chart.Has id ∧ id ≠ x := by
  constructor
  · rintro ⟨a', ha', rfl⟩
    obtain ⟨a, ha, hne, rfl⟩ := mem_removed.1 ha'
    exact ⟨⟨a, ha, rfl⟩, hne⟩
  · rintro ⟨⟨a, ha, rfl⟩, hne⟩
    exact ⟨a.without x, mem_removed.2 ⟨a, ha, hne, rfl⟩, rfl⟩

theorem hasParent_of_removed {child parent : AccountId}
    (h : (m.removed x).chart.HasParent child parent) :
    m.chart.HasParent child parent ∧ parent ≠ x := by
  obtain ⟨a', ha', rfl, hparent⟩ := h
  obtain ⟨a, ha, -, rfl⟩ := mem_removed.1 ha'
  obtain ⟨hsome, hne⟩ := Option.filter_eq_some_iff.1 hparent
  exact ⟨⟨a, ha, rfl, hsome⟩, by simpa using hne⟩

theorem nodup_ids_removed (h : m.WellFormed) (x : AccountId) :
    ((m.removed x).accounts.map Account.id).Nodup := by
  rw [accounts_removed, List.map_map]
  exact h.accountIds.sublist (List.filter_sublist.map _)

theorem nodup_keys_removed (h : m.WellFormed) (x : AccountId) :
    ((m.removed x).accounts.filterMap Account.key).Nodup := by
  rw [accounts_removed, List.filterMap_map]
  exact h.keyLines.sublist (List.filter_sublist.filterMap _)

/-! ### The faults of what is left -/

/-- The fault is what another account has against the removal. -/
inductive Blames (m : Model α) (x : AccountId) (a : Account α) : Fault α → Prop
  | names (h : a.Names x) : Blames m x a (.unknownAccount x.text)
  | cash (hx : m.IsCashTotal x) (h : a.BeginsWithCash) :
      Blames m x a (.missingReference a.id .cashBeginning)

/-- Where the accounts were known, the one that is gone is the only unknown one. -/
theorem of_mem_unknown {ids : List AccountId} {others : List (Fault α)}
    (hbefore : m.chart.unknown ids ++ others = [])
    (h : fault ∈ (m.removed x).chart.unknown ids ++ others) :
    x ∈ ids ∧ fault = .unknownAccount x.text := by
  obtain ⟨hknown, rfl⟩ := List.append_eq_nil_iff.1 hbefore
  rw [List.append_nil] at h
  obtain ⟨id, hid, rfl⟩ := List.mem_map.1 h
  obtain ⟨hmem, hgone⟩ := List.mem_filter.1 hid
  have hgone : ¬ (m.removed x).chart.Has id := by
    rw [← Chart.account?_isSome_iff]
    simpa using hgone
  obtain rfl : id = x := by
    by_contra hne
    exact hgone (has_removed_iff.2 ⟨Chart.unknown_eq_nil_iff.1 hknown id hmem, hne⟩)
  exact ⟨hmem, rfl⟩

theorem parentFaults_removed (h : m.WellFormed) (ha : a ∈ m.accounts) (hne : a.id ≠ x) :
    (m.removed x).chart.parentFaults (a.without x) = [] := by
  have hmem : a.without x ∈ (m.removed x).accounts := mem_removed.2 ⟨a, ha, hne, rfl⟩
  refine (Chart.parentFaults_eq_nil_iff (nodup_ids_removed h x) hmem).2
    ⟨fun parent hparent => ?_, fun hloop => ?_⟩
  · obtain ⟨⟨b, hb, -, hsome⟩, hkept⟩ := hasParent_of_removed ⟨_, hmem, rfl, hparent⟩
    exact has_removed_iff.2 ⟨(h.accounts b hb).parent parent hsome, hkept⟩
  · have hup : Relation.TransGen m.chart.HasParent a.id a.id :=
      Relation.TransGen.mono (fun _ _ hstep => (hasParent_of_removed hstep).1) _ _ hloop
    exact (h.accounts a ha).acyclic hup

theorem blames_of_references (hbefore : m.chart.unknown (a.parameter.references.map
      Reference.account) = [])
    (h : fault ∈ (m.removed x).chart.unknown (a.parameter.references.map Reference.account)) :
    m.Blames x a fault := by
  rw [← List.append_nil (Chart.unknown _ _)] at hbefore h
  obtain ⟨hx, rfl⟩ := of_mem_unknown hbefore h
  obtain ⟨r, hr, rfl⟩ := List.mem_map.1 hx
  exact .names (.reference hr)

theorem blames_of_totalFaults (hbefore : m.chart.totalFaults a = [])
    (h : fault ∈ (m.removed x).chart.totalFaults (a.without x)) : m.Blames x a fault := by
  obtain ⟨hx, rfl⟩ := of_mem_unknown hbefore h
  obtain ⟨t, ht, rfl⟩ := List.mem_map.1 hx
  split at ht
  · rename_i terms htotal
    exact .names (.term htotal ht)
  · cases ht

theorem blames_of_relationFaults (hbefore : m.chart.relationFaults a = [])
    (h : fault ∈ (m.removed x).chart.relationFaults (a.without x)) : m.Blames x a fault := by
  obtain ⟨hx, rfl⟩ := of_mem_unknown hbefore h
  obtain ⟨link, hlink, rfl⟩ := List.mem_map.1 hx
  rcases hrelation : a.relation with _ | relation
  · rw [hrelation] at hlink
    cases hlink
  · rw [hrelation] at hlink
    exact .names (.link hrelation hlink)

theorem blames_of_parameterFaults (hbefore : m.chart.parameterFaults a = [])
    (h : fault ∈ (m.removed x).chart.parameterFaults (a.without x)) : m.Blames x a fault := by
  obtain ⟨hreferenced, hcash, hrate⟩ := Chart.parameterFaults_eq_nil_iff.1 hbefore
  unfold Chart.parameterFaults at h hbefore
  simp only [List.append_eq_nil_iff] at hbefore
  simp only [List.mem_append] at h
  rcases h with (h | h) | h
  · exact absurd h (hbefore.1.1 ▸ List.not_mem_nil)
  · obtain ⟨hcondition, rfl⟩ := Chart.mem_faultIf.1 h
    rw [Bool.and_eq_true, Bool.and_eq_true] at hcondition
    obtain ⟨⟨hrule, hunreferenced⟩, hgone⟩ := hcondition
    have hbegins : a.BeginsWithCash :=
      ⟨of_decide_eq_true hrule, List.isEmpty_iff.1 hunreferenced⟩
    obtain ⟨cash, hmem, hkey⟩ := (hcash hbegins.1).resolve_left (· hbegins.2)
    have hx : cash.id = x := by
      by_contra hne
      have hfound : ((m.removed x).chart.key? .cashTotal).isSome = true :=
        Chart.key?_isSome_iff.2 ⟨cash.without x, mem_removed.2 ⟨cash, hmem, hne, rfl⟩, hkey⟩
      rw [Option.isNone_iff_eq_none.1 hgone] at hfound
      cases hfound
    have hfault : a.parameter.rule = .cashBeginning := hbegins.1
    change m.Blames x a (.missingReference a.id a.parameter.rule)
    rw [hfault]
    exact .cash ⟨cash, hmem, hx, hkey⟩ hbegins
  · exact absurd h (hbefore.2 ▸ List.not_mem_nil)

theorem blames_of_adjustmentFaults (hwell : m.WellFormed) (ha : a ∈ m.accounts)
    (h : fault ∈ (m.removed x).chart.adjustmentFaults (a.without x)) : m.Blames x a fault := by
  by_cases hnames : ∃ adjustment, a.adjustment = some adjustment ∧ adjustment.target = x
  · obtain ⟨adjustment, hadjustment, rfl⟩ := hnames
    have hgone : (m.removed adjustment.target).chart.account? adjustment.target = none := by
      rw [← Option.not_isSome_iff_eq_none, Chart.account?_isSome_iff]
      exact fun hhas => (has_removed_iff.1 hhas).2 rfl
    have hkept : (a.without adjustment.target).adjustment = some adjustment := hadjustment
    unfold Chart.adjustmentFaults at h
    rw [hkept] at h
    dsimp only at h
    rw [hgone] at h
    obtain rfl := List.mem_singleton.1 h
    exact .names (.target hadjustment)
  · have hfree : (m.removed x).chart.adjustmentFaults (a.without x) = [] := by
      refine (Chart.adjustmentFaults_eq_nil_iff (nodup_ids_removed hwell x)).2
        fun adjustment hadjustment => ?_
      obtain ⟨b, hb, hid, hbalance⟩ := (hwell.accounts a ha).adjustment adjustment hadjustment
      have hne : b.id ≠ x := fun heq => hnames ⟨adjustment, hadjustment, hid.symm.trans heq⟩
      exact ⟨b.without x, mem_removed.2 ⟨b, hb, hne, rfl⟩, hid, hbalance⟩
    rw [hfree] at h
    cases h

/-- Whatever is out of order for an account that is left is what it has against the removal. -/
theorem blames_of_accountFaults (hwell : m.WellFormed) (ha : a ∈ m.accounts) (hne : a.id ≠ x)
    (h : fault ∈ (m.removed x).chart.accountFaults (a.without x)) : m.Blames x a fault := by
  have hbefore := (Chart.accountFaults_eq_nil_iff hwell.accountIds ha).2 (hwell.accounts a ha)
  unfold Chart.accountFaults at hbefore h
  simp only [List.append_eq_nil_iff] at hbefore
  obtain ⟨⟨⟨⟨⟨⟨⟨-, hreferences⟩, htotal⟩, hparameter⟩, hitem⟩, -⟩, hfeeds⟩, hrelation⟩ := hbefore
  simp only [List.mem_append] at h
  rcases h with ((((((h | h) | h) | h) | h) | h) | h) | h
  · rw [parentFaults_removed hwell ha hne] at h
    cases h
  · exact blames_of_references hreferences h
  · exact blames_of_totalFaults htotal h
  · exact blames_of_parameterFaults hparameter h
  · exact absurd h (hitem ▸ List.not_mem_nil)
  · exact blames_of_adjustmentFaults hwell ha h
  · exact absurd h (hfeeds ▸ List.not_mem_nil)
  · exact blames_of_relationFaults hrelation h

theorem cellFaults_removed (hwell : m.WellFormed) {key : CellKey} {cell : Cell α}
    (h : (m.removed x).ledger.cell? key = some cell) : (m.removed x).cellFaults key = [] := by
  have hcell : (if key.account = x then none else m.ledger.cell? key) = some cell :=
    (m.ledger.cell?_eraseAccount x key).symm.trans h
  split at hcell
  · cases hcell
  · rename_i hne
    obtain ⟨haccount, hperiod⟩ := hwell.cells key cell hcell
    exact cellFaults_eq_nil_iff.2 ⟨has_removed_iff.2 ⟨haccount, hne⟩, hperiod⟩

/-- Every fault of the rest is what an account of the model has against the removal. -/
theorem exists_blames (hcheck : m.check = .ok ()) (h : fault ∈ (m.removed x).faults) :
    ∃ a ∈ m.accounts, a.id ≠ x ∧ m.Blames x a fault := by
  have hwell := check_eq_ok_iff_wellFormed.1 hcheck
  unfold faults Chart.faults at h
  simp only [List.mem_append, List.mem_flatMap] at h
  rcases h with (((h | h) | ⟨a', ha', h⟩) | h) | ⟨⟨key, cell⟩, hcell, h⟩
  · have hnone : (m.removed x).chart.duplicateAccounts = [] :=
      Chart.duplicateAccounts_eq_nil_iff.2 (nodup_ids_removed hwell x)
    exact absurd h (hnone ▸ List.not_mem_nil)
  · have hnone : (Chart.takenKeys [] (m.removed x).accounts : List (Fault α)) = [] :=
      Chart.takenKeys_eq_nil_iff.2 ⟨nodup_keys_removed hwell x, fun _ _ => rfl⟩
    exact absurd h (hnone ▸ List.not_mem_nil)
  · obtain ⟨a, ha, hne, rfl⟩ := mem_removed.1 ha'
    exact ⟨a, ha, hne, blames_of_accountFaults hwell ha hne h⟩
  · have hbefore : m.periodFaults = [] := (check_eq_ok_iff_parts.1 hcheck).2.1
    exact absurd h (hbefore ▸ List.not_mem_nil)
  · rw [cellFaults_removed hwell (Ledger.cell?_eq_some_iff.2 hcell)] at h
    cases h

/-! ### The revision -/

theorem removable_of_check (hcheck : m.check = .ok ()) (h : (m.removed x).check = .ok ()) :
    m.Removable x := by
  have hwell := check_eq_ok_iff_wellFormed.1 hcheck
  have hleft := check_eq_ok_iff_wellFormed.1 h
  have hfits {a : Account α} (ha : a ∈ m.accounts) (hne : a.id ≠ x) :
      (m.removed x).chart.Fits (a.without x) :=
    hleft.accounts _ (mem_removed.2 ⟨a, ha, hne, rfl⟩)
  have hgone : ¬ (m.removed x).chart.Has x := fun hhas => (has_removed_iff.1 hhas).2 rfl
  constructor
  case names =>
    intro a ha hne hnames
    have hrest := hfits ha hne
    apply hgone
    cases hnames with
    | reference hr => exact hrest.references _ hr
    | term htotal ht => exact hrest.terms _ htotal _ ht
    | target hadjustment =>
        obtain ⟨b, hb, hid, -⟩ := hrest.adjustment _ hadjustment
        exact ⟨b, hb, hid⟩
    | link hrelation hlink => exact hrest.links _ hrelation _ hlink
  case cash =>
    rintro ⟨⟨cash, hcash, hid, hkey⟩, a, ha, hne, hbegins⟩
    obtain ⟨b', hb', hkey'⟩ := ((hfits ha hne).cash hbegins.1).resolve_left (· hbegins.2)
    obtain ⟨b, hb, hother, rfl⟩ := mem_removed.1 hb'
    -- A cash total that is left would be a second one.
    obtain rfl := Chart.eq_of_key_eq hwell.keyLines hb hcash hkey' hkey
    exact hother hid

theorem check_of_removable (hcheck : m.check = .ok ()) (h : m.Removable x) :
    (m.removed x).check = .ok () := by
  rw [check_eq_ok_iff, List.eq_nil_iff_forall_not_mem]
  intro fault hfault
  obtain ⟨a, ha, hne, hblames⟩ := exists_blames hcheck hfault
  cases hblames with
  | names hnames => exact h.names a ha hne hnames
  | cash hx hbegins => exact h.cash ⟨hx, a, ha, hne, hbegins⟩

theorem loses_removed (hcheck : m.check = .ok ()) (hx : ∃ a ∈ m.accounts, a.id = x)
    (h : m.Removable x) : m.Loses (m.removed x) x := by
  have hwell := check_eq_ok_iff_wellFormed.1 hcheck
  obtain ⟨gone, hmem, rfl⟩ := hx
  obtain ⟨before, after, hsplit, hdifferent⟩ := exists_split_of_nodup hwell.accountIds hmem
  have hothers : m.accounts.filter (·.id ≠ gone.id) = before ++ after := by
    have hkept : ∀ a ∈ before ++ after, decide (a.id ≠ gone.id) = true := fun a ha =>
      decide_eq_true (hdifferent a ha)
    obtain ⟨hbefore, hafter⟩ := List.forall_mem_append.1 hkept
    rw [hsplit, List.filter_append, List.filter_cons_of_neg (by simp),
      List.filter_eq_self.2 hbefore, List.filter_eq_self.2 hafter]
  constructor
  case accounts =>
    refine ⟨before, gone, after, hsplit, rfl, ?_⟩
    rw [← hothers]
    exact accounts_removed m gone.id
  case cells => exact m.ledger.cell?_eraseAccount gone.id
  case rest => rfl
  case unmentioned =>
    intro a' ha'
    obtain ⟨a, ha, hne, rfl⟩ := mem_removed.1 ha'
    refine ⟨hne, fun hparent => ?_, fun hnames => ?_⟩
    · have hkept := (Option.filter_eq_some_iff.1 hparent).2
      simp at hkept
    · exact h.names a ha hne (names_of_without hnames)

theorem apply_remove_eq (hx : ∃ a ∈ m.accounts, a.id = x) :
    (Revision.ofEdit (.remove x)).apply m = (m.removed x).check.map fun _ => m.removed x := by
  obtain ⟨a, haccount⟩ : ∃ a, m.chart.account x = .ok a := Chart.exists_account hx
  have hedit : Edit.apply m (.remove x) = .ok (m.removed x) := bind_eq_ok.2 ⟨a, haccount, rfl⟩
  unfold Revision.apply Revision.ofEdit
  simp only [List.append_nil, List.foldlM_cons, List.foldlM_nil, hedit]
  rfl

/-- **Removing an account is all or nothing.** It can be removed exactly if no other account depends
on it. Then the model is what it was without the account, which nothing mentions any more. Otherwise
the account is found to be unknown, or the cash total to be missing. -/
theorem apply_remove (hcheck : m.check = .ok ()) (hx : ∃ a ∈ m.accounts, a.id = x) :
    ((∃ m', (Revision.ofEdit (.remove x)).apply m = .ok m') ↔ m.Removable x) ∧
    (∀ m', (Revision.ofEdit (.remove x)).apply m = .ok m' → m.Loses m' x) ∧
    ∀ fault, (Revision.ofEdit (.remove x)).apply m = .error fault →
      fault = .unknownAccount x.text ∨
        ∃ a ∈ m.accounts, fault = .missingReference a.id .cashBeginning := by
  have hresult : ∀ m', (Revision.ofEdit (.remove x)).apply m = .ok m' ↔
      (m.removed x).check = .ok () ∧ m.removed x = m' := by
    intro m'
    rw [apply_remove_eq hx, map_eq_ok]
    exact ⟨fun ⟨⟨⟩, hleft, heq⟩ => ⟨hleft, heq⟩, fun ⟨hleft, heq⟩ => ⟨(), hleft, heq⟩⟩
  refine ⟨⟨fun ⟨m', h⟩ => ?ok, fun h => ?removable⟩, fun m' h => ?loses, fun fault h => ?fault⟩
  case ok => exact removable_of_check hcheck ((hresult m').1 h).1
  case removable => exact ⟨_, (hresult _).2 ⟨check_of_removable hcheck h, rfl⟩⟩
  case loses =>
    obtain ⟨hleft, rfl⟩ := (hresult m').1 h
    exact loses_removed hcheck hx (removable_of_check hcheck hleft)
  case fault =>
    rw [apply_remove_eq hx] at h
    cases hleft : (m.removed x).check with
    | ok _ =>
        rw [hleft] at h
        cases h
    | error other =>
        rw [hleft] at h
        cases h
        obtain ⟨a, ha, -, hblames⟩ := exists_blames hcheck (mem_faults_of_check hleft)
        cases hblames with
        | names _ => exact .inl rfl
        | cash _ _ => exact .inr ⟨a, ha, rfl⟩

def toll : Account Int :=
  { (Account.flow ⟨"toll"⟩ "Toll" : Account Int) with parameter := .proportionate ⟨"north"⟩ }

def opening : Account Int :=
  .cashFlowItem ⟨"opening"⟩ "Opening cash" (.cashBeginning none)

/-- A depot with two sites, a toll that goes with one of them, and the cash that it starts with. -/
def depot : Model Int where
  name := "Depot"
  accounts := [
    { (Account.flow ⟨"sites"⟩ "Sites" : Account Int) with total := some .ofChildren },
    { (Account.flow ⟨"north"⟩ "North" : Account Int) with parent := some ⟨"sites"⟩ },
    { (Account.flow ⟨"south"⟩ "South" : Account Int) with parent := some ⟨"sites"⟩ },
    { (Account.stock ⟨"cash"⟩ "Cash" .debit : Account Int) with key := some .cashTotal },
    toll, opening]
  periods := [.imported ⟨"2024"⟩ 2024]
  ledger := (Ledger.empty.insert ⟨⟨"north"⟩, ⟨"2024"⟩⟩ ⟨70, false⟩).insert ⟨⟨"sites"⟩, ⟨"2024"⟩⟩
    ⟨70, true⟩
  settings := { passes := 16, tolerance := 0, carriesForward := true }

/-- The total of the sites can be removed, but neither the site that has a toll nor the cash. -/
theorem apply_remove_depot :
    depot.check = .ok () ∧
    (∃ m', (Revision.ofEdit (.remove ⟨"sites"⟩)).apply depot = .ok m' ∧
      depot.Loses m' ⟨"sites"⟩) ∧
    (¬ ∃ m', (Revision.ofEdit (.remove ⟨"north"⟩)).apply depot = .ok m') ∧
    ¬ ∃ m', (Revision.ofEdit (.remove ⟨"cash"⟩)).apply depot = .ok m' := by
  have hcheck : depot.check = .ok () := rfl
  have hknown : ∀ x ∈ ["sites", "north", "cash"], ∃ a ∈ depot.accounts, a.id = ⟨x⟩ := by decide
  obtain ⟨m', hsites⟩ : ∃ m', (Revision.ofEdit (.remove ⟨"sites"⟩)).apply depot = .ok m' :=
    exists_eq_ok_of_isSome (by decide +kernel)
  obtain ⟨-, hloses, -⟩ := apply_remove hcheck (hknown "sites" (by simp))
  obtain ⟨hnorth, -, -⟩ := apply_remove hcheck (hknown "north" (by simp))
  obtain ⟨hcash, -, -⟩ := apply_remove hcheck (hknown "cash" (by simp))
  refine ⟨hcheck, ⟨m', hsites, hloses m' hsites⟩, fun h => ?_, fun h => ?_⟩
  · have hnames : toll.Names ⟨"north"⟩ := .reference (r := .to ⟨"north"⟩) List.mem_cons_self
    exact (hnorth.1 h).names toll (by decide) (by decide) hnames
  · have htotal : depot.IsCashTotal ⟨"cash"⟩ := by
      unfold IsCashTotal
      decide
    exact (hcash.1 h).cash ⟨htotal, opening, by decide, by decide, rfl, rfl⟩

end Model

end ProForma
