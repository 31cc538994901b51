import ProForma.Proofs.Chart.Flows

/-!
# Every flow into a stock counts once

A stock without a rule takes its flows from two places: the accounts that adjust it, and the links
of its relation. An account can stand in both, and the two links of a fixed asset can be one
account. The flows are joined so that no account is counted twice: an adjustment counts before a
link, and the first of two links before the second.
-/

namespace ProForma

theorem Operation.sign_eq_minus_iff {operation : Operation} :
    operation.sign = .minus ↔ operation = .sub := by
  cases operation <;> simp [Operation.sign]

/-! ### Joining flows -/

namespace Term

variable {flows links : List Term} {t : Term} {id : AccountId}

/-- One flow more, unless its account is among the flows already. -/
def join (flows : List Term) (link : Term) : List Term :=
  if flows.any (·.account = link.account) then flows else flows ++ [link]

theorem join_of_mem {link : Term} (h : link.account ∈ flows.map account) :
    join flows link = flows := by
  obtain ⟨t, ht, hid⟩ := List.mem_map.1 h
  exact if_pos (List.any_eq_true.2 ⟨t, ht, decide_eq_true hid⟩)

theorem join_of_not_mem {link : Term} (h : link.account ∉ flows.map account) :
    join flows link = flows ++ [link] := by
  refine if_neg fun hany => h ?_
  obtain ⟨t, ht, hid⟩ := List.any_eq_true.1 hany
  exact List.mem_map.2 ⟨t, ht, of_decide_eq_true hid⟩

theorem nodup_foldl_join (links : List Term) (h : (flows.map account).Nodup) :
    ((links.foldl join flows).map account).Nodup := by
  induction links generalizing flows with
  | nil => exact h
  | cons link links ih =>
      rw [List.foldl_cons]
      apply ih
      by_cases hmem : link.account ∈ flows.map account
      · rwa [join_of_mem hmem]
      · rw [join_of_not_mem hmem, List.map_append]
        refine h.append (List.nodup_singleton _) fun id hid hlast => ?_
        rw [List.map_singleton, List.mem_singleton] at hlast
        exact hmem (hlast ▸ hid)

/-- What is joined to the flows are the first links of accounts that are not among them. -/
theorem mem_foldl_join : t ∈ links.foldl join flows ↔
    t ∈ flows ∨ t.account ∉ flows.map account ∧
      links.find? (fun link => link.account = t.account) = some t := by
  induction links generalizing flows with
  | nil => simp
  | cons link links ih =>
      rw [List.foldl_cons, ih]
      by_cases hsame : link.account = t.account
      · have hfind : (link :: links).find? (fun link => link.account = t.account) = some link :=
          List.find?_cons_of_pos (decide_eq_true hsame)
        rw [hfind]
        by_cases hmem : link.account ∈ flows.map account
        · -- The link is left out, and so are all further links of its account.
          have ht : t.account ∈ flows.map account := hsame ▸ hmem
          simp [join_of_mem hmem, ht]
        · have ht : t.account ∉ flows.map account := hsame ▸ hmem
          rw [join_of_not_mem hmem]
          simp [hsame, ht, eq_comm]
      · have hfind : (link :: links).find? (fun link => link.account = t.account) =
            links.find? fun link => link.account = t.account :=
          List.find?_cons_of_neg (by simpa using hsame)
        rw [hfind]
        by_cases hmem : link.account ∈ flows.map account
        · rw [join_of_mem hmem]
        · have hne : t ≠ link := fun h => hsame (h ▸ rfl)
          rw [join_of_not_mem hmem]
          simp [hne, Ne.symm hsame]

theorem mem_map_account_foldl_join : id ∈ (links.foldl join flows).map account ↔
    id ∈ flows.map account ∨ id ∈ links.map account := by
  constructor
  · intro h
    obtain ⟨t, ht, rfl⟩ := List.mem_map.1 h
    rcases mem_foldl_join.1 ht with ht | ⟨-, ht⟩
    · exact .inl (List.mem_map_of_mem ht)
    · exact .inr (List.mem_map_of_mem (List.mem_of_find?_eq_some ht))
  · intro h
    by_cases hflow : id ∈ flows.map account
    · obtain ⟨t, ht, rfl⟩ := List.mem_map.1 hflow
      exact List.mem_map_of_mem (mem_foldl_join.2 (.inl ht))
    · obtain ⟨link, hlink, hid⟩ := List.mem_map.1 (h.resolve_left hflow)
      have hfound : (links.find? fun link => link.account = id).isSome = true :=
        List.find?_isSome.2 ⟨link, hlink, decide_eq_true hid⟩
      obtain ⟨t, ht⟩ := Option.isSome_iff_exists.1 hfound
      have hsame := List.find?_some ht
      obtain rfl : t.account = id := of_decide_eq_true hsame
      exact List.mem_map_of_mem (mem_foldl_join.2 (.inr ⟨hflow, ht⟩))

end Term

/-! ### Links -/

/-- The relation of the stock links it to the account. -/
def Account.LinksTo {α : Type} (a : Account α) (id : AccountId) : Prop :=
  ∃ relation, a.relation = some relation ∧ id ∈ relation.links.map Term.account

/-- Of the links, only the one that stands for depreciation takes from a balance, and not if it is
the account of the investment as well. -/
theorem Relation.find?_links_eq_some {relation : Relation} {t : Term}
    (h : relation.links.find? (fun link => link.account = t.account) = some t) :
    t.operation = .sub ↔
      ∃ investment, relation = .fixedAsset investment t.account ∧ t.account ≠ investment := by
  cases relation with
  | retainedEarnings profit =>
      have ht := List.mem_of_find?_eq_some h
      obtain rfl : t = ⟨profit, .add⟩ := List.mem_singleton.1 ht
      simp
  | fixedAsset investment depreciation =>
      by_cases hinvestment : investment = t.account
      · have hfirst : (fixedAsset investment depreciation).links.find?
            (fun link => link.account = t.account) = some ⟨investment, .add⟩ :=
          List.find?_cons_of_pos (decide_eq_true hinvestment)
        rw [hfirst] at h
        cases h
        simp
      · rcases List.mem_cons.1 (List.mem_of_find?_eq_some h) with rfl | ht
        · exact absurd rfl hinvestment
        · obtain rfl : t = ⟨depreciation, .sub⟩ := List.mem_singleton.1 ht
          simpa using Ne.symm hinvestment

namespace Chart

variable {α : Type} {chart : Chart α} {s : Account α} {t : Term} {id : AccountId}

/-! ### Flows into a stock -/

/-- An account of the chart declares that it adjusts the stock by the operation. -/
def AdjustsBy (chart : Chart α) (stock id : AccountId) (operation : Operation) : Prop :=
  ∃ b ∈ chart.accounts, b.id = id ∧ ∃ activity, b.adjustment = some ⟨stock, operation, activity⟩

theorem mem_adjusting : t ∈ chart.adjusting s ↔ chart.AdjustsBy s.id t.account t.operation := by
  simp only [adjusting, adjustersOf, adjusters, AdjustsBy, List.mem_map, List.mem_filter,
    List.mem_filterMap, Option.map_eq_some_iff, decide_eq_true_eq]
  constructor
  · rintro ⟨_, ⟨⟨b, hb, ⟨target, operation, activity⟩, hadjustment, rfl⟩, rfl⟩, rfl⟩
    exact ⟨b, hb, rfl, activity, hadjustment⟩
  · rintro ⟨b, hb, hid, activity, hadjustment⟩
    exact ⟨_, ⟨⟨b, hb, _, hadjustment, rfl⟩, rfl⟩, by rw [hid]⟩

theorem mem_map_account_adjusting :
    id ∈ (chart.adjusting s).map Term.account ↔ ∃ operation, chart.AdjustsBy s.id id operation := by
  constructor
  · intro h
    obtain ⟨t, ht, rfl⟩ := List.mem_map.1 h
    exact ⟨t.operation, mem_adjusting.1 ht⟩
  · rintro ⟨operation, h⟩
    exact List.mem_map_of_mem (mem_adjusting.2 h : ⟨id, operation⟩ ∈ chart.adjusting s)

theorem map_id_adjusters_sublist (chart : Chart α) :
    (chart.adjusters.map fun entry => entry.1.id).Sublist (chart.accounts.map Account.id) := by
  unfold adjusters
  induction chart.accounts with
  | nil => exact .slnil
  | cons a accounts ih =>
      cases hadjustment : a.adjustment with
      | none =>
          rw [List.filterMap_cons_none (by rw [hadjustment]; rfl)]
          exact ih.cons a.id
      | some adjustment =>
          rw [List.filterMap_cons_some (by rw [hadjustment]; rfl)]
          exact ih.cons_cons a.id

theorem nodup_adjusting (hids : (chart.accounts.map Account.id).Nodup) (s : Account α) :
    ((chart.adjusting s).map Term.account).Nodup := by
  have hsublist : ((chart.adjusting s).map Term.account).Sublist
      (chart.adjusters.map fun entry => entry.1.id) := by
    unfold adjusting
    rw [List.map_map]
    exact List.filter_sublist.map _
  exact hids.sublist (hsublist.trans chart.map_id_adjusters_sublist)

theorem flowsInto_eq_foldl (chart : Chart α) (s : Account α) :
    chart.flowsInto s =
      ((s.relation.map Relation.links).getD []).foldl Term.join (chart.adjusting s) :=
  rfl

/-- No account is among the flows into a stock twice. -/
theorem nodup_flowsInto (hids : (chart.accounts.map Account.id).Nodup) (s : Account α) :
    ((chart.flowsInto s).map Term.account).Nodup :=
  Term.nodup_foldl_join _ (nodup_adjusting hids s)

theorem mem_map_account_flowsInto : id ∈ (chart.flowsInto s).map Term.account ↔
    (∃ operation, chart.AdjustsBy s.id id operation) ∨ s.LinksTo id := by
  rw [flowsInto_eq_foldl, Term.mem_map_account_foldl_join, mem_map_account_adjusting]
  cases hrelation : s.relation <;> simp [Account.LinksTo, hrelation]

/-- An adjusting account counts by what it declares, and its part in a relation is no matter. -/
theorem operation_of_adjustsBy (hids : (chart.accounts.map Account.id).Nodup)
    (ht : t ∈ chart.flowsInto s) {operation : Operation}
    (h : chart.AdjustsBy s.id t.account operation) : t.operation = operation := by
  have hflow : (⟨t.account, operation⟩ : Term) ∈ chart.flowsInto s :=
    Term.mem_foldl_join.2 (.inl (mem_adjusting.2 h))
  have hsame : t = ⟨t.account, operation⟩ :=
    List.inj_on_of_nodup_map (nodup_flowsInto hids s) ht hflow rfl
  exact congrArg Term.operation hsame

/-- A link that does not adjust the stock itself takes from it only as the depreciation. -/
theorem operation_of_not_adjustsBy (ht : t ∈ chart.flowsInto s)
    (h : ∀ operation, ¬chart.AdjustsBy s.id t.account operation) :
    t.operation = .sub ↔
      ∃ investment, s.relation = some (.fixedAsset investment t.account) ∧
        t.account ≠ investment := by
  rw [flowsInto_eq_foldl] at ht
  rcases Term.mem_foldl_join.1 ht with ht | ⟨-, hlink⟩
  · exact absurd (mem_adjusting.1 ht) (h t.operation)
  · cases hrelation : s.relation with
    | none =>
        rw [hrelation] at hlink
        cases hlink
    | some relation =>
        rw [hrelation] at hlink
        simpa using Relation.find?_links_eq_some hlink

/-! ### The formula -/

variable [Amount α]

/-- The balance before, and then each account with the sign by which it counts, if there are any. -/
def balanceFormula (id : AccountId) (flows : List (AccountId × Sign)) : Formula α :=
  if flows = [] then .ref id 1
  else .sum (.ref id 1 :: flows.map fun flow => (Formula.ref flow.1 0).withSign flow.2)

theorem rollForward_eq_balanceFormula (chart : Chart α) (s : Account α) :
    chart.rollForward s =
      balanceFormula s.id ((chart.flowsInto s).map fun t => (t.account, t.operation.sign)) := by
  unfold rollForward balanceFormula
  split
  · rename_i hnone
    rw [hnone]
    rfl
  · rename_i hsome
    rw [if_neg (by simpa using hsome), List.map_map]
    rfl

/-- **Every flow counts once.** In a period with history that is not imported, a stock without a
rule has the formula of its balance before and of flows, each of an account that adjusts it or is
linked to it, and each such account once. An adjusting account is negated exactly if it is declared
to be subtracted. Any other is negated exactly if it is the depreciation, and not the investment. -/
theorem rollForward_counts_once (hids : (chart.accounts.map Account.id).Nodup)
    (hstock : s.isStock = true) (hitem : s.isCashFlowItem = false) (htotal : s.total = none)
    (hrule : s.parameter.rule = .none) (timing : Timing) (himported : timing.isImported = false)
    (hprevious : timing.hasPrevious = true) :
    ∃ flows : List (AccountId × Sign),
      chart.formula? timing s = .ok (some (balanceFormula s.id flows)) ∧
      (flows.map Prod.fst).Nodup ∧
      (∀ id, id ∈ flows.map Prod.fst ↔
        (∃ operation, chart.AdjustsBy s.id id operation) ∨ s.LinksTo id) ∧
      ∀ id sign, (id, sign) ∈ flows →
        (∀ operation, chart.AdjustsBy s.id id operation → (sign = .minus ↔ operation = .sub)) ∧
        ((∀ operation, ¬chart.AdjustsBy s.id id operation) →
          (sign = .minus ↔
            ∃ investment, s.relation = some (.fixedAsset investment id) ∧ id ≠ investment)) := by
  have haccounts : ((chart.flowsInto s).map fun t => (t.account, t.operation.sign)).map Prod.fst =
      (chart.flowsInto s).map Term.account := List.map_map
  refine ⟨(chart.flowsInto s).map fun t => (t.account, t.operation.sign), ?_, ?_, ?_, ?_⟩
  · rw [formula?_eq_rollForward htotal hstock hitem hrule himported hprevious,
      rollForward_eq_balanceFormula]
  · rw [haccounts]
    exact nodup_flowsInto hids s
  · intro id
    rw [haccounts]
    exact mem_map_account_flowsInto
  · intro id sign hflow
    obtain ⟨t, ht, heq⟩ := List.mem_map.1 hflow
    obtain ⟨rfl, rfl⟩ := Prod.mk.inj heq
    rw [Operation.sign_eq_minus_iff]
    refine ⟨fun operation hadjusts => ?_, fun hnone => operation_of_not_adjustsBy ht hnone⟩
    rw [operation_of_adjustsBy hids ht hadjusts]

/-- A press that wears, where what is spent on repairs is written up against the wear. -/
def press : Account ℚ :=
  { Account.stock ⟨"press"⟩ "Press" .debit with
    relation := some (.fixedAsset ⟨"purchases"⟩ ⟨"wear"⟩) }

/-- It stands for depreciation, and is declared to be added. -/
def wear : Account ℚ :=
  { Account.flow ⟨"wear"⟩ "Wear, net of repairs" with
    adjustment := some ⟨⟨"press"⟩, .add, .investing⟩ }

def scrap : Account ℚ :=
  { Account.flow ⟨"scrap"⟩ "Scrap" with adjustment := some ⟨⟨"press"⟩, .sub, .investing⟩ }

def printer : Chart ℚ := ⟨[wear, press, scrap, .flow ⟨"purchases"⟩ "Purchases"]⟩

theorem counts_once_press :
    (printer.accounts.map Account.id).Nodup ∧ press.isStock = true ∧
    press.isCashFlowItem = false ∧ press.total = none ∧ press.parameter.rule = .none ∧
    ∃ flows : List (AccountId × Sign),
      printer.formula? .steady press = .ok (some (balanceFormula ⟨"press"⟩ flows)) ∧
      (flows.map Prod.fst).Nodup ∧
      (⟨"wear"⟩, .plus) ∈ flows ∧ (⟨"scrap"⟩, .minus) ∈ flows ∧
      ⟨"purchases"⟩ ∈ flows.map Prod.fst := by
  have hids : (printer.accounts.map Account.id).Nodup := by decide
  obtain ⟨flows, hformula, hnodup, hmem, hsigns⟩ :=
    rollForward_counts_once hids (s := press) rfl rfl rfl rfl .steady rfl rfl
  have hwear : printer.AdjustsBy press.id ⟨"wear"⟩ .add :=
    ⟨wear, by simp [printer], rfl, .investing, rfl⟩
  have hscrap : printer.AdjustsBy press.id ⟨"scrap"⟩ .sub :=
    ⟨scrap, by simp [printer], rfl, .investing, rfl⟩
  have hpurchases : press.LinksTo ⟨"purchases"⟩ := ⟨_, rfl, by simp [Relation.links]⟩
  refine ⟨hids, rfl, rfl, rfl, rfl, flows, hformula, hnodup, ?_, ?_, (hmem _).2 (.inr hpurchases)⟩
  · obtain ⟨⟨id, sign⟩, hflow, rfl⟩ := List.mem_map.1 ((hmem _).2 (.inl ⟨_, hwear⟩))
    have hsign := (hsigns _ sign hflow).1 _ hwear
    cases sign with
    | plus => exact hflow
    | minus => cases hsign.1 rfl
  · obtain ⟨⟨id, sign⟩, hflow, rfl⟩ := List.mem_map.1 ((hmem _).2 (.inl ⟨_, hscrap⟩))
    have hsign := (hsigns _ sign hflow).1 _ hscrap
    rwa [hsign.2 rfl] at hflow

end Chart

end ProForma
