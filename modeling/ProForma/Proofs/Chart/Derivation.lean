import ProForma.Chart.Derivation
import ProForma.Proofs.Formula.Evaluation
import ProForma.Proofs.Outcome

/-!
# The formulas of a chart

Whatever the period, an account either has no formula or the one that it has in a period with
history, so the steady shape of a chart shows everything that can be read. These shapes are listed
once, rule by rule. So what is handed on from parts of formulas holds of all of them: no quotient
lacks its arguments, and nothing is referred to but what the account and the chart list. An account
that is supplied with what its rule needs has its formula in every period.
-/

namespace ProForma

variable {α : Type}

namespace Account

variable {a : Account α}

theorem exists_needReference (h : a.parameter.references ≠ []) :
    ∃ r, a.needReference = .ok r := by
  unfold needReference
  cases hreferences : a.parameter.references with
  | nil => exact absurd hreferences h
  | cons r rest => exact ⟨r, rfl⟩

theorem exists_needReferences (h : a.parameter.references ≠ []) :
    ∃ references, a.needReferences = .ok references := by
  unfold needReferences
  cases hreferences : a.parameter.references with
  | nil => exact absurd hreferences h
  | cons r rest => exact ⟨r :: rest, rfl⟩

theorem exists_needRate (h : a.parameter.rate.isSome = true) : ∃ rate, a.needRate = .ok rate := by
  obtain ⟨rate, hrate⟩ := Option.isSome_iff_exists.1 h
  exact ⟨rate, by rw [needRate, hrate]⟩

theorem references_of_needReference {r : Reference} (h : a.needReference = .ok r) :
    ∃ rest, a.parameter.references = r :: rest := by
  unfold needReference at h
  cases hreferences : a.parameter.references with
  | nil =>
      rw [hreferences] at h
      cases h
  | cons first rest =>
      rw [hreferences] at h
      cases h
      exact ⟨rest, rfl⟩

theorem references_of_needReferences {references : List Reference}
    (h : a.needReferences = .ok references) : a.parameter.references = references := by
  unfold needReferences at h
  split at h
  · cases h
  · cases h
    rfl

theorem rate_of_needRate {rate : α} (h : a.needRate = .ok rate) : a.parameter.rate = some rate := by
  unfold needRate at h
  cases hrate : a.parameter.rate with
  | none =>
      rw [hrate] at h
      cases h
  | some _ =>
      rw [hrate] at h
      cases h
      rfl

end Account

namespace Formula

/-- The property holds of constants, and of a sum or of two formulas combined if it holds of the
parts. -/
structure Hereditary (P : Formula α → Prop) : Prop where
  const (value : α) : P (.const value)
  combine {f g : Formula α} (operation : Operation) : P f → P g → P (combine operation f g)
  sum {fs : List (Formula α)} : (∀ f ∈ fs, P f) → P (sum fs)

theorem hereditary_proper : Hereditary (Proper : Formula α → Prop) where
  const _ := by simp [Proper]
  combine _ hf hg := by simp [Formula.combine, Proper, AllProper, hf, hg]
  sum h := by simpa [Formula.sum, Proper, allProper_iff] using h

theorem hereditary_reads (known : AccountId → Prop) :
    Hereditary fun f : Formula α => ∀ r ∈ f.refs, known r.1 where
  const _ := by simp [refs]
  combine _ hf hg := by
    intro r hr
    obtain ⟨part, hpart, hmem⟩ := mem_refsOfAll.1 hr
    rcases List.mem_cons.1 hpart with rfl | hpart
    · exact hf r hmem
    · exact hg r (List.mem_singleton.1 hpart ▸ hmem)
  sum h := by
    intro r hr
    obtain ⟨f, hf, hr⟩ := mem_refsOfAll.1 hr
    exact h f hf r hr

namespace Hereditary

variable {P : Formula α → Prop}

theorem change (h : Hereditary P) {id : AccountId} (hid : ∀ lag, P (.ref id lag)) :
    P (change id) :=
  h.combine .sub (hid 0) (hid 1)

theorem foldl_combine (h : Hereditary P) {terms : List (Operation × Formula α)}
    (hterms : ∀ t ∈ terms, P t.2) {f : Formula α} (hf : P f) :
    P (terms.foldl (fun acc term => .combine term.1 acc term.2) f) := by
  induction terms generalizing f with
  | nil => exact hf
  | cons t terms ih =>
      have hstep := h.combine t.1 hf (hterms t List.mem_cons_self)
      exact ih (fun x hx => hterms x (List.mem_cons_of_mem _ hx)) hstep

variable [Amount α]

theorem withSign (h : Hereditary P) {f : Formula α} (hf : P f) (sign : Sign) :
    P (f.withSign sign) := by
  cases sign with
  | plus => exact hf
  | minus => exact h.combine .mul (h.const (-1)) hf

theorem leading (h : Hereditary P) (operation : Operation) {f : Formula α} (hf : P f) :
    P (leading operation f) :=
  h.withSign hf operation.sign

theorem of_ofTerms? (h : Hereditary P) {terms : List (Operation × Formula α)}
    (hterms : ∀ t ∈ terms, P t.2) {f : Formula α} (hf : ofTerms? terms = some f) : P f := by
  cases terms with
  | nil => cases hf
  | cons t terms =>
      cases hf
      have hfirst := h.leading t.1 (hterms t List.mem_cons_self)
      exact h.foldl_combine (fun x hx => hterms x (List.mem_cons_of_mem _ hx)) hfirst

end Hereditary

end Formula

namespace Chart

variable [Amount α] {chart : Chart α} {a : Account α}

/-! ### History -/

/-- Without a period before, a rule gives the formula that it gives with one, or none. -/
theorem ruleFormula_eq_none_or (chart : Chart α) (hasPrevious : Bool) (a : Account α) :
    chart.ruleFormula hasPrevious a = .ok none ∨
      chart.ruleFormula hasPrevious a = chart.ruleFormula true a := by
  cases hasPrevious with
  | true => exact .inr rfl
  | false =>
      unfold ruleFormula
      cases a.parameter.rule with
      | percentage | calculation | reference | adjustment | cashEnding | cashBeginning =>
          exact .inr rfl
      | fixedValue | cashChange => exact .inl rfl
      | none =>
          dsimp only
          split
          · exact .inl rfl
          · exact .inr rfl
      | growthRate =>
          cases a.needRate with
          | ok rate => exact .inl rfl
          | error fault => exact .inr rfl
      | proportionate | balanceChange =>
          cases a.needReference with
          | ok r => exact .inl rfl
          | error fault => exact .inr rfl

/-- In every period, an account has the formula that it has in a period with history, or none. -/
theorem formula?_eq_none_or (chart : Chart α) (timing : Timing) (a : Account α) :
    chart.formula? timing a = .ok none ∨
      chart.formula? timing a = chart.formula? .steady a := by
  unfold formula?
  cases a.total with
  | some total => exact .inr rfl
  | none =>
      dsimp only
      split
      · exact .inl rfl
      · exact chart.ruleFormula_eq_none_or timing.hasPrevious a

theorem formula?_steady_of_eq_some {timing : Timing} {f : Formula α}
    (h : chart.formula? timing a = .ok (some f)) : chart.formula? .steady a = .ok (some f) := by
  rcases chart.formula?_eq_none_or timing a with hnone | hsteady
  · rw [hnone] at h
    cases h
  · rw [← hsteady, h]

/-! ### The shapes of formulas -/

/-- The formulas of a rule in a period with history, with what they take from the parameter. -/
inductive Derives (chart : Chart α) (a : Account α) : Formula α → Prop
  | none (hrule : a.parameter.rule = .none) (hstock : a.isStock = true)
      (hitem : a.isCashFlowItem = false) : Derives chart a (chart.rollForward a)
  | growthRate {rate : α} (hrule : a.parameter.rule = .growthRate)
      (hrate : a.parameter.rate = some rate) :
      Derives chart a (.combine .mul a.before (.const (1 + rate)))
  | percentage {r : Reference} {rest : List Reference} {share : α}
      (hrule : a.parameter.rule = .percentage) (hreferences : a.parameter.references = r :: rest)
      (hrate : a.parameter.rate = some share) :
      Derives chart a (.combine .mul (.ofReference r) (.const share))
  | proportionate {r : Reference} {rest : List Reference}
      (hrule : a.parameter.rule = .proportionate)
      (hreferences : a.parameter.references = r :: rest) :
      Derives chart a (.combine .mul a.before (.sum [.const 1,
        .combine .sub (.combine .div (.ref r.account 0) (.ref r.account 1)) (.const 1)]))
  | calculation {f : Formula α} (hrule : a.parameter.rule = .calculation)
      (hf : Formula.ofTerms? (a.parameter.references.map fun r => (r.operation, .ofReference r)) =
        some f) :
      Derives chart a f
  | reference {r : Reference} {rest : List Reference} (hrule : a.parameter.rule = .reference)
      (hreferences : a.parameter.references = r :: rest) : Derives chart a (.ofReference r)
  | fixedValue (hrule : a.parameter.rule = .fixedValue) : Derives chart a a.before
  | balanceChange {r : Reference} {rest : List Reference}
      (hrule : a.parameter.rule = .balanceChange)
      (hreferences : a.parameter.references = r :: rest) :
      Derives chart a (.leading r.operation (.change r.account))
  | adjustment {r : Reference} {rest : List Reference} (hrule : a.parameter.rule = .adjustment)
      (hreferences : a.parameter.references = r :: rest) :
      Derives chart a (.leading r.operation (.ref r.account 0))
  | cashChange (hrule : a.parameter.rule = .cashChange) : Derives chart a chart.cashChangeFormula
  | cashEnding (hrule : a.parameter.rule = .cashEnding) :
      Derives chart a
        (.sum (a.parameter.references.map fun r => .leading r.operation (.ofReference r)))
  | cashBeginning {r : Reference} {rest : List Reference}
      (hrule : a.parameter.rule = .cashBeginning)
      (hreferences : a.parameter.references = r :: rest) : Derives chart a (.ref r.account 1)
  | classifiedCash {cash : Account α} (hrule : a.parameter.rule = .cashBeginning)
      (hreferences : a.parameter.references = []) (hcash : chart.key? .cashTotal = some cash) :
      Derives chart a (.ref cash.id 1)

theorem derives_of_ruleFormula {f : Formula α} (h : chart.ruleFormula true a = .ok (some f)) :
    chart.Derives a f := by
  unfold ruleFormula at h
  cases hrule : a.parameter.rule with
  | none =>
      simp only [hrule, ↓reduceIte] at h
      split at h
      · rename_i hstock
        cases h
        obtain ⟨hstock, hitem⟩ := Bool.and_eq_true_iff.1 hstock
        exact .none hrule hstock (by simpa using hitem)
      · cases h
  | growthRate =>
      simp only [hrule] at h
      obtain ⟨rate, hrate, h⟩ := bind_eq_ok.1 h
      cases h
      exact .growthRate hrule (Account.rate_of_needRate hrate)
  | percentage =>
      simp only [hrule] at h
      obtain ⟨r, hr, h⟩ := bind_eq_ok.1 h
      obtain ⟨share, hshare, h⟩ := bind_eq_ok.1 h
      cases h
      obtain ⟨rest, hreferences⟩ := Account.references_of_needReference hr
      exact .percentage hrule hreferences (Account.rate_of_needRate hshare)
  | proportionate =>
      simp only [hrule] at h
      obtain ⟨r, hr, h⟩ := bind_eq_ok.1 h
      cases h
      obtain ⟨rest, hreferences⟩ := Account.references_of_needReference hr
      exact .proportionate hrule hreferences
  | calculation =>
      simp only [hrule] at h
      obtain ⟨references, hreferences, h⟩ := bind_eq_ok.1 h
      rw [← Account.references_of_needReferences hreferences] at h
      exact .calculation hrule (Except.ok.inj h)
  | reference =>
      simp only [hrule] at h
      obtain ⟨r, hr, h⟩ := bind_eq_ok.1 h
      cases h
      obtain ⟨rest, hreferences⟩ := Account.references_of_needReference hr
      exact .reference hrule hreferences
  | fixedValue =>
      simp only [hrule] at h
      cases h
      exact .fixedValue hrule
  | balanceChange =>
      simp only [hrule] at h
      obtain ⟨r, hr, h⟩ := bind_eq_ok.1 h
      cases h
      obtain ⟨rest, hreferences⟩ := Account.references_of_needReference hr
      exact .balanceChange hrule hreferences
  | adjustment =>
      simp only [hrule] at h
      obtain ⟨r, hr, h⟩ := bind_eq_ok.1 h
      cases h
      obtain ⟨rest, hreferences⟩ := Account.references_of_needReference hr
      exact .adjustment hrule hreferences
  | cashChange =>
      simp only [hrule] at h
      cases h
      exact .cashChange hrule
  | cashEnding =>
      simp only [hrule] at h
      obtain ⟨references, hreferences, h⟩ := bind_eq_ok.1 h
      cases h
      rw [← Account.references_of_needReferences hreferences]
      exact .cashEnding hrule
  | cashBeginning =>
      simp only [hrule] at h
      cases hreferences : a.parameter.references with
      | cons r rest =>
          simp only [hreferences, List.head?_cons] at h
          cases h
          exact .cashBeginning hrule hreferences
      | nil =>
          simp only [hreferences, List.head?_nil] at h
          cases hcash : chart.key? .cashTotal with
          | some cash =>
              simp only [hcash] at h
              cases h
              exact .classifiedCash hrule hreferences hcash
          | none =>
              simp only [hcash] at h
              cases h

/-- The formula of an account, in whatever period it has one, is the total that it is or one of the
formulas of its rule. -/
theorem derives_of_formula? {timing : Timing} {f : Formula α}
    (h : chart.formula? timing a = .ok (some f)) :
    (∃ total, a.total = some total ∧ chart.totalFormula? a total = some f) ∨
      a.total = none ∧ chart.Derives a f := by
  have hsteady := formula?_steady_of_eq_some h
  unfold formula? at hsteady
  cases htotal : a.total with
  | some total =>
      simp only [htotal] at hsteady
      exact .inl ⟨total, rfl, Except.ok.inj hsteady⟩
  | none =>
      simp only [htotal] at hsteady
      exact .inr ⟨rfl, derives_of_ruleFormula hsteady⟩

/-! ### What holds of all formulas -/

/-- The accounts that the formulas of an account can refer to. -/
inductive MayRead (chart : Chart α) (a : Account α) : AccountId → Prop
  | self : MayRead chart a a.id
  | reference {r : Reference} (hr : r ∈ a.parameter.references) : MayRead chart a r.account
  | term {terms : List Term} {t : Term} (htotal : a.total = some (.ofTerms terms))
      (ht : t ∈ terms) : MayRead chart a t.account
  | flow {t : Term} (ht : t ∈ chart.flowsInto a) : MayRead chart a t.account
  | listed {b : Account α} (hb : b ∈ chart.accounts) : MayRead chart a b.id

variable {P : Formula α → Prop} {f : Formula α}

theorem hereditary_totalFormula? (h : Formula.Hereditary P)
    (hrefs : ∀ id, chart.MayRead a id → ∀ lag, P (.ref id lag)) {total : Total}
    (htotal : a.total = some total) (hf : chart.totalFormula? a total = some f) : P f := by
  cases total with
  | ofChildren =>
      simp only [totalFormula?] at hf
      split at hf
      · cases hf
      · cases hf
        refine h.sum fun g hg => ?_
        obtain ⟨child, hchild, rfl⟩ := List.mem_map.1 hg
        exact hrefs _ (.listed (List.mem_filter.1 hchild).1) 0
  | ofTerms terms =>
      refine h.of_ofTerms? (fun t ht => ?_) hf
      obtain ⟨term, hterm, rfl⟩ := List.mem_map.1 ht
      exact hrefs _ (.term htotal hterm) 0

theorem hereditary_cashChangeFormula (h : Formula.Hereditary P)
    (hrefs : ∀ b ∈ chart.accounts, ∀ lag, P (.ref b.id lag)) : P chart.cashChangeFormula := by
  unfold cashChangeFormula
  refine h.sum fun f hf => ?_
  rcases List.mem_append.1 hf with hf | hf
  · rcases List.mem_append.1 hf with hf | hf
    · obtain ⟨b, hb, rfl⟩ := List.mem_map.1 hf
      exact hrefs b (List.mem_filter.1 hb).1 0
    · obtain ⟨entry, hentry, heq⟩ := List.mem_filterMap.1 hf
      obtain ⟨sign, -, rfl⟩ := Option.map_eq_some_iff.1 heq
      obtain ⟨b, hb, hadjustment⟩ := List.mem_filterMap.1 hentry
      obtain ⟨_, -, rfl⟩ := Option.map_eq_some_iff.1 hadjustment
      exact h.withSign (hrefs b hb 0) sign
  · obtain ⟨b, hb, heq⟩ := List.mem_filterMap.1 hf
    obtain ⟨sign, -, rfl⟩ := Option.map_eq_some_iff.1 heq
    exact h.withSign (h.change (hrefs b (List.mem_filter.1 hb).1)) sign

theorem hereditary_rollForward (h : Formula.Hereditary P)
    (hrefs : ∀ id, chart.MayRead a id → ∀ lag, P (.ref id lag)) : P (chart.rollForward a) := by
  have hbefore : P a.before := hrefs _ .self 1
  unfold rollForward
  split
  · exact hbefore
  · refine h.sum (List.forall_mem_cons.2 ⟨hbefore, fun f hf => ?_⟩)
    obtain ⟨t, ht, rfl⟩ := List.mem_map.1 hf
    exact h.leading t.operation (hrefs _ (.flow ht) 0)

theorem hereditary_derives (h : Formula.Hereditary P)
    (hrefs : ∀ id, chart.MayRead a id → ∀ lag, P (.ref id lag)) (hf : chart.Derives a f) : P f := by
  have hbefore : P a.before := hrefs _ .self 1
  have hlisted : ∀ r ∈ a.parameter.references, ∀ lag, P (.ref r.account lag) := fun r hr =>
    hrefs _ (.reference hr)
  cases hf with
  | none => exact hereditary_rollForward h hrefs
  | growthRate => exact h.combine .mul hbefore (h.const _)
  | @percentage r _ share _ hreferences =>
      have hr : r ∈ a.parameter.references := hreferences ▸ List.mem_cons_self
      exact h.combine .mul (hlisted r hr r.lag) (h.const share)
  | @proportionate r _ _ hreferences =>
      have hr : r ∈ a.parameter.references := hreferences ▸ List.mem_cons_self
      have hratio := h.combine .div (hlisted r hr 0) (hlisted r hr 1)
      have hgrowth := h.combine .sub hratio (h.const 1)
      exact h.combine .mul hbefore (h.sum (by simpa using ⟨h.const 1, hgrowth⟩))
  | calculation _ hf =>
      refine h.of_ofTerms? (fun t ht => ?_) hf
      obtain ⟨r, hr, rfl⟩ := List.mem_map.1 ht
      exact hlisted r hr r.lag
  | @reference r _ _ hreferences =>
      exact hlisted r (hreferences ▸ List.mem_cons_self) r.lag
  | fixedValue => exact hbefore
  | @balanceChange r _ _ hreferences =>
      exact h.leading r.operation (h.change (hlisted r (hreferences ▸ List.mem_cons_self)))
  | @adjustment r _ _ hreferences =>
      exact h.leading r.operation (hlisted r (hreferences ▸ List.mem_cons_self) 0)
  | cashChange => exact hereditary_cashChangeFormula h fun b hb => hrefs _ (.listed hb)
  | cashEnding =>
      refine h.sum fun f hf => ?_
      obtain ⟨r, hr, rfl⟩ := List.mem_map.1 hf
      exact h.leading r.operation (hlisted r hr r.lag)
  | @cashBeginning r _ _ hreferences => exact hlisted r (hreferences ▸ List.mem_cons_self) 1
  | classifiedCash _ _ hcash => exact hrefs _ (.listed (List.mem_of_find?_eq_some hcash)) 1

/-- What is handed on from parts of formulas holds of every formula of an account if it holds of the
references to what the account may read. -/
theorem hereditary_formula? (h : Formula.Hereditary P)
    (hrefs : ∀ id, chart.MayRead a id → ∀ lag, P (.ref id lag)) {timing : Timing}
    (hf : chart.formula? timing a = .ok (some f)) : P f := by
  rcases derives_of_formula? hf with ⟨total, htotal, hf⟩ | ⟨-, hderives⟩
  · exact hereditary_totalFormula? h hrefs htotal hf
  · exact hereditary_derives h hrefs hderives

theorem proper_of_formula? {timing : Timing} (h : chart.formula? timing a = .ok (some f)) :
    f.Proper :=
  hereditary_formula? Formula.hereditary_proper (fun id _ lag => by simp [Formula.Proper]) h

theorem mayRead_of_mem_refs {timing : Timing} (h : chart.formula? timing a = .ok (some f))
    {r : AccountId × Nat} (hr : r ∈ f.refs) : chart.MayRead a r.1 :=
  hereditary_formula? (Formula.hereditary_reads (chart.MayRead a))
    (fun id hid lag => by simpa [Formula.refs] using hid) h r hr

/-! ### Accounts that are supplied with what they need -/

/-- The account has what its rule needs: references, a rate, and somewhere to look for cash. -/
structure Supplies (chart : Chart α) (a : Account α) : Prop where
  references : a.parameter.rule.needsReference = true → a.parameter.references ≠ []
  rate : a.parameter.rule.needsRate = true → a.parameter.rate.isSome = true
  cash : a.parameter.rule = .cashBeginning →
    a.parameter.references ≠ [] ∨ (chart.key? .cashTotal).isSome = true

theorem exists_ruleFormula (h : chart.Supplies a) (hasPrevious : Bool) :
    ∃ f?, chart.ruleFormula hasPrevious a = .ok f? := by
  unfold ruleFormula
  cases hrule : a.parameter.rule with
  | none | fixedValue | cashChange => exact ⟨_, rfl⟩
  | growthRate =>
      obtain ⟨rate, hrate⟩ := Account.exists_needRate (h.rate (by rw [hrule]; rfl))
      exact ⟨_, by rw [hrate]; rfl⟩
  | percentage =>
      obtain ⟨r, hr⟩ := Account.exists_needReference (h.references (by rw [hrule]; rfl))
      obtain ⟨rate, hrate⟩ := Account.exists_needRate (h.rate (by rw [hrule]; rfl))
      exact ⟨_, by rw [hr, hrate]; rfl⟩
  | proportionate | reference | balanceChange | adjustment =>
      obtain ⟨r, hr⟩ := Account.exists_needReference (h.references (by rw [hrule]; rfl))
      exact ⟨_, by rw [hr]; rfl⟩
  | calculation | cashEnding =>
      have hneeds : a.parameter.rule.needsReference = true := by rw [hrule]; rfl
      obtain ⟨references, hreferences⟩ := Account.exists_needReferences (h.references hneeds)
      exact ⟨_, by rw [hreferences]; rfl⟩
  | cashBeginning =>
      cases hreferences : a.parameter.references with
      | cons r rest => exact ⟨_, rfl⟩
      | nil =>
          have hcash := (h.cash hrule).resolve_left (absurd hreferences)
          obtain ⟨cash, hcash⟩ := Option.isSome_iff_exists.1 hcash
          exact ⟨_, by rw [hcash]; rfl⟩

theorem exists_formula? (h : chart.Supplies a) (timing : Timing) :
    ∃ f?, chart.formula? timing a = .ok f? := by
  unfold formula?
  cases a.total with
  | some total => exact ⟨_, rfl⟩
  | none =>
      dsimp only
      split
      · exact ⟨none, rfl⟩
      · exact exists_ruleFormula h timing.hasPrevious

end Chart

end ProForma
