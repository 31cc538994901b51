import ProForma.Amount.Rational
import ProForma.Proofs.Chart.Derivation

/-!
# Formulas in another unit

The values of accounts are amounts of some currency, while rates and shares are numbers without a
unit. Every formula of a chart is again an amount, if terms are combined by addition and subtraction
only: when all that it reads is taken `k` times, so is what it comes to, and where it divides by
zero, it does so in any unit.
-/

namespace ProForma

/-- The reading is the other one in another unit. -/
def Rescales (k : ℚ) (read read' : AccountId → Int → Except (Fault ℚ) ℚ) : Prop :=
  ∀ account t, read' account t = (read account t).map (k * ·)

namespace Operation

/-- Terms under the operation are of the same unit as the result. -/
def IsAdditive (operation : Operation) : Prop :=
  operation = .add ∨ operation = .sub

/-- What the operation makes of an amount and the next one. -/
def result (whole : Formula ℚ) (operation : Operation) (x y : ℚ) : Except (Fault ℚ) ℚ :=
  operation.step whole x y

theorem result_additive (whole : Formula ℚ) {operation : Operation} (h : operation.IsAdditive)
    (c x y : ℚ) :
    operation.result whole (c * x) (c * y) = (operation.result whole x y).map (c * ·) := by
  rcases h with rfl | rfl
  · exact congrArg Except.ok (mul_add c x y).symm
  · exact congrArg Except.ok (mul_sub c x y).symm

theorem result_mul (whole : Formula ℚ) (c d x y : ℚ) :
    mul.result whole (c * x) (d * y) = (mul.result whole x y).map (c * d * ·) :=
  congrArg Except.ok (mul_mul_mul_comm c x d y)

/-- A divisor is zero in every unit or in none. -/
theorem result_div (whole : Formula ℚ) {d : ℚ} (hd : d ≠ 0) (c x y : ℚ) :
    div.result whole (c * x) (d * y) = (div.result whole x y).map (c / d * ·) := by
  simp only [result, step, beq_iff_eq, mul_eq_zero, hd, false_or]
  by_cases hy : y = 0
  · rw [if_pos hy, if_pos hy]
    rfl
  · rw [if_neg hy, if_neg hy]
    exact congrArg Except.ok (mul_div_mul_comm c x d y)

end Operation

namespace Formula

/-- Where all that is read is taken `k` times, the formula comes to `c` times as much, or fails as
it did. -/
def Scales (k c : ℚ) (f : Formula ℚ) : Prop :=
  ∀ read read' position, Rescales k read read' →
    f.eval read' position = (f.eval read position).map (c * ·)

variable {k c d e : ℚ} {f g : Formula ℚ} {fs : List (Formula ℚ)}

theorem scales_const (value : ℚ) : (const value).Scales k 1 := by
  intro read read' position _
  simp only [eval]
  exact congrArg Except.ok (one_mul value).symm

theorem scales_ref (account : AccountId) (lag : Nat) : (ref account lag).Scales k k := by
  intro read read' position hread
  simp only [eval]
  exact hread account (position - lag)

theorem accumulate_scales {step : ℚ → ℚ → Except (Fault ℚ) ℚ}
    (hstep : ∀ x y, step (c * x) (c * y) = (step x y).map (c * ·)) (hfs : ∀ f ∈ fs, f.Scales k c)
    {read read' : AccountId → Int → Except (Fault ℚ) ℚ} (hread : Rescales k read read')
    (position : Int) (acc : ℚ) :
    accumulate read' position step (c * acc) fs =
      (accumulate read position step acc fs).map (c * ·) := by
  induction fs generalizing acc with
  | nil =>
      simp only [accumulate]
      rfl
  | cons f fs ih =>
      simp only [accumulate]
      rw [hfs f List.mem_cons_self read read' position hread]
      rcases f.eval read position with fault | x
      · rfl
      · change (step (c * acc) (c * x) >>= fun next => accumulate read' position step next fs) =
          (step acc x >>= fun next => accumulate read position step next fs).map (c * ·)
        rw [hstep]
        rcases step acc x with fault | next
        · rfl
        · exact ih (fun g hg => hfs g (List.mem_cons_of_mem _ hg)) next

theorem scales_sum (h : ∀ f ∈ fs, f.Scales k c) : (sum fs).Scales k c := by
  intro read read' position hread
  unfold sum
  simp only [eval]
  have hsum := accumulate_scales
    (Operation.result_additive (.apply .add fs) (.inl rfl) c) h hread position 0
  rwa [mul_zero] at hsum

theorem eval_combine (operation : Operation) (f g : Formula ℚ)
    (read : AccountId → Int → Except (Fault ℚ) ℚ) (position : Int) :
    (combine operation f g).eval read position =
      (do
        let x ← f.eval read position
        let y ← g.eval read position
        operation.result (combine operation f g) x y) := by
  unfold combine
  cases operation with
  | add | mul =>
      simp only [eval, accumulate, Operation.result, Operation.step, zero_add, one_mul]
      rfl
  | sub | div =>
      simp only [eval, accumulate, Operation.result, bind_pure]

theorem scales_combine {operation : Operation}
    (hresult : ∀ x y, operation.result (combine operation f g) (c * x) (d * y) =
      (operation.result (combine operation f g) x y).map (e * ·))
    (hf : f.Scales k c) (hg : g.Scales k d) : (combine operation f g).Scales k e := by
  intro read read' position hread
  rw [eval_combine, eval_combine, hf read read' position hread, hg read read' position hread]
  rcases f.eval read position with fault | x
  · rfl
  · rcases g.eval read position with fault | y
    · rfl
    · exact hresult x y

theorem scales_combine_additive {operation : Operation} (h : operation.IsAdditive)
    (hf : f.Scales k c) (hg : g.Scales k c) : (combine operation f g).Scales k c :=
  scales_combine (Operation.result_additive _ h c) hf hg

theorem scales_mul (hf : f.Scales k c) (hg : g.Scales k d) :
    (combine .mul f g).Scales k (c * d) :=
  scales_combine (Operation.result_mul _ c d) hf hg

theorem scales_div (hd : d ≠ 0) (hf : f.Scales k c) (hg : g.Scales k d) :
    (combine .div f g).Scales k (c / d) :=
  scales_combine (Operation.result_div _ hd c) hf hg

theorem scales_change (id : AccountId) : (change id : Formula ℚ).Scales k k :=
  scales_combine_additive (.inr rfl) (scales_ref id 0) (scales_ref id 1)

theorem scales_withSign (hf : f.Scales k c) (sign : Sign) : (f.withSign sign).Scales k c := by
  cases sign with
  | plus => exact hf
  | minus =>
      have hnegated := scales_mul (scales_const (-1)) hf
      rwa [one_mul] at hnegated

theorem scales_leading (operation : Operation) (hf : f.Scales k c) :
    (leading operation f).Scales k c :=
  scales_withSign hf operation.sign

theorem scales_foldl_combine {terms : List (Operation × Formula ℚ)}
    (hterms : ∀ t ∈ terms, t.1.IsAdditive ∧ t.2.Scales k c) (hf : f.Scales k c) :
    (terms.foldl (fun acc term => combine term.1 acc term.2) f).Scales k c := by
  induction terms generalizing f with
  | nil => exact hf
  | cons t terms ih =>
      obtain ⟨hadditive, hscales⟩ := hterms t List.mem_cons_self
      exact ih (fun x hx => hterms x (List.mem_cons_of_mem _ hx))
        (scales_combine_additive hadditive hf hscales)

/-- The first of the terms counts by its sign only, whatever its operation. -/
theorem scales_ofTerms? {terms : List (Operation × Formula ℚ)}
    (hterms : ∀ t ∈ terms, t.2.Scales k c) (htail : ∀ t ∈ terms.tail, t.1.IsAdditive)
    (h : ofTerms? terms = some f) : f.Scales k c := by
  cases terms with
  | nil => cases h
  | cons t terms =>
      cases h
      refine scales_foldl_combine (fun x hx => ⟨htail x hx, ?_⟩) ?_
      · exact hterms x (List.mem_cons_of_mem _ hx)
      · exact scales_leading t.1 (hterms t List.mem_cons_self)

end Formula

/-! ### The formulas of a chart -/

/-- Calculations and totals combine their further terms by addition and subtraction. -/
structure Account.IsAdditive {α : Type} (a : Account α) : Prop where
  calculation : a.parameter.rule = .calculation →
    ∀ r ∈ a.parameter.references.tail, r.operation.IsAdditive
  total : ∀ terms, a.total = some (.ofTerms terms) → ∀ t ∈ terms.tail, t.operation.IsAdditive

namespace Chart

open Formula

variable {chart : Chart ℚ} {a : Account ℚ} {f : Formula ℚ} {k : ℚ}

theorem scales_totalFormula? {total : Total}
    (hadditive : ∀ terms, total = .ofTerms terms → ∀ t ∈ terms.tail, t.operation.IsAdditive)
    (h : chart.totalFormula? a total = some f) : f.Scales k k := by
  cases total with
  | ofChildren =>
      simp only [totalFormula?] at h
      split at h
      · cases h
      · cases h
        apply scales_sum
        intro g hg
        obtain ⟨child, -, rfl⟩ := List.mem_map.1 hg
        exact scales_ref child.id 0
  | ofTerms terms =>
      refine scales_ofTerms? (fun t ht => ?_) (fun t ht => ?_) h
      · obtain ⟨term, -, rfl⟩ := List.mem_map.1 ht
        exact scales_ref term.account 0
      · rw [← List.map_tail] at ht
        obtain ⟨term, hterm, rfl⟩ := List.mem_map.1 ht
        exact hadditive terms rfl term hterm

theorem scales_cashChangeFormula (chart : Chart ℚ) : chart.cashChangeFormula.Scales k k := by
  unfold cashChangeFormula
  apply scales_sum
  intro g hg
  rcases List.mem_append.1 hg with hg | hg
  · rcases List.mem_append.1 hg with hg | hg
    · obtain ⟨b, -, rfl⟩ := List.mem_map.1 hg
      exact scales_ref b.id 0
    · obtain ⟨⟨b, adjustment⟩, -, heq⟩ := List.mem_filterMap.1 hg
      obtain ⟨sign, -, rfl⟩ := Option.map_eq_some_iff.1 heq
      exact scales_withSign (scales_ref b.id 0) sign
  · obtain ⟨b, -, heq⟩ := List.mem_filterMap.1 hg
    obtain ⟨sign, -, rfl⟩ := Option.map_eq_some_iff.1 heq
    exact scales_withSign (scales_change b.id) sign

theorem scales_rollForward (chart : Chart ℚ) (a : Account ℚ) :
    (chart.rollForward a).Scales k k := by
  unfold rollForward
  split
  · exact scales_ref a.id 1
  · apply scales_sum
    intro g hg
    rcases List.mem_cons.1 hg with rfl | hg
    · exact scales_ref a.id 1
    · obtain ⟨t, -, rfl⟩ := List.mem_map.1 hg
      exact scales_leading t.operation (scales_ref t.account 0)

/-- The growth of another account is a number without a unit. -/
theorem scales_growth (hk : k ≠ 0) (id : AccountId) :
    (sum [.const 1, .combine .sub (.combine .div (.ref id 0) (.ref id 1)) (.const 1)]).Scales
      k 1 := by
  have hratio : (combine .div (.ref id 0) (.ref id 1)).Scales k 1 := by
    have hdiv := scales_div hk (scales_ref (k := k) id 0) (scales_ref id 1)
    rwa [div_self hk] at hdiv
  apply scales_sum
  simp only [List.forall_mem_cons, List.not_mem_nil, false_implies, implies_true, and_true]
  exact ⟨scales_const 1, scales_combine_additive (.inr rfl) hratio (scales_const 1)⟩

theorem scales_of_derives (hk : k ≠ 0) (hadditive : a.IsAdditive) (h : chart.Derives a f) :
    f.Scales k k := by
  cases h with
  | none => exact chart.scales_rollForward a
  | @growthRate rate =>
      have hgrown := scales_mul (scales_ref (k := k) a.id 1) (scales_const (1 + rate))
      rwa [mul_one] at hgrown
  | @percentage r _ share =>
      have hshare := scales_mul (scales_ref (k := k) r.account r.lag) (scales_const share)
      rwa [mul_one] at hshare
  | @proportionate r =>
      have hgrown := scales_mul (scales_ref (k := k) a.id 1) (scales_growth hk r.account)
      rwa [mul_one] at hgrown
  | calculation hrule hf =>
      refine scales_ofTerms? (fun t ht => ?_) (fun t ht => ?_) hf
      · obtain ⟨r, -, rfl⟩ := List.mem_map.1 ht
        exact scales_ref r.account r.lag
      · rw [← List.map_tail] at ht
        obtain ⟨r, hr, rfl⟩ := List.mem_map.1 ht
        exact hadditive.calculation hrule r hr
  | @balanceChange r => exact scales_leading r.operation (scales_change r.account)
  | @adjustment r => exact scales_leading r.operation (scales_ref r.account 0)
  | cashChange => exact chart.scales_cashChangeFormula
  | cashEnding =>
      apply scales_sum
      intro g hg
      obtain ⟨r, -, rfl⟩ := List.mem_map.1 hg
      exact scales_leading r.operation (scales_ref r.account r.lag)
  | reference | fixedValue | cashBeginning | classifiedCash => exact scales_ref _ _

/-- In every period, the formula of an account is an amount. -/
theorem scales_formula? (hk : k ≠ 0) (hadditive : a.IsAdditive) {timing : Timing}
    (h : chart.formula? timing a = .ok (some f)) : f.Scales k k := by
  rcases derives_of_formula? h with ⟨total, htotal, hf⟩ | ⟨-, hderives⟩
  · refine scales_totalFormula? (fun terms hterms => ?_) hf
    exact hadditive.total terms (by rw [htotal, hterms])
  · exact scales_of_derives hk hadditive hderives

end Chart

end ProForma
