import Mathlib.Data.List.Find
import ProForma.Proofs.Chart.Flows
import ProForma.Proofs.Formula.Rational
import ProForma.Proofs.Review

/-!
# The order in which accounts are listed

Accounts are looked up by identifiers and key lines, of which none is used twice, so the order in
which a chart lists its accounts shows in three places only: in the children of a total, in the
change of cash and in the flows into a stock. These are added up, so the formulas of an account are
the same up to the order of a sum. They read the same and link the same, and since sums of rational
amounts are the same in any order, they come to the same.
-/

namespace ProForma

/-! ### Formulas that come to the same -/

namespace Formula

variable {f g : Formula ℚ} {fs gs : List (Formula ℚ)} {table : AccountId → Int → ℚ} {position : Int}

/-- The formulas have the same value over every table, or the same fault, and read the same. -/
structure Matches (f g : Formula ℚ) : Prop where
  value (table : AccountId → Int → ℚ) (position : Int) :
    g.value table position = f.value table position
  refs (r : AccountId × Nat) : r ∈ g.refs ↔ r ∈ f.refs

/-- There is nothing in the formula to fail at. -/
def NeverFails (f : Formula ℚ) : Prop :=
  ∀ table position, ∃ x, f.value table position = .ok x

theorem neverFails_const (x : ℚ) : (const x).NeverFails :=
  fun _ _ => ⟨x, value_const x⟩

theorem neverFails_ref (account : AccountId) (lag : Nat) : (ref account lag).NeverFails :=
  fun _ _ => ⟨_, value_ref account lag⟩

theorem neverFails_combine {operation : Operation} (hoperation : operation ≠ .div)
    (hf : f.NeverFails) (hg : g.NeverFails) : (combine operation f g).NeverFails := by
  intro table position
  obtain ⟨x, hx⟩ := hf table position
  obtain ⟨y, hy⟩ := hg table position
  exact ⟨_, value_combine_eq_ok operation hx hy (absurd · hoperation)⟩

theorem neverFails_change (id : AccountId) : (change id : Formula ℚ).NeverFails :=
  neverFails_combine nofun (neverFails_ref id 0) (neverFails_ref id 1)

theorem neverFails_withSign (hf : f.NeverFails) (sign : Sign) : (f.withSign sign).NeverFails := by
  cases sign with
  | plus => exact hf
  | minus => exact neverFails_combine nofun (neverFails_const (-1)) hf

/-- What a formula comes to, or zero where it fails. -/
def amount (f : Formula ℚ) (table : AccountId → Int → ℚ) (position : Int) : ℚ :=
  (f.value table position).toOption.getD 0

theorem value_sum_of_neverFails (h : ∀ f ∈ fs, f.NeverFails) :
    (sum fs).value table position = .ok (fs.map fun f => f.amount table position).sum := by
  have hparts : List.Forall₂ (fun f x => f.value table position = .ok x) fs
      (fs.map fun f => f.amount table position) := by
    rw [List.forall₂_map_right_iff, List.forall₂_same]
    intro f hf
    obtain ⟨x, hx⟩ := h f hf table position
    rw [amount, hx]
    rfl
  rw [value_sum hparts, List.sum_eq_foldl]

/-- A sum comes to the same in any order. -/
theorem matches_sum (hperm : fs.Perm gs) (h : ∀ f ∈ fs, f.NeverFails) :
    Matches (sum fs) (sum gs) where
  value table position := by
    have hgs : ∀ g ∈ gs, g.NeverFails := fun g hg => h g (hperm.mem_iff.2 hg)
    rw [value_sum_of_neverFails h, value_sum_of_neverFails hgs,
      (hperm.map fun f => f.amount table position).sum_eq]
  refs r := by
    change r ∈ refsOfAll gs ↔ r ∈ refsOfAll fs
    rw [mem_refsOfAll, mem_refsOfAll]
    simp only [hperm.mem_iff]

/-- The same answer to what the formula of an account is, up to formulas that come to the same. -/
inductive Corresponds :
    Except (Fault ℚ) (Option (Formula ℚ)) → Except (Fault ℚ) (Option (Formula ℚ)) → Prop
  | same (answer : Except (Fault ℚ) (Option (Formula ℚ))) : Corresponds answer answer
  | sums {f g : Formula ℚ} (h : Matches f g) : Corresponds (.ok (some f)) (.ok (some g))

/-! ### Formulas up to the order of sums -/

section Reorders

variable {α : Type} [Amount α]

/-- A cell, or the change of one, counted with a sign. -/
inductive IsSigned : Formula α → Prop
  | ref (account : AccountId) (lag : Nat) (sign : Sign) : IsSigned ((ref account lag).withSign sign)
  | change (id : AccountId) (sign : Sign) : IsSigned ((change id).withSign sign)

/-- The same answer to what the formula of an account is, up to the order in which signed cells are
added up. -/
inductive Reorders :
    Except (Fault α) (Option (Formula α)) → Except (Fault α) (Option (Formula α)) → Prop
  | same (answer : Except (Fault α) (Option (Formula α))) : Reorders answer answer
  | sums {fs gs : List (Formula α)} (hperm : fs.Perm gs) (hsigned : ∀ f ∈ fs, f.IsSigned) :
      Reorders (.ok (some (sum fs))) (.ok (some (sum gs)))

theorem Reorders.mem_refs_iff {answer answer' : Except (Fault α) (Option (Formula α))}
    (h : Reorders answer answer') {r : AccountId × Nat} :
    (∃ f, answer' = .ok (some f) ∧ r ∈ f.refs) ↔ ∃ f, answer = .ok (some f) ∧ r ∈ f.refs := by
  cases h with
  | same => rfl
  | @sums fs gs hperm =>
      have hrefs : r ∈ (sum gs).refs ↔ r ∈ (sum fs).refs := by
        change r ∈ refsOfAll gs ↔ r ∈ refsOfAll fs
        rw [mem_refsOfAll, mem_refsOfAll]
        simp only [hperm.mem_iff]
      simp [hrefs]

end Reorders

theorem IsSigned.neverFails (h : f.IsSigned) : f.NeverFails := by
  cases h with
  | ref account lag sign => exact neverFails_withSign (neverFails_ref account lag) sign
  | change id sign => exact neverFails_withSign (neverFails_change id) sign

theorem Reorders.corresponds {answer answer' : Except (Fault ℚ) (Option (Formula ℚ))}
    (h : Reorders answer answer') : Corresponds answer answer' := by
  cases h with
  | same => exact .same _
  | sums hperm hsigned => exact .sums (matches_sum hperm fun f hf => (hsigned f hf).neverFails)

end Formula

namespace Chart

variable {α : Type} {chart chart' : Chart α} {a : Account α}

/-- The charts list the same accounts, and no identifier and no key line is used twice. -/
structure Rearranges (chart chart' : Chart α) : Prop where
  accounts : chart.accounts.Perm chart'.accounts
  ids : (chart.accounts.map Account.id).Nodup
  keys : (chart.accounts.filterMap Account.key).Nodup

theorem rearranges_of_faults (h : chart.faults = []) (hperm : chart.accounts.Perm chart'.accounts) :
    chart.Rearranges chart' :=
  ⟨hperm, (faults_eq_nil_iff.1 h).1, (faults_eq_nil_iff.1 h).2.1⟩

namespace Rearranges

/-! ### Lookups -/

theorem mem_iff (h : chart.Rearranges chart') : a ∈ chart'.accounts ↔ a ∈ chart.accounts :=
  h.accounts.mem_iff.symm

theorem account?_eq (h : chart.Rearranges chart') : chart'.account? = chart.account? := by
  funext id
  refine (List.find?_eq_find?_of_perm h.accounts ?_).symm
  rintro a ⟨ha, hid⟩ b ⟨hb, hid'⟩
  exact List.inj_on_of_nodup_map h.ids ha hb
    ((of_decide_eq_true hid).trans (of_decide_eq_true hid').symm)

theorem key?_eq (h : chart.Rearranges chart') : chart'.key? = chart.key? := by
  funext key
  refine (List.find?_eq_find?_of_perm h.accounts ?_).symm
  rintro a ⟨ha, hkey⟩ b ⟨hb, hkey'⟩
  exact eq_of_key_eq h.keys ha hb (of_decide_eq_true hkey) (of_decide_eq_true hkey')

theorem isCash_eq (h : chart.Rearranges chart') : chart'.isCash = chart.isCash := by
  have hparent : chart'.parent? = chart.parent? := by
    unfold parent?
    rw [h.account?_eq]
  have hlineage : chart'.lineage = chart.lineage := by
    funext steps
    induction steps with
    | zero => rfl
    | succ steps ih =>
        funext id
        rw [lineage, lineage, ih, hparent]
  unfold isCash isUnder
  rw [h.key?_eq, hlineage, h.accounts.length_eq]

theorem adjustmentSign_eq (h : chart.Rearranges chart') :
    chart'.adjustmentSign = chart.adjustmentSign := by
  unfold adjustmentSign
  rw [h.account?_eq]

theorem perm_cashFeeds (h : chart.Rearranges chart') : chart.cashFeeds.Perm chart'.cashFeeds := by
  unfold cashFeeds
  rw [h.isCash_eq]
  exact h.accounts.filter _

theorem perm_adjusters (h : chart.Rearranges chart') : chart.adjusters.Perm chart'.adjusters :=
  h.accounts.filterMap _

theorem perm_flowsInto (h : chart.Rearranges chart') (a : Account α) :
    (chart.flowsInto a).Perm (chart'.flowsInto a) := by
  have hadjusting : (chart.adjusting a).Perm (chart'.adjusting a) :=
    (h.perm_adjusters.filter _).map _
  unfold flowsInto
  change (List.foldl _ (chart.adjusting a) _).Perm (List.foldl _ (chart'.adjusting a) _)
  generalize (a.relation.map Relation.links).getD [] = links
  generalize chart.adjusting a = flows at hadjusting ⊢
  generalize chart'.adjusting a = flows' at hadjusting ⊢
  induction links generalizing flows flows' with
  | nil => exact hadjusting
  | cons link links ih =>
      rw [List.foldl_cons, List.foldl_cons]
      refine ih _ _ ?_
      rw [hadjusting.any_eq]
      split
      · exact hadjusting
      · exact hadjusting.append_right [link]

/-! ### Formulas -/

section Formulas

variable [Amount α]

open Formula

theorem reorders_rollForward (h : chart.Rearranges chart') (a : Account α) :
    Reorders (.ok (some (chart.rollForward a))) (.ok (some (chart'.rollForward a))) := by
  have hperm := h.perm_flowsInto a
  unfold rollForward
  rcases hflows : chart.flowsInto a with _ | ⟨t, flows⟩
  · rw [hflows] at hperm
    rw [hperm.nil_eq.symm]
    exact .same _
  · rw [hflows] at hperm
    rcases hflows' : chart'.flowsInto a with _ | ⟨t', flows'⟩
    · rw [hflows'] at hperm
      cases hperm.eq_nil
    · rw [hflows'] at hperm
      refine .sums ((hperm.map _).cons a.before) fun f hf => ?_
      rcases List.mem_cons.1 hf with rfl | hf
      · exact .ref a.id 1 .plus
      · obtain ⟨t, -, rfl⟩ := List.mem_map.1 hf
        exact .ref t.account 0 t.operation.sign

theorem reorders_cashChangeFormula (h : chart.Rearranges chart') :
    Reorders (.ok (some chart.cashChangeFormula)) (.ok (some chart'.cashChangeFormula)) := by
  unfold cashChangeFormula
  dsimp only
  rw [h.adjustmentSign_eq]
  refine .sums (((h.accounts.filter _).map _).append (h.perm_adjusters.filterMap _)
    |>.append (h.perm_cashFeeds.filterMap _)) fun f hf => ?_
  rcases List.mem_append.1 hf with hf | hf
  · rcases List.mem_append.1 hf with hf | hf
    · obtain ⟨b, -, rfl⟩ := List.mem_map.1 hf
      exact .ref b.id 0 .plus
    · obtain ⟨⟨b, adjustment⟩, -, heq⟩ := List.mem_filterMap.1 hf
      obtain ⟨sign, -, rfl⟩ := Option.map_eq_some_iff.1 heq
      exact .ref b.id 0 sign
  · obtain ⟨b, -, heq⟩ := List.mem_filterMap.1 hf
    obtain ⟨sign, -, rfl⟩ := Option.map_eq_some_iff.1 heq
    exact .change b.id sign

theorem reorders_totalFormula? (h : chart.Rearranges chart') (a : Account α) (total : Total) :
    Reorders (.ok (chart.totalFormula? a total)) (.ok (chart'.totalFormula? a total)) := by
  cases total with
  | ofTerms terms => exact .same _
  | ofChildren =>
      have hperm : (chart.children a.id).Perm (chart'.children a.id) := h.accounts.filter _
      simp only [totalFormula?]
      rcases hchildren : chart.children a.id with _ | ⟨b, children⟩
      · rw [hchildren] at hperm
        rw [hperm.nil_eq.symm]
        exact .same _
      · rw [hchildren] at hperm
        rcases hchildren' : chart'.children a.id with _ | ⟨b', children'⟩
        · rw [hchildren'] at hperm
          cases hperm.eq_nil
        · rw [hchildren'] at hperm
          refine .sums (hperm.map _) fun f hf => ?_
          obtain ⟨child, -, rfl⟩ := List.mem_map.1 hf
          exact .ref child.id 0 .plus

theorem reorders_ruleFormula (h : chart.Rearranges chart') (hasPrevious : Bool) (a : Account α) :
    Reorders (chart.ruleFormula hasPrevious a) (chart'.ruleFormula hasPrevious a) := by
  unfold ruleFormula
  rw [h.key?_eq]
  cases a.parameter.rule with
  | none =>
      dsimp only
      split
      · cases hasPrevious with
        | false => exact .same _
        | true => exact h.reorders_rollForward a
      · exact .same _
  | cashChange =>
      cases hasPrevious with
      | false => exact .same _
      | true => exact h.reorders_cashChangeFormula
  | growthRate | percentage | proportionate | calculation | reference | fixedValue | balanceChange
  | adjustment | cashEnding | cashBeginning => exact .same _

/-- In every period, an account has the same formula up to the order of a sum. -/
theorem reorders_formula? (h : chart.Rearranges chart') (timing : Timing) (a : Account α) :
    Reorders (chart.formula? timing a) (chart'.formula? timing a) := by
  unfold formula?
  cases a.total with
  | some total => exact h.reorders_totalFormula? a total
  | none =>
      dsimp only
      split
      · exact .same _
      · exact h.reorders_ruleFormula timing.hasPrevious a

/-! ### Links -/

theorem mem_steadyReads_iff (h : chart.Rearranges chart') {b : AccountId} :
    b ∈ chart'.steadyReads a ↔ b ∈ chart.steadyReads a := by
  rw [mem_steadyReads, mem_steadyReads, (h.reorders_formula? .steady a).mem_refs_iff]

theorem mem_prerequisites_iff (h : chart.Rearranges chart') {b : AccountId} :
    b ∈ chart'.prerequisites a ↔ b ∈ chart.prerequisites a := by
  have hchildren : (chart.children a.id).Perm (chart'.children a.id) := h.accounts.filter _
  unfold prerequisites
  simp only [List.mem_append, h.mem_steadyReads_iff]
  rcases a.total with _ | _ | terms
  · rfl
  · simp only [(hchildren.map Account.id).mem_iff]
  · rfl

theorem waits_eq (h : chart.Rearranges chart') :
    chart'.precedence.Waits = chart.precedence.Waits := by
  ext source target
  unfold Precedence.Waits
  simp only [mem_links_precedence, mem_nodes_precedence, h.mem_iff, h.mem_prerequisites_iff]

/-- There is an order of computation for both charts or for none. -/
theorem exists_order_iff (h : chart.Rearranges chart') :
    (∃ order, chart'.order = .ok order) ↔ ∃ order, chart.order = .ok order := by
  simp only [order_eq_ok]
  rw [Precedence.order_isOk_iff chart'.nodup_nodes_precedence,
    Precedence.order_isOk_iff chart.nodup_nodes_precedence]
  unfold Precedence.OnCycle
  rw [h.waits_eq]

end Formulas

/-! ### Review -/

theorem symm (h : chart.Rearranges chart') : chart'.Rearranges chart :=
  ⟨h.accounts.symm, (h.accounts.map _).nodup_iff.1 h.ids,
    (h.accounts.filterMap _).nodup_iff.1 h.keys⟩

theorem fits (h : chart.Rearranges chart') (hfits : chart.Fits a) : chart'.Fits a := by
  have hhas : chart'.Has = chart.Has := by
    ext id
    unfold Has
    simp only [h.mem_iff]
  have hparent : chart'.HasParent = chart.HasParent := by
    ext child parent
    unfold HasParent
    simp only [h.mem_iff]
  exact { hfits with
    parent := hhas ▸ hfits.parent
    acyclic := hparent ▸ hfits.acyclic
    references := hhas ▸ hfits.references
    terms := hhas ▸ hfits.terms
    cash := by simpa only [h.mem_iff] using hfits.cash
    adjustment := by simpa only [h.mem_iff] using hfits.adjustment
    links := hhas ▸ hfits.links }

theorem faults_eq_nil (h : chart.Rearranges chart') (hfaults : chart.faults = []) :
    chart'.faults = [] := by
  refine faults_eq_nil_iff.2 ⟨h.symm.ids, h.symm.keys, fun a ha => ?_⟩
  exact h.fits (fits_of_faults hfaults (h.mem_iff.1 ha))

end Rearranges

end Chart

end ProForma
