import Mathlib.Data.Finset.Card
import Mathlib.Logic.Function.Iterate
import Mathlib.Logic.Relation
import ProForma.Proofs.Chart.Precedence

/-!
# Parents and ancestors

Following parents from an account is the iteration of a partial function. A way up with more steps
than there are accounts comes to some account twice, and what lies in between can be left out. So
whatever can be reached can be reached in that many steps, and searches that are cut off there find
every ancestor and every loop. Where there are no loops, all ways end.
-/

namespace ProForma.Chart

open Function

variable {α : Type} {chart : Chart α} {id ancestor child parent : AccountId} {a : Account α}

/-- The second account is the parent of the first. -/
def HasParent (chart : Chart α) (child parent : AccountId) : Prop :=
  ∃ a ∈ chart.accounts, a.id = child ∧ a.parent = some parent

/-- The second account is the parent of the first one that has the first identifier. -/
def FirstHasParent (chart : Chart α) (child parent : AccountId) : Prop :=
  ∃ before a after, chart.accounts = before ++ a :: after ∧ (∀ b ∈ before, b.id ≠ child) ∧
    a.id = child ∧ a.parent = some parent

theorem parent?_eq_some_iff_first :
    chart.parent? child = some parent ↔ chart.FirstHasParent child parent := by
  unfold parent? account? FirstHasParent
  simp only [Option.bind_eq_some_iff, List.find?_eq_some_iff_append, Bool.not_eq_true',
    decide_eq_true_eq, decide_eq_false_iff_not]
  constructor
  · rintro ⟨a, ⟨hid, before, after, hsplit, hbefore⟩, hparent⟩
    exact ⟨before, a, after, hsplit, hbefore, hid, hparent⟩
  · rintro ⟨before, a, after, hsplit, hbefore, hid, hparent⟩
    exact ⟨a, ⟨hid, before, after, hsplit, hbefore⟩, hparent⟩

theorem parent?_eq_some_iff (hnodup : (chart.accounts.map Account.id).Nodup) :
    chart.parent? child = some parent ↔ chart.HasParent child parent := by
  unfold parent?
  rw [Option.bind_eq_some_iff]
  constructor
  · rintro ⟨a, ha, hparent⟩
    obtain ⟨hmem, hid⟩ := mem_of_account? ha
    exact ⟨a, hmem, hid, hparent⟩
  · rintro ⟨a, ha, rfl, hparent⟩
    exact ⟨a, account?_eq_of_mem hnodup ha, hparent⟩

/-! ### One step up -/

/-- The parent of an account, if there is an account and it has one. -/
def up (chart : Chart α) (id? : Option AccountId) : Option AccountId :=
  id?.bind chart.parent?

theorem iterate_up_none (chart : Chart α) (n : Nat) : chart.up^[n] none = none :=
  iterate_fixed rfl n

theorem mem_lineage_iff {steps : Nat} : ancestor ∈ chart.lineage steps id ↔
    ∃ n < steps, chart.up^[n] (some id) = some ancestor := by
  induction steps generalizing id with
  | zero =>
      constructor
      · exact nofun
      · rintro ⟨n, hn, -⟩
        omega
  | succ steps ih =>
      have habove : ancestor ∈ (chart.parent? id).elim [] (chart.lineage steps) ↔
          ∃ n < steps, chart.up^[n] (chart.parent? id) = some ancestor := by
        rcases chart.parent? id with _ | parent
        · simp [iterate_up_none]
        · exact ih
      rw [lineage, List.mem_cons, habove]
      constructor
      · rintro (rfl | ⟨n, hn, hup⟩)
        · exact ⟨0, Nat.succ_pos steps, rfl⟩
        · exact ⟨n + 1, Nat.succ_lt_succ hn, hup⟩
      · rintro ⟨n, hn, hup⟩
        cases n with
        | zero => exact .inl (Option.some.inj hup).symm
        | succ n => exact .inr ⟨n, Nat.lt_of_succ_lt_succ hn, hup⟩

theorem transGen_firstHasParent_iff :
    Relation.TransGen chart.FirstHasParent id ancestor ↔
      ∃ n, chart.up^[n + 1] (some id) = some ancestor := by
  constructor
  · intro h
    induction h with
    | single hparent => exact ⟨0, parent?_eq_some_iff_first.2 hparent⟩
    | tail _ hparent ih =>
        obtain ⟨n, hn⟩ := ih
        refine ⟨n + 1, ?_⟩
        rw [iterate_succ_apply', hn]
        exact parent?_eq_some_iff_first.2 hparent
  · rintro ⟨n, hn⟩
    induction n generalizing ancestor with
    | zero => exact .single (parent?_eq_some_iff_first.1 hn)
    | succ n ih =>
        rw [iterate_succ_apply'] at hn
        obtain ⟨below, hbelow, hparent⟩ := Option.bind_eq_some_iff.1 hn
        exact (ih hbelow).tail (parent?_eq_some_iff_first.1 hparent)

theorem reflTransGen_firstHasParent_iff :
    Relation.ReflTransGen chart.FirstHasParent id ancestor ↔
      ∃ n, chart.up^[n] (some id) = some ancestor := by
  rw [Relation.reflTransGen_iff_eq_or_transGen, transGen_firstHasParent_iff]
  constructor
  · rintro (rfl | ⟨n, hn⟩)
    · exact ⟨0, rfl⟩
    · exact ⟨n + 1, hn⟩
  · rintro ⟨n, hn⟩
    cases n with
    | zero => exact .inl (Option.some.inj hn).symm
    | succ n => exact .inr ⟨n, hn⟩

theorem transGen_hasParent_iff (hnodup : (chart.accounts.map Account.id).Nodup) :
    Relation.TransGen chart.HasParent id ancestor ↔
      ∃ n, chart.up^[n + 1] (some id) = some ancestor := by
  have hfirst : chart.HasParent = chart.FirstHasParent := by
    ext child parent
    rw [← parent?_eq_some_iff hnodup, parent?_eq_some_iff_first]
  rw [hfirst, transGen_firstHasParent_iff]

/-! ### Ways without repetition -/

/-- Whatever has something above it is an account. -/
theorem exists_account_of_up {x : Option AccountId} (h : chart.up x ≠ none) :
    ∃ a ∈ chart.accounts, x = some a.id := by
  rcases x with _ | id
  · exact absurd rfl h
  · rcases ha : chart.account? id with _ | a
    · refine absurd ?_ h
      change (chart.account? id).bind Account.parent = none
      rw [ha, Option.bind_none]
    · obtain ⟨hmem, rfl⟩ := mem_of_account? ha
      exact ⟨a, hmem, rfl⟩

/-- A way up passes through accounts only, whatever it ends at. -/
theorem exists_account_of_lt {i n : Nat} {x : Option AccountId} (hway : chart.up^[n] x ≠ none)
    (hi : i < n) : ∃ a ∈ chart.accounts, chart.up^[i] x = some a.id := by
  refine exists_account_of_up fun hend => hway ?_
  have hsplit : n - (i + 1) + (i + 1) = n := by omega
  rw [← hsplit, iterate_add_apply, iterate_succ_apply', hend, iterate_up_none]

/-- A way up with more steps than there are accounts comes to some account twice. -/
theorem exists_repetition {n : Nat} {x : Option AccountId} (hway : chart.up^[n] x ≠ none)
    (hlong : chart.accounts.length < n) :
    ∃ i j, i < j ∧ j < n ∧ chart.up^[i] x = chart.up^[j] x := by
  have hpassed : ∀ i ∈ Finset.range n,
      chart.up^[i] x ∈ (chart.accounts.map fun a => some a.id).toFinset := by
    intro i hi
    obtain ⟨a, ha, hid⟩ := exists_account_of_lt hway (Finset.mem_range.1 hi)
    rw [hid, List.mem_toFinset]
    exact List.mem_map_of_mem (f := fun a => some a.id) ha
  have hfew : (chart.accounts.map fun a => some a.id).toFinset.card < (Finset.range n).card :=
    calc (chart.accounts.map fun a => some a.id).toFinset.card
      _ ≤ (chart.accounts.map fun a => some a.id).length := List.toFinset_card_le _
      _ = chart.accounts.length := List.length_map _
      _ < n := hlong
      _ = (Finset.range n).card := (Finset.card_range n).symm
  obtain ⟨i, hi, j, hj, hne, hsame⟩ :=
    Finset.exists_ne_map_eq_of_card_lt_of_maps_to hfew hpassed
  rcases Nat.lt_or_gt_of_ne hne with hij | hij
  · exact ⟨i, j, hij, Finset.mem_range.1 hj, hsame⟩
  · exact ⟨j, i, hij, Finset.mem_range.1 hi, hsame.symm⟩

/-- What can be reached can be reached in no more steps than there are accounts. -/
theorem exists_short_way {n : Nat} (h : chart.up^[n + 1] (some id) = some ancestor) :
    ∃ k < chart.accounts.length, chart.up^[k + 1] (some id) = some ancestor := by
  induction n using Nat.strong_induction_on with
  | _ n ih =>
      by_cases hn : n < chart.accounts.length
      · exact ⟨n, hn, h⟩
      · have hway : chart.up^[n + 1] (some id) ≠ none := by
          rw [h]
          exact Option.some_ne_none ancestor
        obtain ⟨i, j, hij, hj, hsame⟩ := exists_repetition hway (by omega)
        -- The part from the first time to the second is left out.
        have hcut : chart.up^[(n - j + i) + 1] (some id) = some ancestor := by
          have hsteps : n - j + i + 1 = n + 1 - j + i := by omega
          rw [hsteps, iterate_add_apply, hsame, ← iterate_add_apply, Nat.sub_add_cancel hj.le, h]
        exact ih (n - j + i) (by omega) hcut

/-! ### Ancestors -/

/-- **Ancestors.** In any chart, an account is under another exactly if following parents leads from
the one to the other in some number of steps. Looking further up than the search does would not find
any more. -/
theorem isUnder_iff_reachable (chart : Chart α) (id ancestor : AccountId) :
    (chart.isUnder id ancestor = true ↔ Relation.ReflTransGen chart.FirstHasParent id ancestor) ∧
      ∀ steps, ancestor ∈ chart.lineage steps id → chart.isUnder id ancestor = true := by
  have hunder : chart.isUnder id ancestor = true ↔
      ∃ n, chart.up^[n] (some id) = some ancestor := by
    unfold isUnder
    rw [decide_eq_true_iff, mem_lineage_iff]
    constructor
    · rintro ⟨n, -, hn⟩
      exact ⟨n, hn⟩
    · rintro ⟨n, hn⟩
      cases n with
      | zero => exact ⟨0, Nat.succ_pos _, hn⟩
      | succ n =>
          obtain ⟨k, hk, hway⟩ := exists_short_way hn
          exact ⟨k + 1, Nat.succ_lt_succ hk, hway⟩
  refine ⟨hunder.trans reflTransGen_firstHasParent_iff.symm, fun steps hmem => ?_⟩
  obtain ⟨n, -, hn⟩ := mem_lineage_iff.1 hmem
  exact hunder.2 ⟨n, hn⟩

/-- The longest way there can be: through all accounts, and on to what is none. -/
example : (⟨[{ Account.flow ⟨"desk"⟩ "Desk" with parent := some ⟨"till"⟩ },
    { Account.flow ⟨"till"⟩ "Till" with parent := some ⟨"vault"⟩ }]⟩ : Chart Float).isUnder
      ⟨"desk"⟩ ⟨"vault"⟩ = true := by
  decide

/-! ### Loops -/

/-- The search for loops finds them all. -/
theorem loops_iff (hnodup : (chart.accounts.map Account.id).Nodup) (ha : a ∈ chart.accounts) :
    chart.loops a = true ↔ Relation.TransGen chart.HasParent a.id a.id := by
  have hup : chart.up (some a.id) = a.parent := by
    change (chart.account? a.id).bind Account.parent = a.parent
    rw [account?_eq_of_mem hnodup ha, Option.bind_some]
  have hloops : chart.loops a = true ↔
      ∃ n < chart.accounts.length, chart.up^[n + 1] (some a.id) = some a.id := by
    unfold loops
    simp only [iterate_succ_apply, hup]
    rcases a.parent with _ | parent
    · simp [iterate_up_none]
    · rw [Option.any_some, decide_eq_true_iff, mem_lineage_iff]
  rw [hloops, transGen_hasParent_iff hnodup]
  constructor
  · rintro ⟨n, -, hn⟩
    exact ⟨n, hn⟩
  · rintro ⟨n, hn⟩
    exact exists_short_way hn

/-- Without loops, every way up ends. -/
theorem iterate_up_eq_none (hnodup : (chart.accounts.map Account.id).Nodup)
    (hacyclic : ∀ a ∈ chart.accounts, ¬ Relation.TransGen chart.HasParent a.id a.id)
    (x : Option AccountId) : chart.up^[chart.accounts.length + 1] x = none := by
  by_contra hway
  obtain ⟨i, j, hij, hj, hsame⟩ := exists_repetition hway (Nat.lt_succ_self _)
  obtain ⟨a, ha, hid⟩ := exists_account_of_lt hway (hij.trans hj)
  have hreturn : chart.up^[(j - i - 1) + 1] (some a.id) = some a.id := by
    have hsplit : j - i - 1 + 1 + i = j := by omega
    rw [← hid, ← iterate_add_apply, hsplit, hsame]
  exact hacyclic a ha ((transGen_hasParent_iff hnodup).2 ⟨_, hreturn⟩)

end ProForma.Chart
