import ProForma.Proofs.Plan.Fixpoint

/-!
# What cells depend on

A cell is computed from cells of earlier periods and, in its own period, from cells of lower rank.
So let two plans say the same about certain cells, and let the formulas of these cells read only
cells of this kind. If two ledgers agree about such cells, they still do after both were filled in
and settled, each by its own plan, whatever the plans do with all the other cells. The induction is
on the position and then on the rank in the first plan; in the other plan the accounts may be
computed in another order.
-/

namespace ProForma.Plan

open Chart Formula Ledger

variable {α : Type} [Amount α] {plan plan' : Plan α} {ledger ledger' before before' : Ledger α}
  {filled filled' : Ledger α} {scope : AccountId → Nat → Prop} {id : AccountId} {n : Nat}
  {p : Period} {a : Account α} {x : α}

/-- What computing an account at a position can read: its own cell before, and what its formula
refers to. -/
inductive Reads (plan : Plan α) (a : Account α) (n : Nat) : AccountId → Nat → Prop where
  | previous {k : Nat} (hk : n = k + 1) : Reads plan a n a.id k
  | ref {timing : Timing} {f : Formula α} {r : AccountId × Nat} {k : Nat}
    (hf : plan.chart.formula? timing a = .ok (some f)) (hr : r ∈ f.refs) (hk : n = k + r.2) :
    Reads plan a n r.1 k

/-- The plans treat the accounts at the positions in the scope alike, and what computing them can
read is in the scope as well. -/
structure Alike (plan plan' : Plan α) (scope : AccountId → Nat → Prop) : Prop where
  settings : plan'.settings = plan.settings
  period {id : AccountId} {n : Nat} : scope id n → plan'.timeline[n]? = plan.timeline[n]?
  account {id : AccountId} {n : Nat} : scope id n →
    plan'.chart.account? id = plan.chart.account? id
  formula {a : Account α} {n : Nat} : scope a.id n → ∀ timing,
    plan'.chart.formula? timing a = plan.chart.formula? timing a
  reads {a : Account α} {n : Nat} {ref : AccountId} {k : Nat} : a ∈ plan.chart.accounts →
    scope a.id n → plan.Reads a n ref k → scope ref k

/-- The ledgers have the same cells for the accounts at the positions in the scope. -/
def AgreeOn (plan : Plan α) (scope : AccountId → Nat → Prop) (ledger ledger' : Ledger α) : Prop :=
  ∀ id n p, scope id n → plan.timeline[n]? = some p →
    ledger'.cell? ⟨id, p.id⟩ = ledger.cell? ⟨id, p.id⟩

omit [Amount α] in
theorem AgreeOn.mono {scope' : AccountId → Nat → Prop} (h : plan.AgreeOn scope ledger ledger')
    (hscope : ∀ id n, scope' id n → scope id n) : plan.AgreeOn scope' ledger ledger' :=
  fun id n p hid => h id n p (hscope id n hid)

/-! ### Induction on position and rank -/

/-- The cell comes before the other one: in an earlier period, or at lower rank in the same. -/
def Below (plan : Plan α) (id : AccountId) (n : Nat) (ref : AccountId) (k : Nat) : Prop :=
  k < n ∨ k = n ∧ rank plan.order ref < rank plan.order id

theorem below_of_reads (hplan : plan.Reviewed) (ha : a ∈ plan.chart.accounts) {ref : AccountId}
    {k : Nat} (h : plan.Reads a n ref k) : plan.Below a.id n ref k := by
  cases h with
  | previous hk => exact .inl (by omega)
  | @ref timing f r k hf hr hk =>
      by_cases hnow : r.2 = 0
      · have href : (r.1, 0) ∈ f.refs := hnow ▸ hr
        exact .inr ⟨by omega, rank_lt_of_mem_refs hplan.order (hplan.account a ha) hf href⟩
      · exact .inl (by omega)

omit [Amount α] in
/-- Ledgers agree if each cell is the same in both as soon as all before it are. -/
theorem agreeOn_of_below (h : ∀ id n p, scope id n → plan.timeline[n]? = some p →
      plan.AgreeOn (fun ref k => scope ref k ∧ plan.Below id n ref k) ledger ledger' →
      ledger'.cell? ⟨id, p.id⟩ = ledger.cell? ⟨id, p.id⟩) :
    plan.AgreeOn scope ledger ledger' := by
  have hcells : ∀ n depth id p, rank plan.order id < depth → scope id n →
      plan.timeline[n]? = some p → ledger'.cell? ⟨id, p.id⟩ = ledger.cell? ⟨id, p.id⟩ := by
    intro n
    induction n using Nat.strong_induction_on with
    | _ n ihn =>
        intro depth
        induction depth with
        | zero =>
            intro id p hdepth
            omega
        | succ depth ihdepth =>
            intro id p hdepth hid hp
            apply h id n p hid hp
            rintro ref k q ⟨href, hk | ⟨rfl, hrank⟩⟩ hq
            · exact ihn k hk _ ref q (Nat.lt_succ_self _) href hq
            · exact ihdepth ref q (by omega) href hq
  intro id n p hid hp
  exact hcells n _ id p (Nat.lt_succ_self _) hid hp

/-! ### Single cells -/

theorem Follows.unique {y : α} (hx : plan.Follows before filled n p a x)
    (hy : plan.Follows before filled n p a y) : x = y := by
  rcases follows_iff.1 hx with ⟨hnone, hx⟩ | ⟨f, hf, hvalue⟩
  · rcases follows_iff.1 hy with ⟨-, hy⟩ | ⟨g, hg, -⟩
    · exact hx.trans hy.symm
    · rw [hnone] at hg
      cases hg
  · rcases hvalue with hvalue | ⟨fault, hfault, -, hx⟩
    · exact (hy.eq_of_value hf hvalue).symm
    · rcases follows_iff.1 hy with ⟨hnone, -⟩ | ⟨g, hg, hvalue | ⟨-, -, -, hy⟩⟩
      · rw [hf] at hnone
        cases hnone
      · rw [hf] at hg
        cases hg
        rw [hfault] at hvalue
        cases hvalue
      · exact hx.trans hy.symm

theorem cell?_fillAfresh_of_account? (hplan : plan.Reviewed)
    (hfill : plan.fillAfresh before = .ok filled) (hid : plan.chart.account? id = none)
    (period : PeriodId) : filled.cell? ⟨id, period⟩ = before.cell? ⟨id, period⟩ := by
  by_contra hkey
  obtain ⟨⟨a, ha, rfl⟩, -⟩ := known_of_fillAfresh hplan hfill hkey
  rw [hplan.account a ha] at hid
  cases hid

theorem cell?_settle_of_account? (hplan : plan.Reviewed)
    (hsettle : (plan.settle before).result = .ok filled) (hid : plan.chart.account? id = none)
    (period : PeriodId) : filled.cell? ⟨id, period⟩ = before.cell? ⟨id, period⟩ := by
  by_contra hkey
  obtain ⟨⟨a, ha, rfl⟩, -⟩ := known_of_settle hplan hsettle hkey
  rw [hplan.account a ha] at hid
  cases hid

/-- Settling writes the lines, if there is a sweep at all, and no other cells. -/
theorem cell?_settle (hplan : plan.Reviewed) (hsettle : (plan.settle before).result = .ok filled)
    (hp : plan.timeline[n]? = some p) (ha : a ∈ plan.chart.accounts) :
    filled.cell? ⟨a.id, p.id⟩ =
      if plan.settings.passes ≠ 0 ∧ a.isDerived = true then
        settledCell (before.cell? ⟨a.id, p.id⟩) (plan.asked filled ⟨p, n, a⟩)
      else before.cell? ⟨a.id, p.id⟩ := by
  have hplaces := plan.places_zipIdx
  have hstands : ∀ line ∈ plan.lines plan.timeline.zipIdx, plan.Stands line := fun line hline =>
    stands_of_mem_lines hplaces hline
  by_cases hpasses : plan.settings.passes = 0
  · rw [if_neg fun h => h.1 hpasses]
    obtain rfl : before = filled :=
      Except.ok.inj ((run_settle_of_zero hpasses before []).symm.trans hsettle)
    rfl
  · rw [result_settle hplan (Nat.one_le_iff_ne_zero.2 hpasses)] at hsettle
    by_cases hderived : a.isDerived = true
    · have hline : (⟨p, n, a⟩ : Line α) ∈ plan.lines plan.timeline.zipIdx :=
        (mem_lines_zipIdx hplan).2 ⟨hp, ha, hderived⟩
      rw [if_pos ⟨hpasses, hderived⟩]
      exact cell?_of_settleLines hplan hstands (pairwise_lines hplan hplaces) hsettle hline
    · rw [if_neg fun h => hderived h.2]
      by_contra hkey
      obtain ⟨line, hline, hsame⟩ := exists_line_of_changed hsettle hkey
      obtain ⟨-, haccount, hlineDerived⟩ := (mem_lines_zipIdx hplan).1 hline
      have hid : line.account.id = a.id := congrArg CellKey.account hsame
      have hfound := hplan.account line.account haccount
      rw [hid, hplan.account a ha, Option.some.injEq] at hfound
      exact hderived (hfound ▸ hlineDerived)

namespace Alike

/-! ### What the plans ask for -/

theorem stored_eq (h : Alike plan plan' scope) {account : AccountId} {t : Int}
    (ht : ∀ k : Nat, t = k → scope account k)
    (hagree : ∀ (k : Nat) q, t = k → plan.timeline[k]? = some q →
      ledger'.cell? ⟨account, q.id⟩ = ledger.cell? ⟨account, q.id⟩) :
    plan'.stored ledger' account t = plan.stored ledger account t := by
  unfold stored periodAt?
  by_cases hpast : 0 ≤ t
  · obtain ⟨k, rfl⟩ := Int.eq_ofNat_of_zero_le hpast
    rw [if_pos hpast, if_pos hpast, Int.toNat_natCast, h.period (ht k rfl)]
    rcases hq : plan.timeline[k]? with _ | q
    · rfl
    · exact value_congr (hagree k q rfl hq)
  · rw [if_neg hpast, if_neg hpast]

variable (h : Alike plan plan' scope) (ha : a ∈ plan.chart.accounts) (hid : scope a.id n)
include h ha hid

theorem carried_eq (hagree : plan.AgreeOn (plan.Reads a n) ledger ledger') :
    plan'.carried ledger' a.id n = plan.carried ledger a.id n := by
  have hreads : ∀ k : Nat, (n : Int) - 1 = k → plan.Reads a n a.id k := fun k hk =>
    .previous (by omega)
  exact h.stored_eq (fun k hk => h.reads ha hid (hreads k hk))
    fun k q hk hq => hagree a.id k q (hreads k hk) hq

theorem value_eq (hagree : plan.AgreeOn (plan.Reads a n) ledger ledger') {timing : Timing}
    {f : Formula α} (hf : plan.chart.formula? timing a = .ok (some f)) :
    f.value (plan'.stored ledger') n = f.value (plan.stored ledger) n := by
  refine eval_congr fun r hr => congrArg pure ?_
  have hreads : ∀ k : Nat, (n : Int) - r.2 = k → plan.Reads a n r.1 k := fun k hk =>
    .ref hf hr (by omega)
  exact h.stored_eq (fun k hk => h.reads ha hid (hreads k hk))
    fun k q hk hq => hagree r.1 k q (hreads k hk) hq

omit ha hid in
theorem isolates_eq (fault : Fault α) : plan'.isolates fault = plan.isolates fault := by
  rw [isolates, isolates, h.settings]

theorem asked_eq (hagree : plan.AgreeOn (plan.Reads a n) ledger ledger') :
    plan'.asked ledger' ⟨p, n, a⟩ = plan.asked ledger ⟨p, n, a⟩ := by
  unfold asked target
  dsimp only
  rw [h.formula hid]
  rcases hf : plan.chart.formula? (timing p n) a with fault | _ | f
  · rfl
  · rfl
  · simp only [bind, Except.bind, h.value_eq ha hid hagree hf]

theorem settled (hagree : plan.AgreeOn (plan.Reads a n) ledger ledger')
    (hcell : ledger'.cell? ⟨a.id, p.id⟩ = ledger.cell? ⟨a.id, p.id⟩)
    (hline : plan.Settled ledger ⟨p, n, a⟩) : plan'.Settled ledger' ⟨p, n, a⟩ := by
  unfold Settled at hline ⊢
  rw [h.asked_eq ha hid hagree]
  rcases hasked : plan.asked ledger ⟨p, n, a⟩ with fault | _ | x <;> rw [hasked] at hline
  · exact (h.isolates_eq fault).trans hline
  · trivial
  · exact Holds.congr hline hcell

theorem follows (hagree : plan.AgreeOn (plan.Reads a n) filled filled')
    (hbefore : before'.cell? ⟨a.id, p.id⟩ = before.cell? ⟨a.id, p.id⟩)
    (hx : plan.Follows before filled n p a x) : plan'.Follows before' filled' n p a x := by
  rw [follows_iff] at hx ⊢
  rw [h.formula hid, h.carried_eq ha hid hagree, value?_congr hbefore]
  rcases hx with hnone | ⟨f, hf, hvalue⟩
  · exact .inl hnone
  · refine .inr ⟨f, hf, ?_⟩
    rw [h.value_eq ha hid hagree hf]
    simpa only [h.isolates_eq] using hvalue

/-- The cells that computing an account reads are before it and in the scope. -/
theorem agreeOn_reads (hplan : plan.Reviewed)
    (hagree : plan.AgreeOn (fun ref k => scope ref k ∧ plan.Below a.id n ref k) ledger ledger') :
    plan.AgreeOn (plan.Reads a n) ledger ledger' :=
  hagree.mono fun _ _ hread => ⟨h.reads ha hid hread, below_of_reads hplan ha hread⟩

/-! ### What the passes write -/

omit ha hid

theorem fillAfresh (hplan : plan.Reviewed) (hplan' : plan'.Reviewed)
    (hagree : plan.AgreeOn scope before before') (hfill : plan.fillAfresh before = .ok filled)
    (hfill' : plan'.fillAfresh before' = .ok filled') : plan.AgreeOn scope filled filled' := by
  apply agreeOn_of_below
  intro id n p hid hp hbelow
  have hp' : plan'.timeline[n]? = some p := (h.period hid).trans hp
  have hbefore := hagree id n p hid hp
  -- What filling in leaves in one run it leaves in the other.
  have hkept (hleft : filled.cell? ⟨id, p.id⟩ = before.cell? ⟨id, p.id⟩)
      (hleft' : filled'.cell? ⟨id, p.id⟩ = before'.cell? ⟨id, p.id⟩) :
      filled'.cell? ⟨id, p.id⟩ = filled.cell? ⟨id, p.id⟩ := by
    rw [hleft, hleft', hbefore]
  cases himported : p.isImported with
  | true =>
      exact hkept (cell?_fillAfresh_of_isImported hplan hfill hp himported id)
        (cell?_fillAfresh_of_isImported hplan' hfill' hp' himported id)
  | false =>
      have hsame := isEntered_congr hbefore
      cases hentered : before.isEntered ⟨id, p.id⟩ with
      | true =>
          exact hkept (cell?_fillAfresh_of_isEntered hplan hfill hp himported hentered)
            (cell?_fillAfresh_of_isEntered hplan' hfill' hp' himported (hsame.trans hentered))
      | false =>
          have haccount := h.account hid
          rcases ha : plan.chart.account? id with _ | a <;> rw [ha] at haccount
          · exact hkept (cell?_fillAfresh_of_account? hplan hfill ha p.id)
              (cell?_fillAfresh_of_account? hplan' hfill' haccount p.id)
          · obtain ⟨hmem, rfl⟩ := mem_of_account? ha
            obtain ⟨hmem', -⟩ := mem_of_account? haccount
            obtain ⟨x, hx, hfollows⟩ :=
              exists_follows_of_fillAfresh hplan hfill hp himported hmem hentered
            obtain ⟨y, hy, hfollows'⟩ := exists_follows_of_fillAfresh hplan' hfill' hp' himported
              hmem' (hsame.trans hentered)
            have hreads := h.agreeOn_reads hmem hid hplan hbelow
            rw [hx, hy, hfollows'.unique (h.follows hmem hid hreads hbefore hfollows)]

theorem settle (hplan : plan.Reviewed) (hplan' : plan'.Reviewed)
    (hagree : plan.AgreeOn scope before before')
    (hsettle : (plan.settle before).result = .ok filled)
    (hsettle' : (plan'.settle before').result = .ok filled') :
    plan.AgreeOn scope filled filled' := by
  apply agreeOn_of_below
  intro id n p hid hp hbelow
  have hp' : plan'.timeline[n]? = some p := (h.period hid).trans hp
  have hbefore := hagree id n p hid hp
  have haccount := h.account hid
  rcases ha : plan.chart.account? id with _ | a <;> rw [ha] at haccount
  · rw [cell?_settle_of_account? hplan hsettle ha p.id,
      cell?_settle_of_account? hplan' hsettle' haccount p.id, hbefore]
  · obtain ⟨hmem, rfl⟩ := mem_of_account? ha
    obtain ⟨hmem', -⟩ := mem_of_account? haccount
    have hreads := h.agreeOn_reads hmem hid hplan hbelow
    rw [cell?_settle hplan hsettle hp hmem, cell?_settle hplan' hsettle' hp' hmem', hbefore,
      h.asked_eq hmem hid hreads, h.settings]

end Alike

end ProForma.Plan
