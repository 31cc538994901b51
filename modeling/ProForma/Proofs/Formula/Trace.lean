import ProForma.Proofs.Formula.Evaluation
import ProForma.Proofs.Outcome

/-!
# What evaluation reads

Evaluation comes to the references of a formula one after another, from left to right and as often
as they occur. It reads no other cells, and it reads all of these unless it fails on the way. So two
ways of reading that agree on the references of a formula give it the same value, or the same fault.
-/

namespace ProForma.Formula

variable {α σ : Type}

/-- By the log that is part of its state, the computation reads these cells in this order, unless it
fails on the way. -/
def Reads {β : Type} (log : σ → List (AccountId × Int)) (c : ExceptT (Fault α) (StateM σ) β)
    (cells : List (AccountId × Int)) : Prop :=
  ∀ state, ∃ more, log (c.run state).2 = log state ++ more ∧ more <+: cells ∧
    ∀ x, (c.run state).1 = .ok x → more = cells

section Reads

variable {β γ : Type} {log : σ → List (AccountId × Int)}

theorem reads_pure (x : β) : Reads log (pure x : ExceptT (Fault α) (StateM σ) β) [] :=
  fun state => ⟨[], (List.append_nil (log state)).symm, List.prefix_refl _, fun _ _ => rfl⟩

theorem reads_throw (fault : Fault α) (cells : List (AccountId × Int)) :
    Reads log (throw fault : ExceptT (Fault α) (StateM σ) β) cells := by
  intro state
  refine ⟨[], (List.append_nil (log state)).symm, List.nil_prefix, fun x hx => ?_⟩
  cases hx

theorem Reads.bind {c : ExceptT (Fault α) (StateM σ) β}
    {next : β → ExceptT (Fault α) (StateM σ) γ} {cells later : List (AccountId × Int)}
    (hc : Reads log c cells) (hnext : ∀ x, Reads log (next x) later) :
    Reads log (c >>= next) (cells ++ later) := by
  intro state
  obtain ⟨more, hlog, hprefix, hall⟩ := hc state
  rw [run_bind]
  rcases hrun : c.run state with ⟨fault | x, state'⟩ <;> rw [hrun] at hlog hall
  · refine ⟨more, hlog, hprefix.trans (List.prefix_append cells later), fun x hx => ?_⟩
    cases hx
  · obtain rfl : more = cells := hall x rfl
    obtain ⟨rest, hrest, hprefix', hall'⟩ := hnext x state'
    refine ⟨more ++ rest, ?_, (List.prefix_append_right_inj more).2 hprefix', fun y hy => ?_⟩
    · rw [← List.append_assoc, ← hlog]
      exact hrest
    · rw [hall' y hy]

end Reads

/-! ### Formulas -/

/-- Where references lead from a position. -/
def cellsAt (position : Int) (refs : List (AccountId × Nat)) : List (AccountId × Int) :=
  refs.map fun r => (r.1, position - r.2)

theorem cellsAt_append (position : Int) (refs more : List (AccountId × Nat)) :
    cellsAt position (refs ++ more) = cellsAt position refs ++ cellsAt position more :=
  List.map_append

section Eval

variable [Amount α] {log : σ → List (AccountId × Int)}

theorem reads_step (whole : Formula α) (operation : Operation) (acc x : α) :
    Reads log (operation.step whole acc x : ExceptT (Fault α) (StateM σ) α) [] := by
  cases operation with
  | add => exact reads_pure _
  | sub => exact reads_pure _
  | mul => exact reads_pure _
  | div =>
      simp only [Operation.step]
      split
      · exact reads_throw _ _
      · exact reads_pure _

variable {read : AccountId → Int → ExceptT (Fault α) (StateM σ) α} {position : Int}

mutual

theorem reads_eval (hread : ∀ account t, Reads log (read account t) [(account, t)]) :
    (f : Formula α) → Reads log (f.eval read position) (cellsAt position f.refs)
  | .const value => by
      simp only [eval, refs]
      exact reads_pure value
  | .ref account lag => by
      simp only [eval, refs]
      exact hread account (position - lag)
  | .apply .add args => by
      simp only [eval, refs]
      exact reads_accumulate hread (reads_step _ .add) args 0
  | .apply .mul args => by
      simp only [eval, refs]
      exact reads_accumulate hread (reads_step _ .mul) args 1
  | .apply .sub [] => by
      simp only [eval]
      exact reads_pure 0
  | .apply .div [] => by
      simp only [eval]
      exact reads_throw _ _
  | .apply .sub (first :: rest) => by
      simp only [eval, refs, refsOfAll, cellsAt_append]
      refine (reads_eval hread first).bind fun start => ?_
      exact reads_accumulate hread (reads_step _ .sub) rest start
  | .apply .div (first :: rest) => by
      simp only [eval, refs, refsOfAll, cellsAt_append]
      refine (reads_eval hread first).bind fun start => ?_
      exact reads_accumulate hread (reads_step _ .div) rest start

theorem reads_accumulate (hread : ∀ account t, Reads log (read account t) [(account, t)])
    {step : α → α → ExceptT (Fault α) (StateM σ) α} (hstep : ∀ acc x, Reads log (step acc x) []) :
    (fs : List (Formula α)) → (acc : α) →
    Reads log (accumulate read position step acc fs) (cellsAt position (refsOfAll fs))
  | [], acc => by
      simp only [accumulate, refsOfAll]
      exact reads_pure acc
  | f :: fs, acc => by
      simp only [accumulate, refsOfAll, cellsAt_append]
      -- The step itself reads nothing, so the cells of the formula are followed by the others.
      refine (reads_eval hread f).bind fun x => ?_
      exact (hstep acc x).bind fun next => reads_accumulate hread hstep fs next

end

end Eval

/-! ### Reading from a table that may fail -/

section Table

variable {read : AccountId → Int → Except (Fault α) α} {position : Int} {f : Formula α}

/-- Reading a cell and taking it down. -/
def traced (read : AccountId → Int → Except (Fault α) α) (account : AccountId) (t : Int) :
    ExceptT (Fault α) (StateM (List (AccountId × Int))) α := do
  modify (· ++ [(account, t)])
  liftExcept (read account t)

theorem reads_traced (read : AccountId → Int → Except (Fault α) α) (account : AccountId)
    (t : Int) : Reads id (traced read account t) [(account, t)] := by
  intro seen
  refine ⟨[(account, t)], ?_, List.prefix_refl _, fun _ _ => rfl⟩
  unfold traced
  rw [run_bind]
  cases read account t with
  | ok x => rfl
  | error fault => rfl

variable [Amount α]

/-- Evaluation reads the references of a formula in their order, up to where it fails. -/
theorem trace_isPrefix : (f.trace read position).2 <+: cellsAt position f.refs := by
  have hreads : Reads id (f.eval (traced read) position) (cellsAt position f.refs) :=
    reads_eval (reads_traced read) f
  obtain ⟨more, hseen, hprefix, -⟩ := hreads []
  change (f.trace read position).2 = [] ++ more at hseen
  rw [hseen]
  exact hprefix

theorem mem_refs_of_mem_trace {account : AccountId} {t : Int}
    (h : (account, t) ∈ (f.trace read position).2) :
    ∃ lag : Nat, (account, lag) ∈ f.refs ∧ t = position - lag := by
  obtain ⟨r, hr, hcell⟩ := List.mem_map.1 (trace_isPrefix.subset h)
  cases hcell
  exact ⟨r.2, hr, rfl⟩

end Table

/-! ### Reading in any way -/

section Logged

variable {read : AccountId → Int → ExceptT (Fault α) (StateM σ) α}

/-- Reading a cell, by a computation with a state of its own, and taking the cell down. -/
def logged (read : AccountId → Int → ExceptT (Fault α) (StateM σ) α) (account : AccountId)
    (t : Int) : ExceptT (Fault α) (StateM (List (AccountId × Int) × σ)) α :=
  ExceptT.mk fun (seen, state) =>
    let (outcome, state) := (read account t).run state
    (outcome, seen ++ [(account, t)], state)

theorem reads_logged (account : AccountId) (t : Int) :
    Reads Prod.fst (logged read account t) [(account, t)] :=
  fun _ => ⟨[(account, t)], rfl, List.prefix_refl _, fun _ _ => rfl⟩

/-- But for its log, a computation does what another one does. -/
def Shadows {β : Type} (c : ExceptT (Fault α) (StateM (List (AccountId × Int) × σ)) β)
    (c' : ExceptT (Fault α) (StateM σ) β) : Prop :=
  ∀ seen state, ∃ seen', c.run (seen, state) = ((c'.run state).1, seen', (c'.run state).2)

theorem shadows_logged (account : AccountId) (t : Int) :
    Shadows (logged read account t) (read account t) :=
  fun seen _ => ⟨seen ++ [(account, t)], rfl⟩

theorem shadows_throw {β : Type} (fault : Fault α) :
    Shadows (σ := σ) (β := β) (throw fault) (throw fault) :=
  fun seen _ => ⟨seen, rfl⟩

theorem parallel_shadows : Parallel (Shadows (α := α) (σ := σ) (β := α)) where
  pure _ seen _ := ⟨seen, rfl⟩
  bind {c c' next next'} hc hnext := by
    intro seen state
    obtain ⟨seen', hrun⟩ := hc seen state
    rw [run_bind, run_bind, hrun]
    rcases c'.run state with ⟨fault | x, state'⟩
    · exact ⟨seen', rfl⟩
    · exact hnext x seen' state'
  divide whole := shadows_throw _

variable [Amount α]

/-- **What evaluation reads.** Taking down the cells that it reads makes no difference to
evaluation, however cells are read. They are the references of the formula, in order and as often as
they occur, up to where evaluation fails. And a formula comes to the same over any two ways of
reading that agree on its references. -/
theorem eval_reads_refs (read : AccountId → Int → ExceptT (Fault α) (StateM σ) α) (position : Int)
    (f : Formula α) :
    (∀ state, ∃ cells,
      (f.eval (logged read) position).run ([], state) =
        (((f.eval read position).run state).1, cells, ((f.eval read position).run state).2) ∧
      cells <+: cellsAt position f.refs ∧
      ∀ x, ((f.eval read position).run state).1 = .ok x → cells = cellsAt position f.refs) ∧
    ∀ read' : AccountId → Int → ExceptT (Fault α) (StateM σ) α,
      (∀ r ∈ f.refs, read r.1 (position - r.2) = read' r.1 (position - r.2)) →
        f.eval read position = f.eval read' position := by
  refine ⟨fun state => ?_, fun read' hagree => eval_congr hagree⟩
  obtain ⟨cells, hrun⟩ := eval_parallel parallel_shadows (logged read) read position f
    (.inl (shadows_throw _)) (fun r _ => shadows_logged r.1 (position - r.2)) [] state
  have hreads : Reads Prod.fst (f.eval (logged read) position) (cellsAt position f.refs) :=
    reads_eval reads_logged f
  obtain ⟨more, hlog, hprefix, hall⟩ := hreads ([], state)
  rw [hrun] at hlog hall
  obtain rfl : cells = more := hlog
  exact ⟨cells, hrun, hprefix, hall⟩

end Logged

def sales : AccountId := ⟨"sales"⟩

def cost : AccountId := ⟨"cost"⟩

/-- The margin of the sales over the cost of the period before. -/
def marginFormula : Formula Float :=
  .combine .div (.combine .sub (.ref sales 0) (.ref cost 1)) (.ref sales 0)

/-- Reads a 3 as often as the limit says, and fails from then on. -/
def upTo (limit : Nat) (account : AccountId) (_ : Int) :
    ExceptT (Fault Float) (StateM Nat) Float := do
  let count ← get
  set (count + 1)
  if count < limit then pure 3 else throw (.circular account)

/-- At the second cell evaluation fails, and of accounts without a reference it knows nothing. -/
theorem eval_reads_margin :
    ∃ cells, (marginFormula.eval (logged (upTo 1)) 4).run ([], 0) =
        (.error (.circular cost), cells, 2) ∧
      cells <+: [(sales, 4), (cost, 3), (sales, 4)] ∧ cells = [(sales, 4), (cost, 3)] ∧
      marginFormula.eval (upTo 3) 4 =
        marginFormula.eval (fun account t => if account = ⟨"rent"⟩ then upTo 0 account t else
          upTo 3 account t) 4 := by
  obtain ⟨cells, hrun, hprefix, -⟩ := (eval_reads_refs (upTo 1) 4 marginFormula).1 0
  refine ⟨cells, hrun, hprefix, ?_, (eval_reads_refs (upTo 3) 4 marginFormula).2 _ ?_⟩
  · exact (congrArg (fun outcome => outcome.2.1) hrun).symm
  · have hrent : ∀ r ∈ marginFormula.refs, r.1 ≠ ⟨"rent"⟩ := by decide
    intro r hr
    rw [if_neg (hrent r hr)]

end ProForma.Formula
