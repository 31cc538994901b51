import ProForma.Formula.Evaluation

/-!
# Evaluation over two ways of reading

A formula is evaluated over any way of reading cells, and evaluation does nothing with what it reads
but compute with it. So two evaluations of one formula stay related if their readings are, for every
relation that the steps of a computation respect. Equality gives that a value depends on the cells
referred to only; other relations compare a computation that remembers cells with a plain one, or
bound the faults that a computation can end with.
-/

namespace ProForma

variable {α : Type}

/-- A relation between computations that evaluation respects. -/
structure Parallel {m n : Type → Type} [Monad m] [MonadExceptOf (Fault α) m] [Monad n]
    [MonadExceptOf (Fault α) n] (Rel : m α → n α → Prop) : Prop where
  pure (x : α) : Rel (pure x) (pure x)
  bind {c : m α} {c' : n α} {next : α → m α} {next' : α → n α} :
    Rel c c' → (∀ x, Rel (next x) (next' x)) → Rel (c >>= next) (c' >>= next')
  divide (whole : Formula α) : Rel (throw (.divisionByZero whole)) (throw (.divisionByZero whole))

namespace Formula

mutual

/-- No quotient in the formula lacks its arguments. -/
def Proper : Formula α → Prop
  | .const _ => True
  | .ref _ _ => True
  | .apply operation args => (operation = .div → args ≠ []) ∧ AllProper args

def AllProper : List (Formula α) → Prop
  | [] => True
  | f :: fs => f.Proper ∧ AllProper fs

end

theorem allProper_iff {fs : List (Formula α)} : AllProper fs ↔ ∀ f ∈ fs, f.Proper := by
  induction fs with
  | nil => simp [AllProper]
  | cons f fs ih => simp [AllProper, ih]

theorem mem_refsOfAll {fs : List (Formula α)} {r : AccountId × Nat} :
    r ∈ refsOfAll fs ↔ ∃ f ∈ fs, r ∈ f.refs := by
  induction fs with
  | nil => simp [refsOfAll]
  | cons f fs ih => simp [refsOfAll, ih]

section Parallel

variable [Amount α] {m n : Type → Type} [Monad m] [MonadExceptOf (Fault α) m] [Monad n]
  [MonadExceptOf (Fault α) n] {Rel : m α → n α → Prop}

theorem step_parallel (h : Parallel Rel) (whole : Formula α) (operation : Operation) (acc x : α) :
    Rel (operation.step whole acc x) (operation.step whole acc x) := by
  cases operation with
  | add => exact h.pure _
  | sub => exact h.pure _
  | mul => exact h.pure _
  | div =>
      simp only [Operation.step]
      split
      · exact h.divide whole
      · exact h.pure _

/-- The fault of a quotient without arguments makes no difference: the relation respects it, or the
formulas have no such quotient. -/
def Forgives (Rel : m α → n α → Prop) (proper : Prop) : Prop :=
  Rel (throw (.inconsistent none .emptyQuotient)) (throw (.inconsistent none .emptyQuotient)) ∨
    proper

omit [Amount α] [Monad m] [Monad n] in
theorem Forgives.mono {proper part : Prop} (h : Forgives Rel proper) (hpart : proper → part) :
    Forgives Rel part :=
  h.imp_right hpart

mutual

theorem eval_parallel (h : Parallel Rel) (read : AccountId → Int → m α)
    (read' : AccountId → Int → n α) (position : Int) :
    (f : Formula α) → Forgives Rel f.Proper →
    (∀ r ∈ f.refs, Rel (read r.1 (position - r.2)) (read' r.1 (position - r.2))) →
    Rel (f.eval read position) (f.eval read' position)
  | .const value, _, _ => by
      simp only [eval]
      exact h.pure value
  | .ref account lag, _, hread => by
      simp only [eval]
      exact hread (account, lag) (by simp [refs])
  | .apply .add args, hempty, hread => by
      simp only [eval]
      have hstep := step_parallel h (.apply .add args) .add
      have hargs := hempty.mono And.right
      exact accumulate_parallel h read read' position hstep args hargs hread 0
  | .apply .mul args, hempty, hread => by
      simp only [eval]
      have hstep := step_parallel h (.apply .mul args) .mul
      have hargs := hempty.mono And.right
      exact accumulate_parallel h read read' position hstep args hargs hread 1
  | .apply .sub [], _, _ => by
      simp only [eval]
      exact h.pure 0
  | .apply .div [], hempty, _ => by
      simp only [eval]
      exact hempty.resolve_right fun hproper => hproper.1 rfl rfl
  | .apply .sub (first :: rest), hempty, hread => by
      simp only [eval]
      refine h.bind (eval_parallel h read read' position first
        (hempty.mono fun hproper => hproper.2.1) fun r hr => hread r ?_) fun start => ?_
      · exact List.mem_append_left _ hr
      · exact accumulate_parallel h read read' position (step_parallel h _ .sub) rest
          (hempty.mono fun hproper => hproper.2.2)
          (fun r hr => hread r (List.mem_append_right _ hr)) start
  | .apply .div (first :: rest), hempty, hread => by
      simp only [eval]
      refine h.bind (eval_parallel h read read' position first
        (hempty.mono fun hproper => hproper.2.1) fun r hr => hread r ?_) fun start => ?_
      · exact List.mem_append_left _ hr
      · exact accumulate_parallel h read read' position (step_parallel h _ .div) rest
          (hempty.mono fun hproper => hproper.2.2)
          (fun r hr => hread r (List.mem_append_right _ hr)) start

theorem accumulate_parallel (h : Parallel Rel) (read : AccountId → Int → m α)
    (read' : AccountId → Int → n α) (position : Int) {step : α → α → m α} {step' : α → α → n α}
    (hstep : ∀ acc x, Rel (step acc x) (step' acc x)) :
    (fs : List (Formula α)) → Forgives Rel (AllProper fs) →
    (∀ r ∈ refsOfAll fs, Rel (read r.1 (position - r.2)) (read' r.1 (position - r.2))) →
    (acc : α) → Rel (accumulate read position step acc fs) (accumulate read' position step' acc fs)
  | [], _, _, acc => by
      simp only [accumulate]
      exact h.pure acc
  | f :: fs, hempty, hread, acc => by
      simp only [accumulate]
      refine h.bind (eval_parallel h read read' position f (hempty.mono And.left)
        fun r hr => hread r ?_) fun x => h.bind (hstep acc x) fun acc => ?_
      · exact List.mem_append_left _ hr
      · exact accumulate_parallel h read read' position hstep fs (hempty.mono And.right)
          (fun r hr => hread r (List.mem_append_right _ hr)) acc

end

end Parallel

/-! ### Uses -/

theorem parallel_eq {m : Type → Type} [Monad m] [MonadExceptOf (Fault α) m] :
    Parallel (α := α) (Eq : m α → m α → Prop) where
  pure _ := rfl
  bind hc hnext := by rw [hc, funext hnext]
  divide _ := rfl

/-- The value of a formula depends on the cells that it refers to, and on no others. -/
theorem eval_congr [Amount α] {m : Type → Type} [Monad m] [MonadExceptOf (Fault α) m]
    {read read' : AccountId → Int → m α} {position : Int} {f : Formula α}
    (h : ∀ r ∈ f.refs, read r.1 (position - r.2) = read' r.1 (position - r.2)) :
    f.eval read position = f.eval read' position :=
  eval_parallel parallel_eq read read' position f (.inl rfl) h

/-- The faults of a computation are divisions by zero. -/
def OnlyDivides (c : Except (Fault α) α) : Prop :=
  ∀ fault, c = .error fault → ∃ whole, fault = .divisionByZero whole

theorem onlyDivides_ok (x : α) : OnlyDivides (.ok x) := by
  intro fault hfault
  cases hfault

theorem parallel_onlyDivides :
    Parallel (α := α) fun (c : Except (Fault α) α) (_ : Except (Fault α) α) => OnlyDivides c where
  pure x := onlyDivides_ok x
  bind {c _ next _} hc hnext := by
    cases c with
    | ok x => exact hnext x
    | error fault =>
        intro fault' hfault
        cases hfault
        exact hc fault rfl
  divide whole := by
    intro fault hfault
    cases hfault
    exact ⟨whole, rfl⟩

/-- Over a table of cells, a formula fails only where it divides by zero. -/
theorem value_onlyDivides [Amount α] {f : Formula α} (hf : f.Proper) (table : AccountId → Int → α)
    (position : Int) : OnlyDivides (f.value table position) := by
  have hread : ∀ account t, OnlyDivides (pure (table account t)) := fun account t =>
    onlyDivides_ok (table account t)
  exact eval_parallel parallel_onlyDivides _ (fun account t => pure (table account t)) position f
    (.inr hf) fun r _ => hread r.1 (position - r.2)

end Formula

end ProForma
