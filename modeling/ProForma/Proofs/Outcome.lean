import Mathlib.Data.List.Forall2

/-!
# Outcomes of computations that can fail

A computation of several steps ends well if each of its steps does, and otherwise with the first
fault that one of them gives. If there is a state besides, it goes from step to step, and what came
before a failure stays.
-/

namespace ProForma

variable {ε σ β γ δ : Type}

theorem bind_eq_ok {c : Except ε β} {next : β → Except ε γ} {y : γ} :
    c >>= next = .ok y ↔ ∃ x, c = .ok x ∧ next x = .ok y := by
  cases c with
  | ok x => exact ⟨fun h => ⟨x, rfl, h⟩, fun ⟨_, hx, h⟩ => by cases hx; exact h⟩
  | error fault => exact ⟨nofun, fun ⟨_, hx, _⟩ => by cases hx⟩

theorem bind_eq_error {c : Except ε β} {next : β → Except ε γ} {fault : ε} :
    c >>= next = .error fault ↔ c = .error fault ∨ ∃ x, c = .ok x ∧ next x = .error fault := by
  cases c with
  | ok x =>
      constructor
      · exact fun h => .inr ⟨x, rfl, h⟩
      · rintro (h | ⟨_, hx, h⟩)
        · cases h
        · cases hx
          exact h
  | error fault' =>
      constructor
      · intro h
        cases h
        exact .inl rfl
      · rintro (h | ⟨_, hx, _⟩)
        · cases h
          rfl
        · cases hx

theorem map_eq_ok {c : Except ε β} {f : β → γ} {y : γ} :
    c.map f = .ok y ↔ ∃ x, c = .ok x ∧ f x = y := by
  cases c with
  | ok x => exact ⟨fun h => ⟨x, rfl, Except.ok.inj h⟩, fun ⟨_, hx, h⟩ => by cases hx; cases h; rfl⟩
  | error fault => exact ⟨nofun, fun ⟨_, hx, _⟩ => by cases hx⟩

theorem eq_ok_of_toOption {c : Except ε β} {x : β} (h : c.toOption = some x) : c = .ok x := by
  cases c with
  | ok y => rw [Option.some.inj h]
  | error fault => cases h

theorem exists_eq_ok_of_isSome {c : Except ε β} (h : c.toOption.isSome = true) :
    ∃ x, c = .ok x := by
  obtain ⟨x, hx⟩ := Option.isSome_iff_exists.1 h
  exact ⟨x, eq_ok_of_toOption hx⟩

/-- A loop fails at one of its steps. -/
theorem exists_of_foldlM_eq_error {step : γ → β → Except ε γ} {xs : List β} {init : γ} {fault : ε}
    (h : xs.foldlM step init = .error fault) : ∃ acc, ∃ x ∈ xs, step acc x = .error fault := by
  induction xs generalizing init with
  | nil => cases h
  | cons x xs ih =>
      rw [List.foldlM_cons] at h
      rcases bind_eq_error.1 h with h | ⟨acc, -, h⟩
      · exact ⟨init, x, List.mem_cons_self, h⟩
      · obtain ⟨acc, y, hy, hfault⟩ := ih h
        exact ⟨acc, y, List.mem_cons_of_mem _ hy, hfault⟩

theorem forall₂_of_mapM {f : β → Except ε γ} {xs : List β} {ys : List γ} (h : xs.mapM f = .ok ys) :
    List.Forall₂ (fun x y => f x = .ok y) xs ys := by
  induction xs generalizing ys with
  | nil =>
      cases h
      exact .nil
  | cons x xs ih =>
      rw [List.mapM_cons] at h
      obtain ⟨y, hy, h⟩ := bind_eq_ok.1 h
      obtain ⟨rest, hrest, h⟩ := bind_eq_ok.1 h
      cases h
      exact .cons hy (ih hrest)

theorem rel_of_mapM {f : β → Except ε γ} {R : β → γ → Prop} {x? : Option β} {y? : Option γ}
    (h : x?.mapM f = .ok y?) (hf : ∀ x y, f x = .ok y → R x y) : Option.Rel R x? y? := by
  cases x? with
  | none =>
      cases h
      exact .none
  | some x =>
      obtain ⟨y, hy, rfl⟩ := map_eq_ok.1 h
      exact .some (hf x y hy)

theorem mapM_map_eq_ok {f : γ → Except ε β} {g : β → γ} {xs : List β}
    (h : ∀ x ∈ xs, f (g x) = .ok x) : (xs.map g).mapM f = .ok xs := by
  induction xs with
  | nil => rfl
  | cons x xs ih =>
    rw [List.forall_mem_cons] at h
    rw [List.map_cons, List.mapM_cons]
    exact bind_eq_ok.2 ⟨x, h.1, bind_eq_ok.2 ⟨xs, ih h.2, rfl⟩⟩

theorem mapM_eq_self {f : β → Except ε β} {xs : List β} (h : ∀ x ∈ xs, f x = .ok x) :
    xs.mapM f = .ok xs := by
  have hmap := mapM_map_eq_ok (f := f) (g := id) h
  rwa [List.map_id] at hmap

theorem foldlM_eq_self {step : γ → β → Except ε γ} {xs : List β} {acc : γ}
    (h : ∀ x ∈ xs, step acc x = .ok acc) : xs.foldlM step acc = .ok acc := by
  induction xs with
  | nil => rfl
  | cons x xs ih =>
      rw [List.foldlM_cons, h x List.mem_cons_self]
      exact ih fun y hy => h y (List.mem_cons_of_mem _ hy)

/-- What holds at the start of a loop and is kept by its steps holds at the end. -/
theorem foldlM_preserves {step : γ → β → Except ε γ} {P : γ → Prop} {xs : List β} {init last : γ}
    (hinit : P init) (hstep : ∀ acc next, ∀ x ∈ xs, P acc → step acc x = .ok next → P next)
    (h : xs.foldlM step init = .ok last) : P last := by
  induction xs generalizing init with
  | nil =>
      cases h
      exact hinit
  | cons x xs ih =>
      rw [List.foldlM_cons] at h
      obtain ⟨next, hnext, hrest⟩ := bind_eq_ok.1 h
      exact ih (hstep init next x List.mem_cons_self hinit hnext)
        (fun acc next y hy => hstep acc next y (List.mem_cons_of_mem _ hy)) hrest

/-- A loop over a view of its state, if each step keeps to the view, gives the view of what the loop
gives. -/
theorem foldlM_view {m : Type → Type} [Monad m] [LawfulMonad m] {step : γ → β → m γ}
    {step' : δ → β → m δ} {view : γ → δ} {xs : List β}
    (h : ∀ acc, ∀ x ∈ xs, step' (view acc) x = view <$> step acc x) (init : γ) :
    xs.foldlM step' (view init) = view <$> xs.foldlM step init := by
  induction xs generalizing init with
  | nil => exact (map_pure view init).symm
  | cons x xs ih =>
      rw [List.foldlM_cons, List.foldlM_cons, h init x List.mem_cons_self, bind_map_left, map_bind]
      exact bind_congr fun acc => ih (fun acc y hy => h acc y (List.mem_cons_of_mem _ hy)) acc

theorem foldlM_flatMap {m : Type → Type} [Monad m] [LawfulMonad m] {step : γ → β → m γ}
    {parts : δ → List β} {xs : List δ} {init : γ} :
    (xs.flatMap parts).foldlM step init =
      xs.foldlM (fun acc x => (parts x).foldlM step acc) init := by
  induction xs generalizing init with
  | nil => rfl
  | cons x xs ih =>
      rw [List.flatMap_cons, List.foldlM_append, List.foldlM_cons]
      exact bind_congr fun acc => ih

/-! ### With a state -/

theorem run_bind (c : ExceptT ε (StateM σ) β) (next : β → ExceptT ε (StateM σ) γ) (state : σ) :
    (c >>= next).run state = match c.run state with
      | (.ok x, state) => (next x).run state
      | (.error fault, state) => (.error fault, state) := by
  unfold ExceptT.run
  simp only [bind, ExceptT.bind, ExceptT.mk, StateT.bind]
  rcases c state with ⟨fault | x, state'⟩ <;> rfl

theorem run_bind_eq_ok {c : ExceptT ε (StateM σ) β} {next : β → ExceptT ε (StateM σ) γ} {state : σ}
    {y : γ} : ((c >>= next).run state).1 = .ok y ↔
      ∃ x, (c.run state).1 = .ok x ∧ ((next x).run (c.run state).2).1 = .ok y := by
  rw [run_bind]
  rcases c.run state with ⟨fault | x, state'⟩
  · exact ⟨nofun, fun ⟨_, hx, _⟩ => by cases hx⟩
  · exact ⟨fun h => ⟨x, rfl, h⟩, fun ⟨_, hx, h⟩ => by cases hx; exact h⟩

theorem run_bind_eq_error {c : ExceptT ε (StateM σ) β} {next : β → ExceptT ε (StateM σ) γ}
    {state : σ} {fault : ε} : ((c >>= next).run state).1 = .error fault ↔
      (c.run state).1 = .error fault ∨
        ∃ x, (c.run state).1 = .ok x ∧ ((next x).run (c.run state).2).1 = .error fault := by
  rw [run_bind]
  rcases c.run state with ⟨fault' | x, state'⟩
  · constructor
    · intro h
      cases h
      exact .inl rfl
    · rintro (h | ⟨_, hx, -⟩)
      · cases h
        rfl
      · cases hx
  · constructor
    · exact fun h => .inr ⟨x, rfl, h⟩
    · rintro (h | ⟨_, hx, h⟩)
      · cases h
      · cases hx
        exact h

theorem run_liftM (c : Except ε β) (state : σ) :
    (liftM c : ExceptT ε (StateM σ) β).run state = (c, state) := by
  cases c with
  | ok x => rfl
  | error fault => rfl

theorem liftM_ok_bind (x : β) (next : β → ExceptT ε (StateM σ) γ) :
    ((liftM (.ok x : Except ε β) : ExceptT ε (StateM σ) β) >>= next) = next x := rfl

theorem run_tryCatch (c : ExceptT ε (StateM σ) β) (handle : ε → ExceptT ε (StateM σ) β)
    (state : σ) :
    (tryCatch c handle).run state = match c.run state with
      | (.ok x, state) => (.ok x, state)
      | (.error fault, state) => (handle fault).run state := by
  unfold ExceptT.run
  simp only [tryCatch, tryCatchThe, MonadExceptOf.tryCatch, ExceptT.tryCatch, ExceptT.mk, bind,
    StateT.bind]
  rcases c state with ⟨fault | x, state'⟩ <;> rfl

/-- A loop does to a view of its result what its steps do to it. -/
theorem run_foldlM_map {step : γ → β → ExceptT ε (StateM σ) γ} {view : γ → δ}
    {step' : δ → β → Except ε δ}
    (h : ∀ acc x state, ((step acc x).run state).1.map view = step' (view acc) x) (xs : List β)
    (init : γ) (state : σ) :
    ((xs.foldlM step init).run state).1.map view = xs.foldlM step' (view init) := by
  induction xs generalizing init state with
  | nil => rfl
  | cons x xs ih =>
      have hstep := h init x state
      rw [List.foldlM_cons, List.foldlM_cons, run_bind, ← hstep]
      rcases (step init x).run state with ⟨fault | acc, state'⟩
      · rfl
      · exact ih acc state'

/-! ### What a computation keeps to -/

/-- From states with the invariant the computation goes to states with it, and it ends with no
faults but those allowed. -/
def Keeps (inv : σ → Prop) (allowed : ε → Prop) (c : ExceptT ε (StateM σ) β) : Prop :=
  ∀ state, inv state →
    inv (c.run state).2 ∧ ∀ fault, (c.run state).1 = .error fault → allowed fault

variable {inv : σ → Prop} {allowed : ε → Prop} {c : ExceptT ε (StateM σ) β}

theorem keeps_pure (x : β) : Keeps inv allowed (pure x : ExceptT ε (StateM σ) β) :=
  fun _ hinv => ⟨hinv, nofun⟩

theorem keeps_throw {fault : ε} (h : allowed fault) :
    Keeps inv allowed (throw fault : ExceptT ε (StateM σ) β) := by
  refine fun _ hinv => ⟨hinv, fun fault' hfault => ?_⟩
  cases hfault
  exact h

theorem keeps_modify {update : σ → σ} (h : ∀ state, inv state → inv (update state)) :
    Keeps inv allowed (modify update : ExceptT ε (StateM σ) Unit) :=
  fun state hinv => ⟨h state hinv, nofun⟩

theorem Keeps.mono {allowed' : ε → Prop} (h : Keeps inv allowed' c)
    (hallowed : ∀ fault, allowed' fault → allowed fault) : Keeps inv allowed c :=
  fun state hinv =>
    ⟨(h state hinv).1, fun fault hfault => hallowed fault ((h state hinv).2 fault hfault)⟩

theorem Keeps.bind {next : β → ExceptT ε (StateM σ) γ} (hc : Keeps inv allowed c)
    (hnext : ∀ x, Keeps inv allowed (next x)) : Keeps inv allowed (c >>= next) := by
  intro state hinv
  have hstep := hc state hinv
  rw [run_bind]
  rcases hrun : c.run state with ⟨fault | x, state'⟩ <;> rw [hrun] at hstep
  · refine ⟨hstep.1, fun fault' hfault => ?_⟩
    cases hfault
    exact hstep.2 fault rfl
  · exact hnext x state' hstep.1

theorem Keeps.liftM_bind {c : Except ε β} {next : β → ExceptT ε (StateM σ) γ}
    (hc : ∀ fault, c = .error fault → allowed fault)
    (hnext : ∀ x, c = .ok x → Keeps inv allowed (next x)) :
    Keeps inv allowed ((liftM c : ExceptT ε (StateM σ) β) >>= next) := by
  intro state hinv
  rw [run_bind, run_liftM]
  cases c with
  | ok x => exact hnext x rfl state hinv
  | error fault =>
      refine ⟨hinv, fun fault' hfault => ?_⟩
      cases hfault
      exact hc fault rfl

theorem Keeps.tryCatch {handle : ε → ExceptT ε (StateM σ) β} {allowed' : ε → Prop}
    (hc : Keeps inv allowed' c)
    (hhandle : ∀ fault, allowed' fault → Keeps inv allowed (handle fault)) :
    Keeps inv allowed (tryCatch c handle) := by
  intro state hinv
  have hstep := hc state hinv
  rw [run_tryCatch]
  rcases hrun : c.run state with ⟨fault | x, state'⟩ <;> rw [hrun] at hstep
  · exact hhandle fault (hstep.2 fault rfl) state' hstep.1
  · exact ⟨hstep.1, nofun⟩

theorem Keeps.foldlM {step : γ → β → ExceptT ε (StateM σ) γ} {xs : List β}
    (h : ∀ x ∈ xs, ∀ acc, Keeps inv allowed (step acc x)) (init : γ) :
    Keeps inv allowed (xs.foldlM step init) := by
  induction xs generalizing init with
  | nil => exact keeps_pure init
  | cons x xs ih =>
      rw [List.foldlM_cons]
      exact (h x List.mem_cons_self init).bind fun acc =>
        ih (fun y hy => h y (List.mem_cons_of_mem _ hy)) acc

/-- From whatever state, the computation ends with no faults but those allowed. -/
def FailsOnly (allowed : ε → Prop) (c : ExceptT ε (StateM σ) β) : Prop :=
  ∀ state fault, (c.run state).1 = .error fault → allowed fault

theorem failsOnly_iff_keeps : FailsOnly allowed c ↔ Keeps (fun _ => True) allowed c := by
  simp [FailsOnly, Keeps]

theorem failsOnly_pure (x : β) : FailsOnly allowed (pure x : ExceptT ε (StateM σ) β) :=
  failsOnly_iff_keeps.2 (keeps_pure x)

theorem FailsOnly.bind {next : β → ExceptT ε (StateM σ) γ} (hc : FailsOnly allowed c)
    (hnext : ∀ x, FailsOnly allowed (next x)) : FailsOnly allowed (c >>= next) :=
  failsOnly_iff_keeps.2 <|
    (failsOnly_iff_keeps.1 hc).bind fun x => failsOnly_iff_keeps.1 (hnext x)

end ProForma
