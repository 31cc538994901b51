import ProForma.Memo.Program
import ProForma.Proofs.Memo

/-!
# The discipline of a memo

Programs over a memo demand cells as they like: nested, repeatedly, and going on after failures. The
invariant that carries everything is that a cell is known exactly if the journal has a successful
computation of it, and that no cell in progress is known. A demand keeps it, whatever program
computes the cell: it starts a cell only if that is neither known nor in progress, and the cell is
in progress all the while, so that nothing within can compute it a second time.
-/

namespace ProForma

namespace Memo

variable {α : Type}

/-- A memo, and the journal of what has happened to its cells. -/
abbrev Point (α : Type) := Memo α × List (Event α)

/-- A computation of the cell has come to a value. -/
def Event.succeeds (slot : Slot) : Event α → Bool
  | .finished other (.ok _) => other = slot
  | _ => false

/-- What a memo holds is what has been computed, once for each cell, and nothing in progress. -/
structure Sound (point : Point α) : Prop where
  disjoint : ∀ slot ∈ point.1.pending, point.1.value? slot = none
  known : ∀ slot x, point.1.value? slot = some x ↔ .finished slot (.ok x) ∈ point.2
  once : ∀ slot, point.2.countP (Event.succeeds slot) ≤ 1

/-- What a program may do. -/
structure Leads (point point' : Point α) : Prop where
  sound : Sound point'
  pending : point'.1.pending = point.1.pending
  kept : ∀ slot x, point.1.value? slot = some x → point'.1.value? slot = some x
  journal : point.2 <+: point'.2

theorem sound_empty : Sound ((Memo.empty, []) : Point α) where
  disjoint := nofun
  known _ _ := ⟨nofun, nofun⟩
  once _ := Nat.zero_le 1

theorem leads_refl {point : Point α} (h : Sound point) : Leads point point :=
  ⟨h, rfl, fun _ _ hx => hx, List.prefix_refl _⟩

theorem Leads.trans {point point' point'' : Point α} (h : Leads point point')
    (h' : Leads point' point'') : Leads point point'' where
  sound := h'.sound
  pending := h'.pending.trans h.pending
  kept slot x hx := h'.kept slot x (h.kept slot x hx)
  journal := h.journal.trans h'.journal

variable {memo : Memo α} {journal : List (Event α)} {slot : Slot}

/-- An event that is no success of a cell makes no difference to what is known. -/
theorem Sound.concat (h : Sound (memo, journal)) (event : Event α)
    (hevent : ∀ slot, event.succeeds slot = false) : Sound (memo, journal ++ [event]) where
  disjoint := h.disjoint
  known slot x := by
    have hother : Event.finished slot (.ok x) ≠ event := by
      rintro rfl
      simpa [Event.succeeds] using hevent slot
    simpa [hother] using h.known slot x
  once slot := by
    simpa [hevent slot] using h.once slot

theorem Leads.answered {point : Point α} (h : Leads point (memo, journal)) (slot : Slot)
    (result : Except (Fault α) α) : Leads point (memo, journal ++ [.answered slot result]) where
  sound := h.sound.concat _ fun _ => rfl
  pending := h.pending
  kept := h.kept
  journal := h.journal.trans (List.prefix_append _ _)

/-- Starting a cell that is neither known nor in progress. -/
theorem Sound.start (h : Sound (memo, journal)) (hunknown : memo.value? slot = none) :
    Sound (memo.start slot, journal ++ [.started slot]) := by
  have hstarted := h.concat (.started slot) fun _ => rfl
  refine ⟨fun other hother => ?_, hstarted.known, hstarted.once⟩
  rcases List.mem_cons.1 hother with rfl | hother
  · exact hunknown
  · exact h.disjoint other hother

/-- The memo when the computation of a cell has ended. -/
def conclude (memo : Memo α) (slot : Slot) : Except (Fault α) α → Memo α
  | .ok x => (memo.stop slot).learn slot x
  | .error _ => memo.stop slot

theorem pending_conclude {pending : List Slot} (hpending : memo.pending = slot :: pending)
    (result : Except (Fault α) α) : (memo.conclude slot result).pending = pending := by
  have hstop : memo.pending.erase slot = pending := by
    rw [hpending, List.erase_cons_head]
  cases result with
  | ok x => exact hstop
  | error fault => exact hstop

theorem value?_conclude_ok (memo : Memo α) (slot other : Slot) (x : α) :
    (memo.conclude slot (.ok x)).value? other =
      if other = slot then some x else memo.value? other :=
  value?_learn (memo.stop slot) slot other x

theorem value?_conclude_of_ne (memo : Memo α) {other : Slot} (hne : other ≠ slot)
    (result : Except (Fault α) α) :
    (memo.conclude slot result).value? other = memo.value? other := by
  cases result with
  | ok x => rw [value?_conclude_ok, if_neg hne]
  | error fault => rfl

theorem countP_of_unknown (h : Sound (memo, journal)) (hunknown : memo.value? slot = none) :
    journal.countP (Event.succeeds slot) = 0 := by
  rw [List.countP_eq_zero]
  intro event hevent hsucceeds
  match event with
  | .finished other (.ok x) =>
      obtain rfl : other = slot := of_decide_eq_true hsucceeds
      rw [(h.known other x).2 hevent] at hunknown
      cases hunknown
  | .finished other (.error fault) => cases hsucceeds
  | .started other => cases hsucceeds
  | .answered other result => cases hsucceeds

/-- Ending the computation of the cell that was started last. -/
theorem Sound.conclude (h : Sound (memo, journal)) {pending : List Slot}
    (hpending : memo.pending = slot :: pending) (hidle : slot ∉ pending)
    (result : Except (Fault α) α) :
    Sound (memo.conclude slot result, journal ++ [.finished slot result]) := by
  have hmem : ∀ other ∈ pending, other ∈ memo.pending := fun other hother =>
    hpending ▸ List.mem_cons_of_mem _ hother
  have hunknown : memo.value? slot = none := h.disjoint slot (hpending ▸ List.mem_cons_self)
  cases result with
  | error fault =>
      have hended := h.concat (.finished slot (.error fault)) fun _ => rfl
      refine ⟨fun other hother => ?_, hended.known, hended.once⟩
      rw [pending_conclude hpending] at hother
      exact h.disjoint other (hmem other hother)
  | ok x =>
      refine ⟨fun other hother => ?_, fun other y => ?_, fun other => ?_⟩
      · rw [pending_conclude hpending] at hother
        have hne : other ≠ slot := fun hsame => hidle (hsame ▸ hother)
        rw [value?_conclude_ok, if_neg hne]
        exact h.disjoint other (hmem other hother)
      · rw [value?_conclude_ok, List.mem_append, List.mem_singleton, ← h.known other y]
        by_cases hsame : other = slot
        · subst hsame
          rw [if_pos rfl, hunknown]
          simp [eq_comm]
        · simp [hsame]
      · rw [List.countP_append]
        by_cases hsame : other = slot
        · subst hsame
          rw [countP_of_unknown h hunknown, Nat.zero_add]
          exact List.countP_le_length
        · have hquiet : [Event.finished slot (.ok x)].countP (Event.succeeds other) = 0 := by
            simp [Event.succeeds, Ne.symm hsame]
          rw [hquiet]
          exact h.once other

end Memo

/-! ### Calls -/

namespace Program

open Memo

variable {α : Type} {memo : Memo α} {journal : List (Event α)} {slot : Slot} {body : Program α}
  {point : Point α}

/-- The outcome of a program that is run from a point, and the point it comes to. -/
def outcome (p : Program α) (point : Point α) : Except (Fault α) α × Point α :=
  p.run.run point

/-- What a demand gives for a cell that a program computes, and the point it comes to. -/
def call (slot : Slot) (body : Program α) (point : Point α) : Except (Fault α) α × Point α :=
  (Memo.demand slot (journaled slot body.run)).run point

/-- Where a program starts to compute a cell. -/
def entered (slot : Slot) (point : Point α) : Point α :=
  (point.1.start slot, point.2 ++ [.started slot])

theorem outcome_done (result : Except (Fault α) α) :
    (Program.done result).outcome point = (result, point) := by
  cases result with
  | ok x => rfl
  | error fault => rfl

theorem call_of_known {x : α} (h : point.1.value? slot = some x) :
    call slot body point = (.ok x, point) := by
  unfold call Memo.demand
  rw [ExceptT.run_mk]
  dsimp only
  rw [h]

theorem call_of_pending (hunknown : point.1.value? slot = none) (h : slot ∈ point.1.pending) :
    call slot body point = (.error (.circular slot.account), point) := by
  unfold call Memo.demand
  rw [ExceptT.run_mk]
  dsimp only
  rw [hunknown]
  dsimp only
  rw [if_pos h]

theorem call_of_idle (hunknown : point.1.value? slot = none) (h : slot ∉ point.1.pending) :
    call slot body point =
      ((body.outcome (entered slot point)).1,
        (body.outcome (entered slot point)).2.1.conclude slot (body.outcome (entered slot point)).1,
        (body.outcome (entered slot point)).2.2 ++
          [.finished slot (body.outcome (entered slot point)).1]) := by
  have hrun : (journaled slot body.run).run (point.1.start slot, point.2) =
      ((body.outcome (entered slot point)).1, (body.outcome (entered slot point)).2.1,
        (body.outcome (entered slot point)).2.2 ++
          [.finished slot (body.outcome (entered slot point)).1]) := by
    change (Program.done (body.outcome (entered slot point)).1).outcome
      ((body.outcome (entered slot point)).2.1, (body.outcome (entered slot point)).2.2 ++
        [.finished slot (body.outcome (entered slot point)).1]) = _
    exact outcome_done _
  unfold call Memo.demand
  rw [ExceptT.run_mk]
  dsimp only
  rw [hunknown]
  dsimp only
  rw [if_neg h, hrun]
  rcases (body.outcome (entered slot point)).1 with fault | x
  · rfl
  · rfl

theorem outcome_size (next : Nat → Program α) :
    (Program.size next).outcome point = (next point.1.size).outcome point :=
  rfl

theorem outcome_cell (next : Except (Fault α) α → Program α) :
    (Program.cell slot body next).outcome point =
      (next (call slot body point).1).outcome
        ((call slot body point).2.1,
          (call slot body point).2.2 ++ [.answered slot (call slot body point).1]) := by
  rfl

/-! ### Runs -/

/-- From every sound point, the program leads to a sound one, with the same cells in progress. -/
def Restores (p : Program α) : Prop :=
  ∀ point, Sound point → Leads point (p.outcome point).2

/-- A demand keeps the discipline if the program that computes its cell does. -/
theorem leads_call (hbody : body.Restores) (slot : Slot) (h : Sound point) :
    Leads point (call slot body point).2 := by
  cases hvalue : point.1.value? slot with
  | some x =>
      rw [call_of_known hvalue]
      exact leads_refl h
  | none =>
      by_cases hpending : slot ∈ point.1.pending
      · rw [call_of_pending hvalue hpending]
        exact leads_refl h
      · have hentered : Leads (entered slot point) (body.outcome (entered slot point)).2 :=
          hbody _ (h.start hvalue)
        have hconcluded : ((body.outcome (entered slot point)).2.1.conclude slot
            (body.outcome (entered slot point)).1).pending = point.1.pending :=
          pending_conclude hentered.pending _
        rw [call_of_idle hvalue hpending]
        refine ⟨hentered.sound.conclude hentered.pending hpending _, hconcluded,
          fun other x hx => ?_, ?_⟩
        · have hne : other ≠ slot := by
            rintro rfl
            rw [hvalue] at hx
            cases hx
          rw [value?_conclude_of_ne _ hne]
          exact hentered.kept other x hx
        · have hstarted : point.2 <+: (entered slot point).2 := List.prefix_append _ _
          exact (hstarted.trans hentered.journal).trans (List.prefix_append _ _)

theorem restores_run (p : Program α) : p.Restores := by
  induction p with
  | done result =>
      intro point h
      rw [outcome_done]
      exact leads_refl h
  | size next ih =>
      intro point h
      rw [outcome_size]
      exact ih point.1.size point h
  | cell slot body next hbody ih =>
      intro point h
      have hcall := leads_call hbody slot h
      have hanswered := hcall.answered slot (call slot body point).1
      rw [outcome_cell]
      exact hanswered.trans (ih _ _ hanswered.sound)

/-! ### Points of runs -/

/-- The points that programs come to: an empty memo, where a program ends that was run from another
point, and where a program starts to compute a cell. -/
inductive Reached : Point α → Prop where
  | empty : Reached (Memo.empty, [])
  | ran {point : Point α} (p : Program α) : Reached point → Reached (p.outcome point).2
  | entered {point : Point α} {slot : Slot} : Reached point → point.1.value? slot = none →
      slot ∉ point.1.pending → Reached (Program.entered slot point)

/-- A run of the program from the point comes to a demand, at any depth, for a cell to be computed
by another program. -/
inductive Demands : Program α → Point α → Slot → Program α → Point α → Prop where
  | here {slot : Slot} {body : Program α} {next : Except (Fault α) α → Program α}
      {point : Point α} : Demands (.cell slot body next) point slot body point
  | within {slot inner : Slot} {body program : Program α}
      {next : Except (Fault α) α → Program α} {point place : Point α} :
      point.1.value? slot = none → slot ∉ point.1.pending →
      Demands body (Program.entered slot point) inner program place →
      Demands (.cell slot body next) point inner program place
  | later {slot other : Slot} {body program : Program α} {next : Except (Fault α) α → Program α}
      {point place : Point α} :
      Demands (next (call slot body point).1)
        ((call slot body point).2.1,
          (call slot body point).2.2 ++ [.answered slot (call slot body point).1])
        other program place →
      Demands (.cell slot body next) point other program place
  | size {next : Nat → Program α} {point place : Point α} {slot : Slot} {program : Program α} :
      Demands (next point.1.size) point slot program place →
      Demands (.size next) point slot program place

theorem Reached.sound (h : Reached point) : Sound point := by
  induction h with
  | empty => exact sound_empty
  | ran p _ ih => exact (restores_run p _ ih).sound
  | entered _ hunknown _ ih => exact ih.start hunknown

/-- Every demand of a run is made at a point that programs come to. -/
theorem Demands.reached {p : Program α} {place : Point α} (h : Demands p point slot body place)
    (hpoint : Reached point) : Reached place := by
  induction h with
  | here => exact hpoint
  | within hunknown hidle _ ih => exact ih (hpoint.entered hunknown hidle)
  | @later slot _ body _ _ point _ _ ih =>
      -- The point after the answer is where a program ends that does nothing else.
      have hanswered := hpoint.ran (.cell slot body .done)
      rw [outcome_cell, outcome_done] at hanswered
      exact ih hanswered
  | size _ ih => exact ih hpoint

/-! ### One demand -/

/-- What a demand for a cell keeps to. -/
structure Disciplined (slot : Slot) (body : Program α) (point : Point α) : Prop where
  before : Sound point
  leads : Leads point (call slot body point).2
  /-- A cell that has been computed once is not computed again. -/
  reused : ∀ x, .finished slot (.ok x) ∈ point.2 → call slot body point = (.ok x, point)
  known : ∀ x, (call slot body point).1 = .ok x →
    (call slot body point).2.1.value? slot = some x
  unknown : ∀ fault, (call slot body point).1 = .error fault →
    (call slot body point).2.1.value? slot = none
  /-- The demand itself, and not a computation of its cell, fails with a cycle. -/
  circular : call slot body point = (.error (.circular slot.account), point) ↔
    slot ∈ point.1.pending

theorem value?_of_call_ok {x : α} (hcall : (call slot body point).1 = .ok x) :
    (call slot body point).2.1.value? slot = some x := by
  cases hvalue : point.1.value? slot with
  | some y =>
      rw [call_of_known hvalue] at hcall ⊢
      cases hcall
      exact hvalue
  | none =>
      by_cases hpending : slot ∈ point.1.pending
      · rw [call_of_pending hvalue hpending] at hcall
        cases hcall
      · rw [call_of_idle hvalue hpending] at hcall ⊢
        dsimp only at hcall ⊢
        rw [hcall, value?_conclude_ok, if_pos rfl]

theorem value?_of_call_error (h : Sound point) {fault : Fault α}
    (hcall : (call slot body point).1 = .error fault) :
    (call slot body point).2.1.value? slot = none := by
  cases hvalue : point.1.value? slot with
  | some y =>
      rw [call_of_known hvalue] at hcall
      cases hcall
  | none =>
      by_cases hpending : slot ∈ point.1.pending
      · rw [call_of_pending hvalue hpending]
        exact hvalue
      · -- While its computation ended, the cell was in progress.
        have hentered := restores_run body _ (h.start hvalue : Sound (entered slot point))
        rw [call_of_idle hvalue hpending] at hcall ⊢
        dsimp only at hcall ⊢
        rw [hcall]
        exact hentered.sound.disjoint slot (hentered.pending ▸ List.mem_cons_self)

theorem call_eq_circular_iff (h : Sound point) :
    call slot body point = (.error (.circular slot.account), point) ↔ slot ∈ point.1.pending := by
  refine ⟨fun hcall => ?_, fun hpending => call_of_pending (h.disjoint slot hpending) hpending⟩
  refine Decidable.byContradiction fun hpending => ?_
  cases hvalue : point.1.value? slot with
  | some x =>
      rw [call_of_known hvalue] at hcall
      cases congrArg Prod.fst hcall
  | none =>
      have hentered := restores_run body _ (h.start hvalue : Sound (entered slot point))
      have hgrows := hentered.journal.length_le
      rw [call_of_idle hvalue hpending] at hcall
      have hsame := congrArg (fun outcome => outcome.2.2.length) hcall
      simp only [entered, List.length_append, List.length_singleton] at hgrows hsame
      omega

theorem disciplined_of_sound (h : Sound point) (slot : Slot) (body : Program α) :
    Disciplined slot body point where
  before := h
  leads := leads_call (restores_run body) slot h
  reused x hx := call_of_known ((h.known slot x).2 hx)
  known _ hx := value?_of_call_ok hx
  unknown _ hfault := value?_of_call_error h hfault
  circular := call_eq_circular_iff h

/-- **The discipline of a memo.** Whatever program is run from a point that programs come to, it
ends with the cells in progress that it found, with everything that was known, and with a sound
memo; and so does every demand that it makes on the way, within the computations of cells and after
failures. -/
theorem disciplined (h : Reached point) (p : Program α) :
    Leads point (p.outcome point).2 ∧
      ∀ slot body place, Demands p point slot body place → Disciplined slot body place := by
  refine ⟨restores_run p point h.sound, fun slot body place hdemand => ?_⟩
  exact disciplined_of_sound (hdemand.reached h).sound slot body

def margin : Slot := ⟨⟨"margin"⟩, 1⟩

def price : Slot := ⟨⟨"price"⟩, 1⟩

/-- The price is the margin. -/
def priceProgram : Program Float :=
  .cell margin (.done (.ok 0)) .done

/-- The margin is the price, or 5 where that cannot be had; it is asked for twice. -/
def marginProgram : Program Float :=
  .cell margin
    (.cell price priceProgram fun
      | .ok x => .done (.ok x)
      | .error _ => .done (.ok 5))
    fun _ => .cell margin (.done (.ok 7)) .done

theorem disciplined_margin :
    Reached ((Memo.empty, []) : Point Float) ∧
    ∃ place, Demands marginProgram (Memo.empty, []) margin (.done (.ok 0)) place ∧
      place.1.pending = [price, margin] ∧
      call margin (.done (.ok 0)) place = (.error (.circular ⟨"margin"⟩), place) ∧
      (marginProgram.outcome (Memo.empty, [])).1 = .ok 5 ∧
      (marginProgram.outcome (Memo.empty, [])).2.1.pending = [] ∧
      .finished margin (.ok 5) ∈ (marginProgram.outcome (Memo.empty, [])).2.2 ∧
      (marginProgram.outcome (Memo.empty, [])).2.1.value? price = none := by
  have hstart : Reached ((Memo.empty, []) : Point Float) := .empty
  have hidle : price ∉ [margin] := by decide
  have hdemand : Demands marginProgram (Memo.empty, []) margin (.done (.ok 0))
      (entered price (entered margin (Memo.empty, []))) :=
    .within rfl List.not_mem_nil (.within rfl hidle .here)
  obtain ⟨hleads, hdemands⟩ := disciplined hstart marginProgram
  refine ⟨hstart, _, hdemand, rfl, (hdemands _ _ _ hdemand).circular.2 ?_, rfl, hleads.pending,
    (hleads.sound.known margin 5).1 rfl, rfl⟩
  exact List.mem_cons_of_mem _ List.mem_cons_self

end Program

end ProForma
