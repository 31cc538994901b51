import ProForma.Memo.Basic
import ProForma.Proofs.Outcome

/-!
# Computations over a memo

What a computation comes to when the values in the memo are known to be good: it may demand the
cells within its reach, none of which is being computed already, and it leaves behind good values,
the cells in progress that it found, and what the memo holds beyond its reach.
-/

namespace ProForma

variable {ω α β γ : Type} {good : Slot → Except (Fault α) α → Prop} {reach : Slot → Prop}

/-- The values of a memo are good ones for their cells. -/
def Memo.Honest (good : Slot → Except (Fault α) α → Prop) (memo : Memo α) : Prop :=
  ∀ slot x, memo.value? slot = some x → good slot (.ok x)

/-- What a computation with a reach may do to a memo. -/
structure Memo.Becomes (good : Slot → Except (Fault α) α → Prop) (reach : Slot → Prop)
    (memo memo' : Memo α) : Prop where
  honest : memo'.Honest good
  pending : memo'.pending = memo.pending
  beyond : ∀ slot, ¬ reach slot → memo'.value? slot = memo.value? slot

/-- From a good memo in which nothing within reach is in progress, the outcome is as said. -/
def Computation.Yields (good : Slot → Except (Fault α) α → Prop) (reach : Slot → Prop)
    (c : Computation ω α β) (post : Except (Fault α) β → Prop) : Prop :=
  ∀ (memo : Memo α) (record : ω), memo.Honest good → (∀ slot ∈ memo.pending, ¬ reach slot) →
    post (c.run (memo, record)).1 ∧ memo.Becomes good reach (c.run (memo, record)).2.1

namespace Memo

variable {memo : Memo α}

theorem becomes_refl (hhonest : memo.Honest good) : memo.Becomes good reach memo :=
  ⟨hhonest, rfl, fun _ _ => rfl⟩

theorem Becomes.trans {memo' memo'' : Memo α} (h : memo.Becomes good reach memo')
    (h' : memo'.Becomes good reach memo'') : memo.Becomes good reach memo'' where
  honest := h'.honest
  pending := by rw [h'.pending, h.pending]
  beyond slot hslot := by rw [h'.beyond slot hslot, h.beyond slot hslot]

theorem value?_learn (memo : Memo α) (slot other : Slot) (x : α) :
    (memo.learn slot x).value? other = if other = slot then some x else memo.value? other := by
  unfold value? learn
  rw [List.lookup_cons]
  by_cases h : other = slot
  · simp [h]
  · simp [beq_eq_false_iff_ne.2 h, h]

end Memo

namespace Computation

open Memo

variable {c : Computation ω α β} {post : Except (Fault α) β → Prop}

theorem yields_pure {x : β} (h : post (.ok x)) :
    (pure x : Computation ω α β).Yields good reach post :=
  fun _ _ hhonest _ => ⟨h, becomes_refl hhonest⟩

theorem yields_throw {fault : Fault α} (h : post (.error fault)) :
    (throw fault : Computation ω α β).Yields good reach post :=
  fun _ _ hhonest _ => ⟨h, becomes_refl hhonest⟩

theorem yields_note (update : ω → ω) :
    (Memo.note update : Computation ω α Unit).Yields good reach (· = .ok ()) :=
  fun _ _ hhonest _ => ⟨rfl, becomes_refl hhonest⟩

/-- A computation that reaches less and comes to more. -/
theorem Yields.mono {reach' : Slot → Prop} {post' : Except (Fault α) β → Prop}
    (h : c.Yields good reach' post') (hreach : ∀ slot, reach' slot → reach slot)
    (hpost : ∀ outcome, post' outcome → post outcome) : c.Yields good reach post := by
  intro memo record hhonest hpending
  have hpending' : ∀ slot ∈ memo.pending, ¬ reach' slot := fun slot hslot hreached =>
    hpending slot hslot (hreach slot hreached)
  obtain ⟨hresult, hbecomes⟩ := h memo record hhonest hpending'
  refine ⟨hpost _ hresult, hbecomes.honest, hbecomes.pending, fun slot hslot => ?_⟩
  exact hbecomes.beyond slot fun hreached => hslot (hreach slot hreached)

theorem Yields.bind {next : β → Computation ω α γ} {post' : Except (Fault α) γ → Prop}
    (hc : c.Yields good reach post) (hnext : ∀ x, post (.ok x) → (next x).Yields good reach post')
    (hfault : ∀ fault, post (.error fault) → post' (.error fault)) :
    (c >>= next).Yields good reach post' := by
  intro memo record hhonest hpending
  obtain ⟨hresult, hbecomes⟩ := hc memo record hhonest hpending
  rw [run_bind]
  rcases hrun : c.run (memo, record) with ⟨fault | x, memo', record'⟩ <;>
    rw [hrun] at hresult hbecomes
  · exact ⟨hfault fault hresult, hbecomes⟩
  · have hpending' : ∀ slot ∈ memo'.pending, ¬ reach slot := hbecomes.pending ▸ hpending
    obtain ⟨hresult', hbecomes'⟩ := hnext x hresult memo' record' hbecomes.honest hpending'
    exact ⟨hresult', hbecomes.trans hbecomes'⟩

theorem Yields.tryCatch {handle : Fault α → Computation ω α β} {post' : Except (Fault α) β → Prop}
    (hc : c.Yields good reach post') (hok : ∀ x, post' (.ok x) → post (.ok x))
    (hhandle : ∀ fault, post' (.error fault) → (handle fault).Yields good reach post) :
    (tryCatch c handle).Yields good reach post := by
  intro memo record hhonest hpending
  obtain ⟨hresult, hbecomes⟩ := hc memo record hhonest hpending
  rw [run_tryCatch]
  rcases hrun : c.run (memo, record) with ⟨fault | x, memo', record'⟩ <;>
    rw [hrun] at hresult hbecomes
  · have hpending' : ∀ slot ∈ memo'.pending, ¬ reach slot := hbecomes.pending ▸ hpending
    obtain ⟨hresult', hbecomes'⟩ := hhandle fault hresult memo' record' hbecomes.honest hpending'
    exact ⟨hresult', hbecomes.trans hbecomes'⟩
  · exact ⟨hok x hresult, hbecomes⟩

/-- A demand for a cell is answered well if the cell is computed well by a computation that reaches
less: the cell itself is in progress meanwhile. -/
theorem yields_demand {slot : Slot} {compute : Computation ω α α} {below : Slot → Prop}
    (hslot : reach slot) (hbelow : ∀ other, below other → reach other ∧ other ≠ slot)
    (hcompute : compute.Yields good below (good slot)) :
    (Memo.demand slot compute).Yields good reach (good slot) := by
  intro memo record hhonest hpending
  have hidle : slot ∉ memo.pending := fun hmem => hpending slot hmem hslot
  have hstarted : ∀ other ∈ (memo.start slot).pending, ¬ below other := by
    intro other hother hreached
    rcases List.mem_cons.1 hother with rfl | hother
    · exact (hbelow other hreached).2 rfl
    · exact hpending other hother (hbelow other hreached).1
  obtain ⟨hresult, hbecomes⟩ := hcompute (memo.start slot) record hhonest hstarted
  have hstopped : ((compute.run (memo.start slot, record)).2.1.stop slot).pending =
      memo.pending := by
    change (compute.run (memo.start slot, record)).2.1.pending.erase slot = memo.pending
    rw [hbecomes.pending]
    exact List.erase_cons_head slot memo.pending
  have hbeyond : ∀ other, ¬ reach other →
      (compute.run (memo.start slot, record)).2.1.value? other = memo.value? other :=
    fun other hother => hbecomes.beyond other fun hreached => hother (hbelow other hreached).1
  unfold Memo.demand
  rw [ExceptT.run_mk]
  dsimp only
  cases hvalue : memo.value? slot with
  | some x => exact ⟨hhonest slot x hvalue, becomes_refl hhonest⟩
  | none =>
      dsimp only
      rw [if_neg hidle]
      rcases hrun : compute.run (memo.start slot, record) with ⟨fault | x, memo', record'⟩ <;>
        rw [hrun] at hresult hbecomes hstopped hbeyond
      · exact ⟨hresult, hbecomes.honest, hstopped, hbeyond⟩
      · refine ⟨hresult, fun other y hy => ?_, hstopped, fun other hother => ?_⟩
        · rw [value?_learn] at hy
          split at hy
          · rename_i hsame
            cases hy
            rw [hsame]
            exact hresult
          · exact hbecomes.honest other y hy
        · have hne : other ≠ slot := fun hsame => hother (hsame ▸ hslot)
          rw [value?_learn, if_neg hne]
          exact hbeyond other hother

end Computation

end ProForma
