import ProForma.Proofs.Memo
import ProForma.Proofs.Plan.Afresh

/-!
# Cells out of the memo

A cell may demand only accounts of lower rank in its period, so in a reviewed model no demand comes
back to a cell that is in progress. This needs nothing of the values in the memo. If these are what
the cells come to afresh, then so is every value that the memo is asked for.
-/

namespace ProForma.Computation

variable {ω α : Type} {good : Slot → Except (Fault α) α → Prop} {reach : Slot → Prop}

theorem parallel_yields_onlyDivides :
    Parallel fun (c _ : Computation ω α α) => c.Yields good reach Formula.OnlyDivides where
  pure x := yields_pure (Formula.onlyDivides_ok x)
  bind hc hnext := hc.bind (fun x _ => hnext x) fun _ h => h
  divide whole := yields_throw fun fault hfault => ⟨whole, by cases hfault; rfl⟩

theorem parallel_yields_eq :
    Parallel fun (c : Computation ω α α) (outcome : Except (Fault α) α) =>
      c.Yields good reach (· = outcome) where
  pure x := yields_pure rfl
  bind {c outcome next next'} hc hnext := by
    refine hc.bind (fun x hx => ?_) fun fault hfault => ?_
    · rw [← hx]
      exact hnext x
    · rw [← hfault]
      rfl
  divide whole := yields_throw rfl

end ProForma.Computation

namespace ProForma.Plan

open Chart ProForma.Computation

variable {α : Type} [Amount α] {plan : Plan α} {ledger : Ledger α} {position : Nat}
  {period : Period}

/-- The cells of the accounts of lower rank at a position. -/
def below (plan : Plan α) (position bound : Nat) (slot : Slot) : Prop :=
  slot.position = position ∧ rank plan.order slot.account < bound

/-- What is asked of the outcomes of accounts, asked of the cells at one position. -/
def atPosition (position : Nat) (good : AccountId → Except (Fault α) α → Prop) (slot : Slot)
    (outcome : Except (Fault α) α) : Prop :=
  slot.position = position → good slot.account outcome

/-- Whatever holds of an account if it holds of all accounts of lower rank holds of every cell. -/
theorem cell_yields {good : AccountId → Except (Fault α) α → Prop}
    (hgood : ∀ (read : AccountId → Filling α α) (id : AccountId),
      (∀ ref, rank plan.order ref < rank plan.order id →
        (read ref).Yields (atPosition position good) (plan.below position (rank plan.order id))
          (good ref)) →
      (plan.orCarried ledger position period id
          (plan.derive ledger position period read id)).Yields
        (atPosition position good) (plan.below position (rank plan.order id)) (good id))
    {fuel : Nat} {id : AccountId} (hfuel : rank plan.order id < fuel) :
    (plan.cell ledger position period fuel id).Yields (atPosition position good)
      (plan.below position (rank plan.order id + 1)) (good id) := by
  induction fuel generalizing id with
  | zero => omega
  | succ fuel ih =>
      -- The cell is in progress while lower ones are demanded, and is none of them.
      have hbelow : ∀ other, plan.below position (rank plan.order id) other →
          plan.below position (rank plan.order id + 1) other ∧ other ≠ ⟨id, position⟩ := by
        rintro other ⟨hposition, hrank⟩
        refine ⟨⟨hposition, by omega⟩, ?_⟩
        rintro rfl
        exact Nat.lt_irrefl _ hrank
      have hread : ∀ ref, rank plan.order ref < rank plan.order id →
          (plan.cell ledger position period fuel ref).Yields (atPosition position good)
            (plan.below position (rank plan.order id)) (good ref) := by
        intro ref href
        refine (ih (by omega)).mono ?_ fun _ h => h
        rintro other ⟨hposition, hrank⟩
        exact ⟨hposition, by omega⟩
      have hcompute := (hgood _ id hread).mono (fun _ h => h)
        fun _ h (_ : (position : Int) = position) => h
      unfold cell
      refine (yields_demand ?_ hbelow hcompute).mono (fun _ h => h) fun _ h => h rfl
      exact ⟨rfl, Nat.lt_succ_self _⟩

/-- Fuel for one step more than there are accounts is enough, and more makes no difference. -/
theorem cell_eq (hplan : plan.Reviewed) {fuel fuel' : Nat} {id : AccountId}
    (hfuel : rank plan.order id < fuel) (hfuel' : rank plan.order id < fuel') :
    plan.cell ledger position period fuel id = plan.cell ledger position period fuel' id := by
  induction fuel generalizing fuel' id with
  | zero => omega
  | succ fuel ih =>
      obtain ⟨fuel', rfl⟩ : ∃ n, fuel' = n + 1 := ⟨fuel' - 1, by omega⟩
      have hderive : plan.derive ledger position period (plan.cell ledger position period fuel) id =
          plan.derive ledger position period (plan.cell ledger position period fuel') id :=
        derive_congr hplan fun ref href => ih (by omega) (by omega)
      rw [cell, cell, hderive]

/-! ### Faults -/

/-- A fault that is left over: a division by zero that is not worked around. -/
def Escapes (plan : Plan α) (fault : Fault α) : Prop :=
  (∃ whole, fault = .divisionByZero whole) ∧ plan.isolates fault = false

omit [Amount α] in
theorem Escapes.ne_circular {fault : Fault α} (h : plan.Escapes fault) (id : AccountId) :
    fault ≠ .circular id := by
  obtain ⟨⟨whole, rfl⟩, -⟩ := h
  exact nofun

omit [Amount α] in
theorem Escapes.not_carriesForward {fault : Fault α} (h : plan.Escapes fault) :
    plan.settings.carriesForward = false := by
  obtain ⟨⟨whole, rfl⟩, hisolates⟩ := h
  simpa [isolates, Fault.isLocal] using hisolates

def Contained (plan : Plan α) (outcome : Except (Fault α) α) : Prop :=
  ∀ fault, outcome = .error fault → plan.Escapes fault

omit [Amount α] in
theorem contained_ok (x : α) : plan.Contained (.ok x) := by
  intro fault hfault
  cases hfault

theorem orCarried_contained {good : Slot → Except (Fault α) α → Prop} {reach : Slot → Prop}
    {computed : Filling α α} {id : AccountId} (h : computed.Yields good reach Formula.OnlyDivides) :
    (plan.orCarried ledger position period id computed).Yields good reach plan.Contained := by
  refine h.tryCatch (fun x _ => contained_ok x) fun fault honly => ?_
  split
  · exact (yields_note _).bind (fun _ _ => yields_pure (contained_ok _)) fun _ h => by cases h
  · rename_i hisolates
    refine yields_throw fun fault' hfault => ?_
    cases hfault
    exact ⟨honly fault rfl, by simpa using hisolates⟩

/-- A cell fails only by a division by zero that is not worked around, whatever the memo holds. -/
theorem cell_contained (hplan : plan.Reviewed) (ledger : Ledger α) (position : Nat)
    (period : Period) {fuel : Nat} {id : AccountId} (hfuel : rank plan.order id < fuel) :
    (plan.cell ledger position period fuel id).Yields
      (atPosition position fun _ => plan.Contained) (plan.below position (rank plan.order id + 1))
      plan.Contained := by
  refine cell_yields (fun read id hread => orCarried_contained ?_) hfuel
  refine derive_parallel parallel_yields_onlyDivides hplan ledger position period read read id ?_
  intro ref href
  exact (hread ref href).mono (fun _ h => h) fun _ h fault hfault => (h fault hfault).1

/-- Computing a cell comes back to no cell in progress and to an end, whatever the ledger and the
memo hold, if no cell of the period is in progress yet. Both an early return to a cell and a lack of
fuel would show as a circular dependency, and more fuel changes nothing. -/
def Grounded (plan : Plan α) : Prop :=
  ∀ (ledger : Ledger α) (position : Nat) (period : Period) (id : AccountId) (fuel : Nat)
    (memo : Memo α) (warnings : List (Warning α)),
    plan.chart.accounts.length < fuel → (∀ slot ∈ memo.pending, slot.position ≠ position) →
    plan.cell ledger position period fuel id =
        plan.cell ledger position period (plan.chart.accounts.length + 1) id ∧
      ∀ account,
        ((plan.cell ledger position period fuel id).run (memo, warnings)).1 ≠
          .error (.circular account)

theorem Reviewed.grounded (hplan : plan.Reviewed) : plan.Grounded := by
  intro ledger position period id fuel memo warnings hfuel hidle
  have hrank := rank_le hplan.order id
  refine ⟨cell_eq hplan (by omega) (by omega), fun account haccount => ?_⟩
  have hhonest : memo.Honest (atPosition position fun _ => plan.Contained) :=
    fun _ x _ _ => contained_ok x
  have hpending : ∀ slot ∈ memo.pending, ¬ plan.below position (rank plan.order id + 1) slot :=
    fun slot hslot hbelow => hidle slot hslot hbelow.1
  have hfuel : rank plan.order id < fuel := by omega
  obtain ⟨hcontained, -⟩ :=
    cell_contained hplan ledger position period hfuel memo warnings hhonest hpending
  exact (hcontained _ haccount).ne_circular account rfl

/-! ### Values -/

theorem orCarried_yields_eq {good : Slot → Except (Fault α) α → Prop} {reach : Slot → Prop}
    {computed : Filling α α} {outcome : Except (Fault α) α} {id : AccountId}
    (h : computed.Yields good reach (· = outcome)) :
    (plan.orCarried ledger position period id computed).Yields good reach
      (· = plan.orBefore ledger position id outcome) := by
  refine h.tryCatch (fun x hx => by rw [← hx]; rfl) fun fault hfault => ?_
  rw [← hfault]
  simp only [orBefore]
  split
  · exact (yields_note _).bind (fun _ _ => yields_pure rfl) fun _ h => by cases h
  · exact yields_throw rfl

/-- The values of the memo, if they are what the cells of the position come to afresh. -/
def afreshAt (plan : Plan α) (ledger : Ledger α) (position : Nat) (period : Period) :
    Slot → Except (Fault α) α → Prop :=
  atPosition position fun id outcome => outcome = plan.afresh ledger position period id

/-- A cell comes to what it comes to afresh. -/
theorem cell_yields_afresh (hplan : plan.Reviewed) (ledger : Ledger α) (position : Nat)
    (period : Period) {fuel : Nat} {id : AccountId} (hfuel : rank plan.order id < fuel) :
    (plan.cell ledger position period fuel id).Yields (plan.afreshAt ledger position period)
      (plan.below position (rank plan.order id + 1))
      (· = plan.afresh ledger position period id) := by
  refine cell_yields (fun read id hread => ?_) hfuel
  rw [afresh_eq hplan]
  exact orCarried_yields_eq
    (derive_parallel parallel_yields_eq hplan ledger position period read _ id hread)

/-- A value computed afresh fails only by a division by zero that is not worked around: it is what
the cell comes to over a memo that holds nothing. -/
theorem afresh_contained (hplan : plan.Reviewed) (id : AccountId) :
    plan.Contained (plan.afresh ledger position period id) := by
  have hfuel := Nat.lt_succ_of_le (rank_le hplan.order id)
  have hempty {good : Slot → Except (Fault α) α → Prop} : (Memo.empty : Memo α).Honest good := nofun
  obtain ⟨hvalue, -⟩ :=
    cell_yields_afresh hplan ledger position period hfuel Memo.empty [] hempty nofun
  obtain ⟨hcontained, -⟩ :=
    cell_contained hplan ledger position period hfuel Memo.empty [] hempty nofun
  rw [← hvalue]
  exact hcontained

end ProForma.Plan
