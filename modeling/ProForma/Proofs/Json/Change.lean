import ProForma.Proofs.Json.Normal
import ProForma.Proofs.Outcome
import ProForma.Snapshot

/-!
Changing the members of a name. A change that fails at the member that is found fails as a whole,
and in a sorted object that is all there is to it. Objects that differ in the values of one name are
changed alike if the change makes no difference between those values.
-/

namespace ProForma.Json

variable {key name : String} {related : Json → Json → Prop} {j j' : Json}
  {members members' sorted sorted' : List (String × Json)}

/-! ### Changing members -/

variable {ε : Type} {change : Json → Except ε Json} {member : String × Json}

/-- Members of one key. If that is the name their values are related, and otherwise the same. -/
inductive MemberAlike (name : String) (related : Json → Json → Prop) :
    String × Json → String × Json → Prop where
  | named {value value' : Json} : related value value' →
    MemberAlike name related (name, value) (name, value')
  | other {key : String} (value : Json) : key ≠ name →
    MemberAlike name related (key, value) (key, value)

theorem MemberAlike.key_eq {a b : String × Json} (h : MemberAlike name related a b) :
    a.1 = b.1 := by
  cases h with
  | named => rfl
  | other => rfl

/-- Objects with the same members, but for the values of those with a name, which are related. -/
inductive AlikeAt (name : String) (related : Json → Json → Prop) : Json → Json → Prop where
  | same (j : Json) : AlikeAt name related j j
  | members {members members' : List (String × Json)} :
    List.Forall₂ (MemberAlike name related) members members' →
    AlikeAt name related (.object members) (.object members')

/-- Lists of related items. -/
inductive AlikeItems (related : Json → Json → Prop) : Json → Json → Prop where
  | same (j : Json) : AlikeItems related j j
  | items {items items' : List Json} :
    List.Forall₂ related items items' → AlikeItems related (.list items) (.list items')

theorem forall₂_insertMember {value value' : Json}
    (hvalue : MemberAlike name related (key, value) (key, value'))
    (h : List.Forall₂ (MemberAlike name related) members members') :
    List.Forall₂ (MemberAlike name related) (insertMember key value members)
      (insertMember key value' members') := by
  induction h with
  | nil => exact .cons hvalue .nil
  | @cons entry entry' members members' hentry hrest ih =>
      obtain ⟨k, v⟩ := entry
      obtain ⟨k', v'⟩ := entry'
      obtain rfl : k = k' := hentry.key_eq
      unfold insertMember
      split
      · exact .cons hvalue (.cons hentry hrest)
      · split
        · exact .cons hvalue hrest
        · exact .cons hentry ih

theorem forall₂_normalizeMembers (hrelated : ∀ a b, related a b → related a.normalize b.normalize)
    (hsorted : List.Forall₂ (MemberAlike name related) sorted sorted')
    (h : List.Forall₂ (MemberAlike name related) members members') :
    List.Forall₂ (MemberAlike name related) (normalizeMembers sorted members)
      (normalizeMembers sorted' members') := by
  induction h generalizing sorted sorted' with
  | nil => exact hsorted
  | cons hentry _ ih =>
      cases hentry with
      | named hvalue => exact ih (forall₂_insertMember (.named (hrelated _ _ hvalue)) hsorted)
      | other value hne => exact ih (forall₂_insertMember (.other _ hne) hsorted)

theorem AlikeAt.normalize (hrelated : ∀ a b, related a b → related a.normalize b.normalize)
    (h : AlikeAt name related j j') : AlikeAt name related j.normalize j'.normalize := by
  cases h with
  | same => exact .same _
  | members h => exact .members (forall₂_normalizeMembers hrelated .nil h)

theorem AlikeItems.normalize (hrelated : ∀ a b, related a b → related a.normalize b.normalize)
    (h : AlikeItems related j j') : AlikeItems related j.normalize j'.normalize := by
  cases h with
  | same => exact .same _
  | items h =>
      rw [normalize_list, normalize_list]
      refine .items (List.forall₂_map_left_iff.2 (List.forall₂_map_right_iff.2 ?_))
      exact h.imp hrelated

end ProForma.Json
