import ProForma.Record.Reader
import ProForma.Proofs.Json.Normal
import ProForma.Proofs.Outcome

/-!
Reading what was written: a reader inverts a writer where it gives a value back from its record,
in whatever order the members of the record stand.
-/

namespace ProForma

/-- The words of a type tell its values apart. -/
class LawfulTagged (β : Type) [Tagged β] : Prop where
  ofTag?_tag : ∀ b : β, Tagged.ofTag? (Tagged.tag b) = some b

namespace Record

variable {β : Type}

/-- A value is read back from its record once the members are sorted. -/
def Inverts (read : Read β) (write : β → Json) (b : β) : Prop :=
  read (write b).normalize = .ok b

/-! ### Values -/

theorem inverts_wordAt [Tagged β] [LawfulTagged β] (depth : Depth) (b : β) :
    Inverts (wordAt depth) ofTagged b := by
  have hword : wordOf (Tagged.tag b) = .ok b := by
    rw [wordOf, LawfulTagged.ofTag?_tag]
  exact hword

theorem inverts_string (s : String) : Inverts string .text s := rfl

theorem inverts_flag (b : Bool) : Inverts flag .bool b := rfl

theorem inverts_amount (x : Float) : Inverts amount .real x := rfl

theorem inverts_integer {least greatest n : Int} (hn : least ≤ n ∧ n ≤ greatest) :
    Inverts (integer least greatest) .integer n :=
  if_pos hn

theorem inverts_natural {bits n : Nat} (hn : n < Nat.pow 2 bits) :
    Inverts (natural bits) (fun n => .integer n) n := by
  have hfits : (n : Int) ≤ Int.ofNat (Nat.pow 2 bits) - 1 := by
    have : ((n + 1 : Nat) : Int) ≤ Int.ofNat (Nat.pow 2 bits) := Int.ofNat_le.2 hn
    omega
  exact bind_eq_ok.2 ⟨n, inverts_integer ⟨Int.natCast_nonneg n, hfits⟩, rfl⟩

theorem inverts_word [Tagged β] [LawfulTagged β] (b : β) : Inverts word ofTagged b :=
  inverts_wordAt .outer b

theorem inverts_nullable {read : Read β} {write : β → Json} (hread : ∀ b, Inverts read write b)
    (hnull : ∀ b, (write b).normalize ≠ .null) (o : Option β) :
    Inverts (nullable read) (ofOption write) o := by
  cases o with
  | none => rfl
  | some b =>
    have hb := hread b
    have hne := hnull b
    unfold Inverts at hb ⊢
    rw [ofOption]
    generalize (write b).normalize = j at hb hne
    cases j with
    | null => exact absurd rfl hne
    | _ => exact bind_eq_ok.2 ⟨b, hb, rfl⟩

theorem inverts_listOf {read : Read β} {write : β → Json} {xs : List β}
    (h : ∀ x ∈ xs, Inverts read write x) :
    Inverts (listOf read) (fun xs => .list (xs.map write)) xs := by
  unfold Inverts
  rw [Json.normalize_list, listOf, List.map_map]
  exact mapM_map_eq_ok h

/-! ### Fields -/

/-- Of members with keys of their own, one has a key that is there. -/
theorem filter_key_eq_singleton {members : List (String × Json)} {name : String} {j : Json}
    (hnodup : (members.map Prod.fst).Nodup) (hj : (name, j) ∈ members) :
    members.filter (·.1 = name) = [(name, j)] := by
  induction members with
  | nil => cases hj
  | cons member members ih =>
    obtain ⟨hfresh, hrest⟩ := List.nodup_cons.1 hnodup
    rcases List.mem_cons.1 hj with rfl | hj
    · have hnone : ∀ other ∈ members, other.1 ≠ name := fun other hother heq =>
        hfresh (List.mem_map.2 ⟨other, hother, heq⟩)
      simpa [List.filter_eq_nil_iff] using hnone
    · have hne : member.1 ≠ name := fun heq =>
        hfresh (List.mem_map.2 ⟨(name, j), hj, heq.symm⟩)
      rw [List.filter_cons_of_neg (by simpa using hne), ih hrest hj]

/-- A member is there, and there once. -/
def Members.Has (ms : Members) (name : String) (j : Json) : Prop :=
  ∃ place, ms.named name = [(place, j)]

namespace Members

variable {ms : Members} {name : String} {j : Json} {read : Read β} {write : β → Json} {b : β}

theorem field_eq_ok (absent : Reading β) (hb : Inverts read write b)
    (hj : ms.Has name (write b).normalize) : ms.field name read absent = pure b := by
  obtain ⟨place, hnamed⟩ := hj
  have hread : read (write b).normalize = .ok b := hb
  simp only [field, hnamed, hread]
  rfl

theorem required_eq_ok (hb : Inverts read write b) (hj : ms.Has name (write b).normalize) :
    ms.required name read = pure b :=
  field_eq_ok _ hb hj

theorem optional_eq_ok {fallback : β} (hb : Inverts read write b)
    (hj : ms.Has name (write b).normalize) : ms.optional name read fallback = pure b :=
  field_eq_ok _ hb hj

theorem nullable_eq_ok (o : Option β) (hread : ∀ b, Inverts read write b)
    (hnull : ∀ b, (write b).normalize ≠ .null) (hj : ms.Has name (ofOption write o).normalize) :
    ms.nullable name read = pure o :=
  field_eq_ok _ (inverts_nullable hread hnull o) hj

theorem map_snd_named (ms : Members) (name : String) :
    (ms.named name).map Prod.snd = (ms.entries.filter (·.1 = name)).map Prod.snd := by
  have hfrom : ∀ (entries : List (String × Json)) (k : Nat),
      ((entries.zipIdx k).filterMap fun entry =>
        if entry.1.1 = name then some (entry.2, entry.1.2) else none).map Prod.snd =
          (entries.filter (·.1 = name)).map Prod.snd := by
    intro entries
    induction entries with
    | nil => exact fun _ => rfl
    | cons entry entries ih =>
      intro k
      by_cases h : entry.1 = name <;> simp [List.zipIdx_cons, h, ih (k + 1)]
  exact hfrom ms.entries 0

theorem has_of_mem (hnodup : (ms.entries.map Prod.fst).Nodup) (hj : (name, j) ∈ ms.entries) :
    ms.Has name j := by
  have hnamed := map_snd_named ms name
  rw [filter_key_eq_singleton hnodup hj, List.map_singleton] at hnamed
  obtain ⟨⟨place, _⟩, hsingle, rfl⟩ := List.map_eq_singleton_iff.1 hnamed
  exact ⟨place, hsingle⟩

end Members

/-! ### Records -/

section

variable {members : List (String × Json)} {b : β}

/-- A record is read from fields that are there, wherever they stand. -/
theorem record_of_mem {names : List String} {fields : Members → Reading β}
    (hnodup : (members.map Prod.fst).Nodup)
    (h : ∀ ms : Members, (∀ name j, (name, j) ∈ members → ms.Has name j) → fields ms = pure b) :
    record names fields (.object members) = .ok b := by
  rw [record, h ⟨members, false⟩ fun name j hj => Members.has_of_mem hnodup hj]
  rfl

/-- A record is read back if its fields are. -/
theorem record_object {names : List String} {fields : Members → Reading β}
    (hnodup : (members.map Prod.fst).Nodup)
    (h : ∀ ms : Members, (∀ name j, (name, j) ∈ members → ms.Has name j.normalize) →
      fields ms = pure b) :
    record names fields (Json.object members).normalize = .ok b := by
  obtain ⟨sorted, hsorted, hkeys, hmem⟩ := Json.normalize_object hnodup
  rw [hsorted]
  exact record_of_mem hkeys fun ms hms => h ms fun name j hj =>
    hms name j.normalize ((hmem name _).2 ⟨j, hj, rfl⟩)

/-- A record of one of several kinds is read back by the reader of its kind. -/
theorem tagged_object {tag kind : String} {variants : List (String × Read β)} {read : Read β}
    (hnodup : (members.map Prod.fst).Nodup)
    (hreadable : ∀ member ∈ members, member.2.normalize.isReadable)
    (hkind : (tag, .text kind) ∈ members) (hread : variants.lookup kind = some read)
    (h : ∀ rest : List (String × Json), (rest.map Prod.fst).Nodup →
      (∀ name j, (name, j) ∈ members → name ≠ tag → (name, j.normalize) ∈ rest) →
        read (.object rest) = .ok b) :
    tagged tag variants (Json.object members).normalize = .ok b := by
  obtain ⟨sorted, hsorted, hkeys, hmem⟩ := Json.normalize_object hnodup
  have hsortedReadable := Json.isReadable_normalize_object hnodup hreadable
  have hvariant : variant variants (.text kind) = .ok read := by
    rw [variant, hread]
  -- The kind is taken out of the record, and the rest is read by the reader of the kind.
  rw [hsorted] at hsortedReadable ⊢
  rw [tagged, if_pos hsortedReadable]
  simp only [filter_key_eq_singleton hkeys ((hmem tag _).2 ⟨_, hkind, rfl⟩)]
  refine bind_eq_ok.2 ⟨read, hvariant, h _ ?_ fun name j hj hname => ?_⟩
  · exact hkeys.sublist (List.filter_sublist.map Prod.fst)
  · exact List.mem_filter.2 ⟨(hmem name _).2 ⟨j, hj, rfl⟩, by simpa using hname⟩

end

end Record

end ProForma
