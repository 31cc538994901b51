import ProForma.Record.Model

/-!
How deep the records of a model are nested. The references of a parameter are among the innermost:
they stand in a list, in the record of a parameter, in the record of an account, in a list, in the
record of the model.
-/

namespace ProForma

open Record

theorem Json.depth_list_le {items : List Json} {n : Nat} :
    (Json.list items).depth ≤ n + 1 ↔ ∀ item ∈ items, item.depth ≤ n := by
  rw [depth, Nat.add_le_add_iff_right]
  induction items with
  | nil => simp [itemsDepth]
  | cons item items ih => rw [itemsDepth, Nat.max_le, ih, List.forall_mem_cons]

theorem Json.depth_object_le {members : List (String × Json)} {n : Nat} :
    (Json.object members).depth ≤ n + 1 ↔ ∀ member ∈ members, member.2.depth ≤ n := by
  rw [depth, Nat.add_le_add_iff_right]
  induction members with
  | nil => simp [membersDepth]
  | cons member members ih => rw [membersDepth, Nat.max_le, ih, List.forall_mem_cons]

theorem Record.depth_ofOption_le {β : Type} {write : β → Json} {n : Nat}
    (h : ∀ b, (write b).depth ≤ n) (o : Option β) : (ofOption write o).depth ≤ n := by
  cases o with
  | none => exact Nat.zero_le n
  | some b => exact h b

theorem Record.depth_list_map_le {β : Type} {write : β → Json} {n : Nat}
    (h : ∀ b, (write b).depth ≤ n) (xs : List β) : (Json.list (xs.map write)).depth ≤ n + 1 :=
  Json.depth_list_le.2 (List.forall_mem_map.2 fun b _ => h b)

theorem Reference.depth_toJson_le (r : Reference) : r.toJson.depth ≤ 1 :=
  Nat.le_refl 1

theorem Parameter.depth_toJson_le (p : Parameter Float) : p.toJson.depth ≤ 3 := by
  have hrate : (ofOption Json.real p.rate).depth ≤ 2 :=
    depth_ofOption_le (fun _ => Nat.zero_le 2) p.rate
  have hreferences := depth_list_map_le Reference.depth_toJson_le p.references
  rw [toJson, Json.depth_object_le]
  simp only [List.forall_mem_cons]
  exact ⟨Nat.zero_le 2, hrate, hreferences, nofun⟩

theorem Total.depth_toJson_le (total : Total) : total.toJson.depth ≤ 3 := by
  cases total with
  | ofChildren => decide
  | ofTerms terms =>
      have hterms : (Json.list (terms.map Term.toJson)).depth ≤ 2 :=
        depth_list_map_le (fun _ => Nat.le_refl 1) terms
      rw [toJson, Json.depth_object_le]
      simp only [List.forall_mem_cons]
      exact ⟨Nat.zero_le 2, hterms, nofun⟩

theorem Relation.depth_toJson_le (relation : Relation) : relation.toJson.depth ≤ 1 := by
  cases relation <;> exact Nat.le_refl 1

theorem Account.depth_toJson_le (a : Account Float) : a.toJson.depth ≤ 4 := by
  have hparent : (ofOption AccountId.toJson a.parent).depth ≤ 3 :=
    depth_ofOption_le (fun _ => Nat.zero_le 3) a.parent
  have htotal := depth_ofOption_le Total.depth_toJson_le a.total
  have hkey : (ofOption ofTagged a.key).depth ≤ 3 :=
    depth_ofOption_le (fun _ => Nat.zero_le 3) a.key
  have hside : (ofOption Side.toJson a.side).depth ≤ 3 :=
    depth_ofOption_le (fun _ => Nat.zero_le 3) a.side
  have hadjustment : (ofOption Adjustment.toJson a.adjustment).depth ≤ 3 :=
    depth_ofOption_le (fun _ => Nat.le_add_left 1 2) a.adjustment
  have hrelation : (ofOption Relation.toJson a.relation).depth ≤ 3 :=
    depth_ofOption_le (fun r => Nat.le_trans r.depth_toJson_le (by decide)) a.relation
  rw [toJson, Json.depth_object_le]
  simp only [List.forall_mem_cons]
  exact ⟨Nat.zero_le 3, Nat.zero_le 3, Nat.zero_le 3, hparent, htotal, hkey,
    a.parameter.depth_toJson_le, hside, Nat.zero_le 3, hadjustment, Nat.zero_le 3, Nat.zero_le 3,
    hrelation, nofun⟩

theorem Period.depth_toJson_le (p : Period) : p.toJson.depth ≤ 1 := by
  have hfinish : (ofOption Date.toJson p.finish).depth ≤ 0 :=
    depth_ofOption_le (fun _ => Nat.le_refl 0) p.finish
  rw [toJson, Json.depth_object_le]
  simp only [List.forall_mem_cons]
  exact ⟨Nat.le_refl 0, Nat.le_refl 0, Nat.le_refl 0, hfinish, Nat.le_refl 0, Nat.le_refl 0, nofun⟩

theorem Model.depth_toJson_le (m : Model Float) : m.toJson.depth ≤ 6 := by
  have haccounts := depth_list_map_le Account.depth_toJson_le m.accounts
  have hperiods := depth_list_map_le Period.depth_toJson_le m.periods
  have hledger : m.ledger.toJson.depth ≤ 2 :=
    depth_list_map_le (fun _ => Nat.le_refl 1) m.ledger.toPostings
  rw [toJson, Json.depth_object_le]
  simp only [List.forall_mem_cons]
  exact ⟨Nat.zero_le 5, haccounts, Nat.le_trans hperiods (by decide),
    Nat.le_trans hledger (by decide), Nat.le_add_left 1 4, nofun⟩

end ProForma
