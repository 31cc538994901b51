import ProForma.Record.Account
import ProForma.Proofs.Record.Reader

/-!
Accounts, and what belongs to them, are read back from their records.
-/

namespace ProForma

open Record Record.Members

instance : LawfulTagged Operation := ⟨fun b => by cases b <;> rfl⟩
instance : LawfulTagged Nature := ⟨fun b => by cases b <;> rfl⟩
instance : LawfulTagged Activity := ⟨fun b => by cases b <;> rfl⟩
instance : LawfulTagged KeyLine := ⟨fun b => by cases b <;> rfl⟩
instance : LawfulTagged Rule := ⟨fun b => by cases b <;> rfl⟩

theorem AccountId.inverts (id : AccountId) : Inverts AccountId.read AccountId.toJson id := rfl

theorem Side.inverts (side : Side) : Inverts Side.read Side.toJson side := by
  cases side <;> rfl

/-- The lag fits the 32 bits of its record. -/
def Reference.Fits (r : Reference) : Prop :=
  r.lag < Nat.pow 2 32

instance Reference.decidableFits (r : Reference) : Decidable r.Fits := by
  unfold Reference.Fits; infer_instance

theorem Reference.inverts (depth : Depth) {r : Reference} (hr : r.Fits) :
    Inverts (Reference.readAt depth) Reference.toJson r := by
  refine record_object (by simp) fun ms has => ?_
  rw [required_eq_ok (AccountId.inverts r.account) (has "account_id" _ (by simp)),
    optional_eq_ok (inverts_wordAt depth r.operation) (has "operation" _ (by simp)),
    optional_eq_ok (inverts_natural hr) (has "lag" _ (by simp))]
  rfl

theorem Parameter.inverts (depth : Depth) {p : Parameter Float}
    (hp : ∀ r ∈ p.references, r.Fits) : Inverts (Parameter.readAt depth) Parameter.toJson p := by
  have hreferences := inverts_listOf fun r hr => Reference.inverts depth (hp r hr)
  refine record_object (by simp) fun ms has => ?_
  rw [optional_eq_ok (inverts_wordAt depth p.rule) (has "parameter_type" _ (by simp)),
    nullable_eq_ok p.rate inverts_amount nofun (has "value" _ (by simp)),
    optional_eq_ok hreferences (has "references" _ (by simp))]
  rfl

theorem Adjustment.inverts (a : Adjustment) : Inverts Adjustment.read Adjustment.toJson a := by
  refine record_object (by simp) fun ms has => ?_
  rw [required_eq_ok (AccountId.inverts a.target) (has "target_account_id" _ (by simp)),
    required_eq_ok (inverts_word a.operation) (has "operation" _ (by simp)),
    required_eq_ok (inverts_word a.activity) (has "cf_category" _ (by simp))]
  rfl

theorem Term.inverts (t : Term) : Inverts Term.read Term.toJson t := by
  refine record_object (by simp) fun ms has => ?_
  rw [required_eq_ok (AccountId.inverts t.account) (has "account_id" _ (by simp)),
    optional_eq_ok (inverts_wordAt .inner t.operation) (has "operation" _ (by simp))]
  rfl

theorem Term.isReadable_normalize (t : Term) : t.toJson.normalize.isReadable :=
  Json.isReadable_normalize_object (by simp)
    (by simp [AccountId.toJson, ofTagged, Json.normalize, Json.isReadable])

theorem Total.inverts (total : Total) : Inverts Total.read Total.toJson total := by
  cases total with
  | ofChildren =>
    refine tagged_object (by simp) (by simp [Json.normalize, Json.isReadable])
      List.mem_cons_self rfl fun rest _ _ => rfl
  | ofTerms terms =>
    have hterms := inverts_listOf fun t (_ : t ∈ terms) => Term.inverts t
    have hreadable : (Json.list (terms.map Term.toJson)).normalize.isReadable := by
      rw [Json.normalize_list, Json.isReadable_list]
      simp [Term.isReadable_normalize]
    refine tagged_object (by simp) (List.forall_mem_cons.2 ⟨rfl, List.forall_mem_singleton.2
      hreadable⟩) List.mem_cons_self rfl fun rest hnodup hrest => ?_
    refine record_of_mem hnodup fun ms has => ?_
    rw [required_eq_ok hterms (has "terms" _ (hrest "terms" _ (by simp) (by decide)))]
    rfl

theorem Relation.inverts (relation : Relation) :
    Inverts Relation.read Relation.toJson relation := by
  cases relation with
  | fixedAsset investment depreciation =>
    refine tagged_object (by simp) (by simp [AccountId.toJson, Json.normalize, Json.isReadable])
      List.mem_cons_self rfl fun rest hnodup hrest => ?_
    refine record_of_mem hnodup fun ms has => ?_
    rw [required_eq_ok (AccountId.inverts investment)
        (has _ _ (hrest "investment_account_id" _ (by simp) (by decide))),
      required_eq_ok (AccountId.inverts depreciation)
        (has _ _ (hrest "depreciation_account_id" _ (by simp) (by decide)))]
    rfl
  | retainedEarnings profit =>
    refine tagged_object (by simp) (by simp [AccountId.toJson, Json.normalize, Json.isReadable])
      List.mem_cons_self rfl fun rest hnodup hrest => ?_
    refine record_of_mem hnodup fun ms has => ?_
    rw [required_eq_ok (AccountId.inverts profit)
      (has _ _ (hrest "profit_account_id" _ (by simp) (by decide)))]
    rfl

theorem Account.inverts {a : Account Float} (ha : ∀ r ∈ a.parameter.references, r.Fits) :
    Inverts Account.read Account.toJson a := by
  have hparameter : Inverts Parameter.read Parameter.toJson a.parameter :=
    Parameter.inverts .outer ha
  refine record_object (by simp) fun ms has => ?_
  rw [required_eq_ok (AccountId.inverts a.id) (has "id" _ (by simp)),
    required_eq_ok (inverts_string a.name) (has "name" _ (by simp)),
    required_eq_ok (inverts_word a.nature) (has "behavior" _ (by simp)),
    nullable_eq_ok a.parent AccountId.inverts nofun (has "parent_id" _ (by simp)),
    nullable_eq_ok a.total Total.inverts nofun (has "aggregation" _ (by simp)),
    nullable_eq_ok a.key inverts_word nofun (has "key" _ (by simp)),
    optional_eq_ok hparameter (has "parameter" _ (by simp)),
    nullable_eq_ok a.side Side.inverts nofun (has "is_credit" _ (by simp)),
    optional_eq_ok (inverts_flag a.isCashFlowItem) (has "is_cf_item" _ (by simp)),
    nullable_eq_ok a.adjustment Adjustment.inverts nofun (has "cf_adjustment" _ (by simp)),
    optional_eq_ok (inverts_flag a.isBaseProfit) (has "base_profit" _ (by simp)),
    optional_eq_ok (inverts_flag a.feedsCashFlow) (has "generates_cf_item" _ (by simp)),
    nullable_eq_ok a.relation Relation.inverts nofun (has "relation" _ (by simp))]
  rfl

end ProForma
