import ProForma.Record.Reader

/-!
Records of accounts and of what belongs to them.
-/

namespace ProForma

open Record

def AccountId.read : Read AccountId := fun j => do
  pure ⟨← string j⟩

def AccountId.toJson (id : AccountId) : Json :=
  .text id.text

def PeriodId.read : Read PeriodId := fun j => do
  pure ⟨← string j⟩

def PeriodId.toJson (id : PeriodId) : Json :=
  .text id.text

/-- Credit is true, debit is false. -/
def Side.read : Read Side := fun j => do
  pure (if ← flag j then .credit else .debit)

def Side.toJson (side : Side) : Json :=
  .bool (side = .credit)

def Reference.readAt (depth : Depth) : Read Reference :=
  record ["account_id", "operation", "lag"] fun ms =>
    Reference.mk
      <$> ms.required "account_id" AccountId.read
      <*> ms.optional "operation" (wordAt depth) .add
      <*> ms.optional "lag" (natural 32) 0

def Reference.read : Read Reference :=
  readAt .outer

def Reference.toJson (r : Reference) : Json :=
  .object [("account_id", r.account.toJson), ("operation", ofTagged r.operation),
    ("lag", .integer r.lag)]

def Parameter.readAt (depth : Depth) : Read (Parameter Float) :=
  record ["parameter_type", "value", "references"] fun ms =>
    Parameter.mk
      <$> ms.optional "parameter_type" (wordAt depth) .none
      <*> ms.nullable "value" amount
      <*> ms.optional "references" (listOf (Reference.readAt depth)) []

def Parameter.read : Read (Parameter Float) :=
  readAt .outer

def Parameter.toJson (p : Parameter Float) : Json :=
  .object [("parameter_type", ofTagged p.rule), ("value", ofOption .real p.rate),
    ("references", .list (p.references.map Reference.toJson))]

def Adjustment.read : Read Adjustment :=
  record ["target_account_id", "operation", "cf_category"] fun ms =>
    Adjustment.mk
      <$> ms.required "target_account_id" AccountId.read
      <*> ms.required "operation" word
      <*> ms.required "cf_category" word

def Adjustment.toJson (a : Adjustment) : Json :=
  .object [("target_account_id", a.target.toJson), ("operation", ofTagged a.operation),
    ("cf_category", ofTagged a.activity)]

/-- Reads a term, which is always part of a total. -/
def Term.read : Read Term :=
  record ["account_id", "operation"] fun ms =>
    Term.mk
      <$> ms.required "account_id" AccountId.read
      <*> ms.optional "operation" (wordAt .inner) .add

def Term.toJson (t : Term) : Json :=
  .object [("account_id", t.account.toJson), ("operation", ofTagged t.operation)]

def Total.read : Read Total :=
  tagged "kind"
    [("CHILDREN_SUM", bare .ofChildren),
      ("FORMULA", record ["terms"] fun ms => .ofTerms <$> ms.required "terms" (listOf Term.read))]

def Total.toJson : Total → Json
  | .ofChildren => .object [("kind", .text "CHILDREN_SUM")]
  | .ofTerms terms => .object [("kind", .text "FORMULA"), ("terms", .list (terms.map Term.toJson))]

def Relation.read : Read Relation :=
  tagged "kind"
    [("PPE", record ["investment_account_id", "depreciation_account_id"] fun ms =>
        .fixedAsset <$> ms.required "investment_account_id" AccountId.read
          <*> ms.required "depreciation_account_id" AccountId.read),
      ("RETAINED_EARNINGS", record ["profit_account_id"] fun ms =>
        .retainedEarnings <$> ms.required "profit_account_id" AccountId.read)]

def Relation.toJson : Relation → Json
  | .fixedAsset investment depreciation =>
    .object [("kind", .text "PPE"), ("investment_account_id", investment.toJson),
      ("depreciation_account_id", depreciation.toJson)]
  | .retainedEarnings profit =>
    .object [("kind", .text "RETAINED_EARNINGS"), ("profit_account_id", profit.toJson)]

namespace Account

def fieldNames : List String :=
  ["id", "name", "behavior", "parent_id", "aggregation", "key", "parameter", "is_credit",
    "is_cf_item", "cf_adjustment", "base_profit", "generates_cf_item", "relation"]

def read : Read (Account Float) :=
  record fieldNames fun ms =>
    Account.mk
      <$> ms.required "id" AccountId.read
      <*> ms.required "name" string
      <*> ms.required "behavior" word
      <*> ms.nullable "parent_id" AccountId.read
      <*> ms.nullable "aggregation" Total.read
      <*> ms.nullable "key" word
      <*> ms.optional "parameter" Parameter.read .none
      <*> ms.nullable "is_credit" Side.read
      <*> ms.optional "is_cf_item" flag false
      <*> ms.nullable "cf_adjustment" Adjustment.read
      <*> ms.optional "base_profit" flag false
      <*> ms.optional "generates_cf_item" flag false
      <*> ms.nullable "relation" Relation.read

def toJson (a : Account Float) : Json :=
  .object
    [("id", a.id.toJson), ("name", .text a.name), ("behavior", ofTagged a.nature),
      ("parent_id", ofOption AccountId.toJson a.parent),
      ("aggregation", ofOption Total.toJson a.total), ("key", ofOption ofTagged a.key),
      ("parameter", a.parameter.toJson), ("is_credit", ofOption Side.toJson a.side),
      ("is_cf_item", .bool a.isCashFlowItem),
      ("cf_adjustment", ofOption Adjustment.toJson a.adjustment),
      ("base_profit", .bool a.isBaseProfit), ("generates_cf_item", .bool a.feedsCashFlow),
      ("relation", ofOption Relation.toJson a.relation)]

end Account

end ProForma
