import ProForma.Json.Reader
import ProForma.Record.Model
import ProForma.Workbook

/-!
Records of workbooks.
-/

namespace ProForma

open Record

namespace Workbook

def Mention.read : Read Mention :=
  record ["account", "operation", "lag"] fun ms =>
    Mention.mk
      <$> ms.required "account" string
      <*> ms.nullable "operation" string
      <*> ms.optional "lag" (natural 32) 0

def Mention.toJson (mention : Mention) : Json :=
  .object [("account", .text mention.account), ("operation", ofOption .text mention.operation),
    ("lag", .integer mention.lag)]

def Adjusting.read : Read Adjusting :=
  record ["target", "operation", "category"] fun ms =>
    Adjusting.mk
      <$> ms.required "target" string
      <*> ms.required "operation" string
      <*> ms.required "category" word

def Adjusting.toJson (a : Adjusting) : Json :=
  .object [("target", .text a.target), ("operation", .text a.operation),
    ("category", ofTagged a.activity)]

namespace Line

def fieldNames : List String :=
  ["name", "id", "behavior", "parent", "children_sum", "formula", "key", "parameter_type",
    "parameter_value", "references", "is_credit", "is_cf_item", "cf_adjustment", "base_profit",
    "generates_cf_item"]

def read : Read (Line Float) :=
  record fieldNames fun ms =>
    Line.mk
      <$> ms.required "name" string
      <*> ms.nullable "id" string
      <*> ms.required "behavior" word
      <*> ms.nullable "parent" string
      <*> ms.optional "children_sum" flag false
      <*> ms.optional "formula" (listOf Mention.read) []
      <*> ms.nullable "key" word
      <*> ms.optional "parameter_type" string (Tagged.tag Rule.none)
      <*> ms.nullable "parameter_value" amount
      <*> ms.optional "references" (listOf Mention.read) []
      <*> ms.nullable "is_credit" Side.read
      <*> ms.optional "is_cf_item" flag false
      <*> ms.nullable "cf_adjustment" Adjusting.read
      <*> ms.optional "base_profit" flag false
      <*> ms.optional "generates_cf_item" flag false

def toJson (line : Line Float) : Json :=
  .object
    [("name", .text line.name), ("id", ofOption .text line.id), ("behavior", ofTagged line.nature),
      ("parent", ofOption .text line.parent), ("children_sum", .bool line.sumsChildren),
      ("formula", .list (line.terms.map Mention.toJson)), ("key", ofOption ofTagged line.key),
      ("parameter_type", .text line.rule), ("parameter_value", ofOption .real line.rate),
      ("references", .list (line.references.map Mention.toJson)),
      ("is_credit", ofOption Side.toJson line.side), ("is_cf_item", .bool line.isCashFlowItem),
      ("cf_adjustment", ofOption Adjusting.toJson line.adjusting),
      ("base_profit", .bool line.isBaseProfit), ("generates_cf_item", .bool line.feedsCashFlow)]

end Line

def Column.read : Read Column :=
  record ["label", "is_actual", "is_from_excel"] fun ms =>
    Column.mk
      <$> ms.required "label" string
      <*> ms.optional "is_actual" flag false
      <*> ms.optional "is_from_excel" flag false

def Column.toJson (column : Column) : Json :=
  .object [("label", .text column.label), ("is_actual", .bool column.isActual),
    ("is_from_excel", .bool column.isImported)]

def Entry.read : Read (Entry Float) :=
  record ["account", "period", "value"] fun ms =>
    Entry.mk
      <$> ms.required "account" string
      <*> ms.required "period" string
      <*> ms.required "value" amount

def Entry.toJson (entry : Entry Float) : Json :=
  .object [("account", .text entry.account), ("period", .text entry.period),
    ("value", .real entry.value)]

def Link.read : Read Link :=
  tagged "kind"
    [("ppe", record ["asset", "investment", "depreciation"] fun ms =>
        .fixedAsset <$> ms.required "asset" string <*> ms.required "investment" string
          <*> ms.required "depreciation" string),
      ("retained_earnings", record ["account", "profit"] fun ms =>
        .retainedEarnings <$> ms.required "account" string <*> ms.required "profit" string)]

def Link.toJson : Link → Json
  | .fixedAsset asset investment depreciation =>
    .object [("kind", .text "ppe"), ("asset", .text asset), ("investment", .text investment),
      ("depreciation", .text depreciation)]
  | .retainedEarnings account profit =>
    .object [("kind", .text "retained_earnings"), ("account", .text account),
      ("profit", .text profit)]

/-- A link is taken in whole before its kind is known, and it stands two levels deep. -/
def readLink : Read Link := fun j =>
  if j.depth + 2 ≤ Json.nestingLimit then Link.read j else .error .malformed

def read : Read (Workbook Float) :=
  record ["name", "accounts", "periods", "values", "relations", "settings"] fun ms =>
    Workbook.mk
      <$> ms.optional "name" string ""
      <*> ms.optional "accounts" (listOf Line.read) []
      <*> ms.optional "periods" (listOf Column.read) []
      <*> ms.optional "values" (listOf Entry.read) []
      <*> ms.optional "relations" (listOf readLink) []
      <*> ms.optional "settings" Settings.read .standard

/-- Reads a workbook out of JSON text as it stands. Whatever is wrong with it is put down to the
text. -/
def ofText (s : String) : Except (Fault Float) (Workbook Float) :=
  match (Json.skim s).map read with
  | some (.ok book) => .ok book
  | _ => .error (.record .malformed)

end Workbook

end ProForma
