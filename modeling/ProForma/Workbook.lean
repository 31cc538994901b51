import ProForma.Review
import ProForma.Text.Slug

/-!
Workbooks: models as they are imported, where accounts are known by their names and periods by
their labels. Names are resolved once, here; the blanks around them do not matter.
-/

namespace ProForma

namespace Workbook

/-- Another account, by name. -/
structure Mention where
  account : String
  /-- An operation as text; addition if there is none. -/
  operation : Option String
  lag : Nat

structure Adjusting where
  target : String
  operation : String
  activity : Activity

/-- An account. -/
structure Line (α : Type) where
  name : String
  /-- The identifier, if it is not to be made from the name. -/
  id : Option String
  nature : Nature
  parent : Option String
  sumsChildren : Bool
  terms : List Mention
  key : Option KeyLine
  rule : String
  rate : Option α
  references : List Mention
  side : Option Side
  isCashFlowItem : Bool
  adjusting : Option Adjusting
  isBaseProfit : Bool
  feedsCashFlow : Bool

namespace Line

variable {α : Type}

/-- A line with nothing but its name. -/
def plain (name : String) (nature : Nature) : Line α :=
  { name, nature
    id := none
    parent := none
    sumsChildren := false
    terms := []
    key := none
    rule := Tagged.tag Rule.none
    rate := none
    references := []
    side := none
    isCashFlowItem := false
    adjusting := none
    isBaseProfit := false
    feedsCashFlow := false }

def flow (name : String) : Line α :=
  plain name .flow

def stock (name : String) (side : Side) : Line α :=
  { (plain name .stock : Line α) with side := some side }

/-- The identifier of the line's account. -/
def accountId (line : Line α) : AccountId :=
  ⟨line.id.getD (Text.slug line.name)⟩

end Line

/-- A period. -/
structure Column where
  label : String
  isActual : Bool
  isImported : Bool

namespace Column

def imported (label : String) : Column :=
  ⟨label, true, true⟩

def forecast (label : String) : Column :=
  ⟨label, false, false⟩

end Column

/-- An imported or entered value. -/
structure Entry (α : Type) where
  account : String
  period : String
  value : α

inductive Link where
  | fixedAsset (asset investment depreciation : String)
  | retainedEarnings (account profit : String)

end Workbook

structure Workbook (α : Type) where
  name : String
  lines : List (Workbook.Line α)
  columns : List Workbook.Column
  entries : List (Workbook.Entry α)
  links : List Workbook.Link
  settings : Settings α

namespace Workbook

variable {α : Type}

/-- The accounts that names stand for. -/
abbrev Names := List (String × AccountId)

/-- The names of lines, each of which may occur once. -/
def namesOf (names : Names) : List (Line α) → Except (Fault α) Names
  | [] => .ok names
  | line :: lines =>
    let name := Text.trim line.name
    if (names.lookup name).isSome then .error (.defect line.accountId (.nameTwice line.name))
    else namesOf ((name, line.accountId) :: names) lines

def idOf (names : Names) (name : String) : Except (Fault α) AccountId :=
  match names.lookup (Text.trim name) with
  | some id => .ok id
  | none => .error (.unknownAccount name)

def operationOf (owner : AccountId) (text : String) : Except (Fault α) Operation :=
  match Operation.ofText? text with
  | some operation => .ok operation
  | none => .error (.defect owner (.unknownOperation text))

def Mention.toReference (names : Names) (owner : AccountId) (mention : Mention) :
    Except (Fault α) Reference := do
  let op ← mention.operation.elim (pure .add) (operationOf owner)
  let account ← idOf names mention.account
  pure ⟨account, op, mention.lag⟩

def Line.rule? (line : Line α) (id : AccountId) : Except (Fault α) Rule :=
  match Rule.ofText? line.rule with
  | some rule => .ok rule
  | none => .error (.unknownRule id line.rule)

/-- The total of a line. The sum of children comes before terms. -/
def Line.total? (names : Names) (line : Line α) (id : AccountId) :
    Except (Fault α) (Option Total) :=
  if line.sumsChildren then .ok (some .ofChildren)
  else if line.terms.isEmpty then .ok none
  else do
    let references ← line.terms.mapM (Mention.toReference names id)
    pure (some (.ofTerms (references.map fun r => ⟨r.account, r.operation⟩)))

def Adjusting.toAdjustment (names : Names) (owner : AccountId) (a : Adjusting) :
    Except (Fault α) Adjustment := do
  let target ← idOf names a.target
  let op ← operationOf owner a.operation
  pure ⟨target, op, a.activity⟩

/-- The account of a line, without its relation. -/
def Line.toAccount (names : Names) (line : Line α) : Except (Fault α) (Account α) := do
  let id ← idOf names line.name
  let rule ← line.rule? id
  let references ← line.references.mapM (Mention.toReference names id)
  let total ← line.total? names id
  let adjustment ← line.adjusting.mapM (Adjusting.toAdjustment names id)
  let parent ← line.parent.mapM (idOf names)
  pure
    { id, parent, total, adjustment
      name := line.name
      nature := line.nature
      key := line.key
      parameter := ⟨rule, line.rate, references⟩
      side := line.side
      isCashFlowItem := line.isCashFlowItem
      isBaseProfit := line.isBaseProfit
      feedsCashFlow := line.feedsCashFlow
      relation := none }

/-- The account that carries a link, and the relation. -/
def Link.toRelation (names : Names) : Link → Except (Fault α) (AccountId × Relation)
  | .fixedAsset asset investment depreciation => do
    let owner ← idOf names asset
    let investment ← idOf names investment
    let depreciation ← idOf names depreciation
    pure (owner, .fixedAsset investment depreciation)
  | .retainedEarnings account profit => do
    let owner ← idOf names account
    let profit ← idOf names profit
    pure (owner, .retainedEarnings profit)

/-- Puts a relation on the first account with an identifier, which may have none yet. -/
def attach (owner : AccountId) (relation : Relation) :
    List (Account α) → Except (Fault α) (List (Account α))
  | [] => .error (.unknownAccount owner.text)
  | a :: accounts =>
    if a.id = owner then
      if a.relation.isSome then .error (.defect owner .secondRelation)
      else .ok ({ a with relation := some relation } :: accounts)
    else do
      let accounts ← attach owner relation accounts
      pure (a :: accounts)

def attachLink (names : Names) (accounts : List (Account α)) (link : Link) :
    Except (Fault α) (List (Account α)) := do
  let (owner, relation) ← link.toRelation names
  attach owner relation accounts

/-- The period of a column, which ends with the last month of its label. -/
def Column.toPeriod (column : Column) (order : Nat) : Except (Fault α) Period :=
  match Span.ofText column.label with
  | .error fault => .error (.date fault)
  | .ok span =>
    let label := Text.trim column.label
    .ok
      { id := ⟨label⟩, label, order
        finish := some span.finish
        isActual := column.isActual
        isImported := column.isImported }

def Entry.toPosting (names : Names) (periods : List Period) (entry : Entry α) :
    Except (Fault α) (Posting α) :=
  match periods.find? fun p => p.label = Text.trim entry.period with
  | none => .error (.unknownPeriod entry.period)
  | some period => do
    let account ← idOf names entry.account
    pure ⟨⟨account, period.id⟩, ⟨entry.value, false⟩⟩

def ledgerOf (postings : List (Posting α)) : Except (Fault α) (Ledger α) :=
  (Ledger.ofPostings? postings).mapError .duplicateValue

/-- The model of a workbook, if it passes review. -/
def toModel (book : Workbook α) : Except (Fault α) (Model α) := do
  let names ← namesOf [] book.lines
  let accounts ← book.lines.mapM (Line.toAccount names)
  let accounts ← book.links.foldlM (attachLink names) accounts
  let periods ← book.columns.zipIdx.mapM fun (column, order) => column.toPeriod order
  let postings ← book.entries.mapM (Entry.toPosting names periods)
  let ledger ← ledgerOf postings
  let m : Model α := { name := book.name, accounts, periods, ledger, settings := book.settings }
  m.check
  pure m

end Workbook

end ProForma
