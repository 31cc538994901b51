import ProForma.Chart.Basic

/-!
The formula of an account in a period. A summary line follows its total, any other account its
parameter; where there is no formula, the account keeps or carries forward what it holds.
-/

namespace ProForma

/-- What a formula depends on in its period. -/
structure Timing where
  /-- The period is imported, and only summary lines and cash-flow items are derived in it. -/
  isImported : Bool
  hasPrevious : Bool
deriving DecidableEq

/-- A period with history that is not imported, where formulas have their full shape. -/
def Timing.steady : Timing := ⟨false, true⟩

namespace Account

variable {α : Type}

def needReference (a : Account α) : Except (Fault α) Reference :=
  match a.parameter.references.head? with
  | some r => .ok r
  | none => .error (.missingReference a.id a.parameter.rule)

def needReferences (a : Account α) : Except (Fault α) (List Reference) :=
  match a.parameter.references with
  | [] => .error (.missingReference a.id a.parameter.rule)
  | references => .ok references

def needRate (a : Account α) : Except (Fault α) α :=
  match a.parameter.rate with
  | some rate => .ok rate
  | none => .error (.missingRate a.id a.parameter.rule)

/-- The account's own value in the period before. -/
def before (a : Account α) : Formula α :=
  .ref a.id 1

end Account

namespace Formula

variable {α : Type} [Amount α]

def ofReference (r : Reference) : Formula α :=
  .ref r.account r.lag

/-- The change of an account from the period before. -/
def change (id : AccountId) : Formula α :=
  .combine .sub (.ref id 0) (.ref id 1)

def sum (fs : List (Formula α)) : Formula α :=
  .apply .add fs

/-- Combines terms from the left. The first one is negated under subtraction; each further one is
combined by its own operation. -/
def ofTerms? : List (Operation × Formula α) → Option (Formula α)
  | [] => none
  | (operation, f) :: rest =>
    some (rest.foldl (fun acc term => .combine term.1 acc term.2) (.leading operation f))

end Formula

namespace Chart

variable {α : Type} [Amount α]

/-- The formula of a summary line. There is none without children or terms. -/
def totalFormula? (chart : Chart α) (a : Account α) : Total → Option (Formula α)
  | .ofChildren =>
    match chart.children a.id with
    | [] => none
    | children => some (.sum (children.map fun child => .ref child.id 0))
  | .ofTerms terms => Formula.ofTerms? (terms.map fun t => (t.operation, .ref t.account 0))

/-- The change of cash: profit, adjusting flows signed by their targets, and changes of balances
signed by their own side. -/
def cashChangeFormula (chart : Chart α) : Formula α :=
  let profits := chart.baseProfits.map fun a => .ref a.id 0
  let adjustments := chart.adjusters.filterMap fun (a, adjustment) =>
    (chart.adjustmentSign adjustment).map (Formula.withSign (.ref a.id 0))
  let changes := chart.cashFeeds.filterMap fun a => a.cashSign.map (Formula.withSign (.change a.id))
  .sum (profits ++ adjustments ++ changes)

/-- The flows that move a stock: those that adjust it, and the links of its relation that do not
adjust it themselves. -/
def flowsInto (chart : Chart α) (a : Account α) : List Term :=
  let adjusting := (chart.adjustersOf a.id).map fun (b, adjustment) => ⟨b.id, adjustment.operation⟩
  let links := (a.relation.map Relation.links).getD []
  links.foldl
    (fun flows link => if flows.any (·.account = link.account) then flows else flows ++ [link])
    adjusting

/-- A stock without a rule: its balance before, and the flows into it. -/
def rollForward (chart : Chart α) (a : Account α) : Formula α :=
  match chart.flowsInto a with
  | [] => a.before
  | flows => .sum (a.before :: flows.map fun t => .leading t.operation (.ref t.account 0))

/-- The formula that an account's rule stands for. Missing references and rates are reported
whether or not there is a period before. -/
def ruleFormula (chart : Chart α) (hasPrevious : Bool) (a : Account α) :
    Except (Fault α) (Option (Formula α)) :=
  let withHistory (f : Formula α) : Option (Formula α) := if hasPrevious then some f else none
  match a.parameter.rule with
  | .none =>
    pure (if a.isStock && !a.isCashFlowItem then withHistory (chart.rollForward a) else none)
  | .growthRate => do
    let rate ← a.needRate
    pure (withHistory (.combine .mul a.before (.const (1 + rate))))
  | .percentage => do
    let r ← a.needReference
    let share ← a.needRate
    pure (some (.combine .mul (.ofReference r) (.const share)))
  | .proportionate => do
    let r ← a.needReference
    let ratio := .combine .div (.ref r.account 0) (.ref r.account 1)
    pure (withHistory (.combine .mul a.before (.sum [.const 1, .combine .sub ratio (.const 1)])))
  | .calculation => do
    let references ← a.needReferences
    pure (Formula.ofTerms? (references.map fun r => (r.operation, .ofReference r)))
  | .reference => do
    let r ← a.needReference
    pure (some (.ofReference r))
  | .fixedValue => pure (withHistory a.before)
  | .balanceChange => do
    let r ← a.needReference
    pure (withHistory (.leading r.operation (.change r.account)))
  | .adjustment => do
    let r ← a.needReference
    pure (some (.leading r.operation (.ref r.account 0)))
  | .cashChange => pure (withHistory chart.cashChangeFormula)
  | .cashEnding => do
    let references ← a.needReferences
    pure (some (.sum (references.map fun r => .leading r.operation (.ofReference r))))
  | .cashBeginning =>
    match a.parameter.references.head?, chart.key? .cashTotal with
    | some r, _ => pure (some (.ref r.account 1))
    | none, some cash => pure (some (.ref cash.id 1))
    | none, none => throw (.missingReference a.id a.parameter.rule)

/-- The formula of an account. Totals come before rules, and rules are not followed in imported
periods except by cash-flow items. -/
def formula? (chart : Chart α) (timing : Timing) (a : Account α) :
    Except (Fault α) (Option (Formula α)) :=
  match a.total with
  | some total => pure (chart.totalFormula? a total)
  | none =>
    if timing.isImported && !a.isCashFlowItem then pure none
    else chart.ruleFormula timing.hasPrevious a

end Chart

end ProForma
