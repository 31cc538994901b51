import ProForma.Model

/-!
Review of a model: every way in which its parts do not fit together, accounts first, then periods,
then values.
-/

namespace ProForma

/-- The items whose key an earlier item has. -/
def repeated {β γ : Type} [DecidableEq γ] (key : β → γ) (seen : List γ) : List β → List β
  | [] => []
  | x :: xs =>
    if key x ∈ seen then x :: repeated key seen xs else repeated key (key x :: seen) xs

namespace Chart

variable {α : Type}

def faultIf (condition : Bool) (fault : Fault α) : List (Fault α) :=
  if condition then [fault] else []

def unknown (chart : Chart α) (ids : List AccountId) : List (Fault α) :=
  (ids.filter fun id => (chart.account? id).isNone).map fun id => .unknownAccount id.text

def duplicateAccounts (chart : Chart α) : List (Fault α) :=
  (repeated Account.id [] chart.accounts).map fun a => .defect a.id .duplicateAccount

/-- Key lines that are on an account already; `held` has the latest holders first. -/
def takenKeys (held : List (KeyLine × AccountId)) : List (Account α) → List (Fault α)
  | [] => []
  | a :: accounts =>
    match a.key with
    | none => takenKeys held accounts
    | some key =>
      let rest := takenKeys ((key, a.id) :: held) accounts
      match held.lookup key with
      | some holder => .defect a.id (.keyTaken key holder) :: rest
      | none => rest

def parentFaults (chart : Chart α) (a : Account α) : List (Fault α) :=
  chart.unknown a.parent.toList ++ faultIf (chart.loops a) (.defect a.id .parentLoop)

def totalFaults (chart : Chart α) (a : Account α) : List (Fault α) :=
  let terms := match a.total with
    | some (.ofTerms terms) => terms
    | _ => []
  chart.unknown (terms.map Term.account) ++
    faultIf (a.total.isSome && a.parameter.rule ≠ .none)
      (.defect a.id (.ruleOnTotal a.parameter.rule))

def parameterFaults (chart : Chart α) (a : Account α) : List (Fault α) :=
  let rule := a.parameter.rule
  let unreferenced := a.parameter.references.isEmpty
  faultIf (rule.needsReference && unreferenced) (.missingReference a.id rule) ++
    faultIf (rule = .cashBeginning && unreferenced && (chart.key? .cashTotal).isNone)
      (.missingReference a.id rule) ++
    faultIf (rule.needsRate && a.parameter.rate.isNone) (.missingRate a.id rule)

/-- Cash-flow items are derived lines without rules of their own. -/
def itemFaults (a : Account α) : List (Fault α) :=
  let rule := a.parameter.rule
  if a.isCashFlowItem then
    (if rule = .none && a.total.isNone then [.defect a.id .underivedItem]
      else faultIf (rule ≠ .none && !rule.isCashFlowOnly) (.defect a.id (.itemRule rule))) ++
    faultIf a.adjustment.isSome (.defect a.id .itemAdjusts) ++
    faultIf a.isBaseProfit (.defect a.id .itemIsProfit) ++
    faultIf a.feedsCashFlow (.defect a.id .itemFeedsItem)
  else faultIf rule.isCashFlowOnly (.defect a.id (.reservedRule rule))

def adjustmentFaults (chart : Chart α) (a : Account α) : List (Fault α) :=
  match a.adjustment with
  | none => []
  | some adjustment =>
    match chart.account? adjustment.target with
    | none => [.unknownAccount adjustment.target.text]
    | some target => faultIf (!target.isBalance) (.defect a.id (.adjustsNoBalance target.id))

def relationFaults (chart : Chart α) (a : Account α) : List (Fault α) :=
  chart.unknown (((a.relation.map Relation.links).getD []).map Term.account) ++
    faultIf (a.relation.isSome && !a.isStock) (.defect a.id .relationOnFlow)

def accountFaults (chart : Chart α) (a : Account α) : List (Fault α) :=
  chart.parentFaults a ++ chart.unknown (a.parameter.references.map Reference.account) ++
    chart.totalFaults a ++ chart.parameterFaults a ++ itemFaults a ++ chart.adjustmentFaults a ++
    faultIf (a.feedsCashFlow && !a.isBalance) (.defect a.id .feedsWithoutBalance) ++
    chart.relationFaults a

def faults (chart : Chart α) : List (Fault α) :=
  chart.duplicateAccounts ++ takenKeys [] chart.accounts ++
    chart.accounts.flatMap chart.accountFaults

end Chart

namespace Model

variable {α : Type}

/-- Neighbours on the timeline that share an order. -/
def sharedOrders : List Period → List (Fault α)
  | p :: q :: periods =>
    Chart.faultIf (p.order = q.order) (.inconsistent none (.sharedOrder p.id q.id q.order)) ++
      sharedOrders (q :: periods)
  | _ => []

def periodFaults (m : Model α) : List (Fault α) :=
  (repeated Period.id [] m.periods).map (fun p => .inconsistent none (.duplicatePeriod p.id)) ++
    sharedOrders m.timeline

def cellFaults (m : Model α) (key : CellKey) : List (Fault α) :=
  if (m.chart.account? key.account).isNone then [.unknownAccount key.account.text]
  else Chart.faultIf (m.period? key.period).isNone (.unknownPeriod key.period.text)

/-- Everything that is wrong with a model. -/
def faults (m : Model α) : List (Fault α) :=
  m.chart.faults ++ m.periodFaults ++ m.ledger.entries.flatMap fun entry => m.cellFaults entry.1

/-- Refuses a model with the first of its faults. -/
def check (m : Model α) : Except (Fault α) Unit :=
  match m.faults with
  | [] => .ok ()
  | fault :: _ => .error fault

end Model

end ProForma
