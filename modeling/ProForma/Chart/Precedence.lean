import ProForma.Chart.Derivation
import ProForma.Precedence

/-!
The order in which the accounts of a chart are computed within a period.
-/

namespace ProForma.Chart

variable {α : Type} [Amount α]

/-- What the formula of an account reads in its own period when it has its full shape. -/
def steadyReads (chart : Chart α) (a : Account α) : List AccountId :=
  match chart.formula? .steady a with
  | .ok (some f) => f.currentRefs
  | _ => []

/-- The accounts that have to be computed before an account: what it totals, what its parameter
refers to in the same period, what it is related to, and what its formula reads. -/
def prerequisites (chart : Chart α) (a : Account α) : List AccountId :=
  let totalled := match a.total with
    | some .ofChildren => (chart.children a.id).map Account.id
    | some (.ofTerms terms) => terms.map Term.account
    | none => []
  let referenced := (a.parameter.references.filter (·.lag = 0)).map Reference.account
  let related := ((a.relation.map Relation.links).getD []).map Term.account
  totalled ++ referenced ++ related ++ chart.steadyReads a

def precedence (chart : Chart α) : Precedence :=
  let nodes := chart.accounts.foldl (fun g a => g.insertNode a.id) .empty
  chart.accounts.foldl (fun g a => (chart.prerequisites a).foldl (·.insertLink a.id ·) g) nodes

/-- The accounts in an order in which they can be computed. -/
def order (chart : Chart α) : Except (Fault α) (List AccountId) :=
  chart.precedence.order.mapError .circular

end ProForma.Chart
