import ProForma.Proofs.Json.Change
import ProForma.Proofs.Json.RoundTrip

/-!
# The spelling of rules

Loading takes in the whole text, and then spells all rules the way records do, before it reads
anything else. So texts that differ in the spelling of rules are loaded alike, and in a text that can
be taken in, a word that is no rule is a fault that comes before all others.
-/

namespace ProForma

namespace Model

open Json

/-! ### Spelling rules -/

/-- Two spellings of one rule, or the same value. -/
inductive SameRule : Json → Json → Prop where
  | same (j : Json) : SameRule j j
  | spelled {text text' : String} {rule : Rule} : Rule.ofText? text = some rule →
    Rule.ofText? text' = some rule → SameRule (.text text) (.text text')

/-- Records of accounts that are the same up to the spelling of the rule. -/
def AccountRespelled : Json → Json → Prop :=
  AlikeAt "parameter" (AlikeAt "parameter_type" SameRule)

/-- Records of models that are the same up to the spelling of the accounts' rules. -/
def Respelled : Json → Json → Prop :=
  AlikeAt "accounts" (AlikeItems AccountRespelled)

theorem SameRule.normalize {a b : Json} (h : SameRule a b) : SameRule a.normalize b.normalize := by
  cases h with
  | same => exact .same _
  | spelled htext htext' => exact .spelled htext htext'

theorem Respelled.normalize {j j' : Json} (h : Respelled j j') :
    Respelled j.normalize j'.normalize := by
  refine AlikeAt.normalize (fun _ _ hitems => hitems.normalize fun _ _ haccount => ?_) h
  exact haccount.normalize fun _ _ hparameter => hparameter.normalize fun _ _ => SameRule.normalize

end Model

end ProForma
