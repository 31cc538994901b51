import ProForma.Json.Printer
import ProForma.Json.Reader
import ProForma.Record.Model
import ProForma.Review

/-!
Snapshots: models as JSON text. Loading is lenient about the spelling of rules, and refuses a model
that does not pass review.
-/

namespace ProForma

/-- Changes the values of the members with a name. -/
def Json.changeMember {ε : Type} (name : String) (change : Json → Except ε Json) :
    Json → Except ε Json
  | .object members => do
    let members ← members.mapM fun (key, value) => do
      pure (key, ← if key = name then change value else pure value)
    pure (.object members)
  | other => pure other

namespace Model

/-- Spells a rule the way records do. -/
def canonicalRule (account : AccountId) : Json → Except (Fault Float) Json
  | .text s =>
    match Rule.ofText? s with
    | some rule => .ok (.text (Tagged.tag rule))
    | none => .error (.unknownRule account s)
  | other => .ok other

/-- Spells the rule in the record of an account. -/
def canonicalAccount (account : Json) : Except (Fault Float) Json :=
  let id := ((account.member? "id").bind Json.text?).getD ""
  account.changeMember "parameter" (Json.changeMember "parameter_type" (canonicalRule ⟨id⟩))

/-- Spells all rules in the record of a model. -/
def canonicalRules (model : Json) : Except (Fault Float) Json :=
  model.changeMember "accounts" fun
    | .list accounts => do
      let accounts ← accounts.mapM canonicalAccount
      pure (.list accounts)
    | other => pure other

/-- Loads a model from its record. -/
def ofJson (json : Json) : Except (Fault Float) (Model Float) := do
  let json ← canonicalRules json.normalize
  let m ← (read json).mapError .record
  m.check
  pure m

/-- Loads a model from the text of its record. -/
def load (s : String) : Except (Fault Float) (Model Float) :=
  match Json.parse s with
  | some json => ofJson json
  | none => .error (.record .malformed)

/-- The text of a model's record. -/
def save (m : Model Float) : String :=
  m.toJson.pretty

end Model

end ProForma
