import ProForma.Record.Model
import ProForma.Revision

/-!
Records of edits and revisions.
-/

namespace ProForma

open Record

namespace Edit

def readKey (ms : Members) : Reading CellKey :=
  CellKey.mk <$> ms.required "account_id" AccountId.read <*> ms.required "period_id" PeriodId.read

def read : Read (Edit Float) :=
  tagged "action"
    [("set_parameter", record ["account_id", "parameter"] fun ms =>
        .assign <$> ms.required "account_id" AccountId.read
          <*> ms.required "parameter" (Parameter.readAt .inner)),
      ("reassign_parent", record ["account_id", "parent_id"] fun ms =>
        .move <$> ms.required "account_id" AccountId.read
          <*> ms.bare "parent_id" AccountId.read),
      ("set_value", record ["account_id", "period_id", "value"] fun ms =>
        .enter <$> readKey ms <*> ms.required "value" amount),
      ("clear_value", record ["account_id", "period_id"] fun ms => .clear <$> readKey ms),
      ("rename_account", record ["account_id", "new_name"] fun ms =>
        .rename <$> ms.required "account_id" AccountId.read
          <*> ms.required "new_name" string),
      ("remove_account", record ["account_id"] fun ms =>
        .remove <$> ms.required "account_id" AccountId.read)]

def toJson : Edit Float → Json
  | .assign account parameter =>
    .object [("action", .text "set_parameter"), ("account_id", account.toJson),
      ("parameter", parameter.toJson)]
  | .move account parent =>
    .object [("action", .text "reassign_parent"), ("account_id", account.toJson),
      ("parent_id", ofOption AccountId.toJson parent)]
  | .enter key value =>
    .object [("action", .text "set_value"), ("account_id", key.account.toJson),
      ("period_id", key.period.toJson), ("value", .real value)]
  | .clear key =>
    .object [("action", .text "clear_value"), ("account_id", key.account.toJson),
      ("period_id", key.period.toJson)]
  | .rename account name =>
    .object [("action", .text "rename_account"), ("account_id", account.toJson),
      ("new_name", .text name)]
  | .remove account =>
    .object [("action", .text "remove_account"), ("account_id", account.toJson)]

end Edit

namespace Revision

def read : Read (Revision Float) :=
  record ["new_accounts", "edits"] fun ms =>
    Revision.mk
      <$> ms.optional "new_accounts" (listOf Account.read) []
      <*> ms.optional "edits" (listOf Edit.read) []

def toJson (r : Revision Float) : Json :=
  .object [("new_accounts", .list (r.newAccounts.map Account.toJson)),
    ("edits", .list (r.edits.map Edit.toJson))]

end Revision

end ProForma
