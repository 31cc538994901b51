import ProForma.Model
import ProForma.Record.Account

/-!
Records of periods, values, settings and whole models.
-/

namespace ProForma

open Record

def Date.toJson (d : Date) : Json :=
  .text d.text

namespace Period

def read : Read Period :=
  record ["id", "label", "order", "end_date", "is_actual", "is_from_excel"] fun ms =>
    Period.mk
      <$> ms.required "id" PeriodId.read
      <*> ms.optional "label" string ""
      <*> ms.required "order" (integer (-9223372036854775808) 9223372036854775807)
      <*> ms.nullable "end_date" date
      <*> ms.optional "is_actual" flag false
      <*> ms.optional "is_from_excel" flag false

def toJson (p : Period) : Json :=
  .object
    [("id", p.id.toJson), ("label", .text p.label), ("order", .integer p.order),
      ("end_date", ofOption Date.toJson p.finish), ("is_actual", .bool p.isActual),
      ("is_from_excel", .bool p.isImported)]

end Period

namespace Posting

def read : Read (Posting Float) :=
  record ["account_id", "period_id", "value", "is_calculated"] fun ms =>
    (fun account period value isCalculated => ⟨⟨account, period⟩, ⟨value, isCalculated⟩⟩)
      <$> ms.required "account_id" AccountId.read
      <*> ms.required "period_id" PeriodId.read
      <*> ms.required "value" amount
      <*> ms.optional "is_calculated" flag false

def toJson (p : Posting Float) : Json :=
  .object
    [("account_id", p.key.account.toJson), ("period_id", p.key.period.toJson),
      ("value", .real p.cell.value), ("is_calculated", .bool p.cell.isCalculated)]

end Posting

namespace Ledger

def read : Read (Ledger Float) := fun j => do
  let postings ← listOf Posting.read j
  (ofPostings? postings).mapError .duplicateValue

def toJson (ledger : Ledger Float) : Json :=
  .list (ledger.toPostings.map Posting.toJson)

end Ledger

namespace Settings

def read : Read (Settings Float) :=
  record ["max_summary_passes", "balance_tolerance", "carry_forward_on_error"] fun ms =>
    Settings.mk
      <$> ms.optional "max_summary_passes" (natural 64) standard.passes
      <*> ms.optional "balance_tolerance" amount standard.tolerance
      <*> ms.optional "carry_forward_on_error" flag standard.carriesForward

def toJson (s : Settings Float) : Json :=
  .object
    [("max_summary_passes", .integer s.passes), ("balance_tolerance", .real s.tolerance),
      ("carry_forward_on_error", .bool s.carriesForward)]

end Settings

namespace Model

def read : Read (Model Float) :=
  record ["name", "accounts", "periods", "values", "settings"] fun ms =>
    Model.mk
      <$> ms.optional "name" string ""
      <*> ms.required "accounts" (listOf Account.read)
      <*> ms.required "periods" (listOf Period.read)
      <*> ms.optional "values" Ledger.read .empty
      <*> ms.optional "settings" Settings.read .standard

def toJson (m : Model Float) : Json :=
  .object
    [("name", .text m.name), ("accounts", .list (m.accounts.map Account.toJson)),
      ("periods", .list (m.periods.map Period.toJson)), ("values", m.ledger.toJson),
      ("settings", m.settings.toJson)]

end Model

end ProForma
