import ProForma.Snapshot
import ProForma.Proofs.Record.Exact
import ProForma.Proofs.Record.Nesting

/-!
# Snapshots

A model that passes review is loaded from its own text as it was.
-/

namespace ProForma

open Record

/-! ### Spelling of rules -/

namespace Json

theorem changeMember_eq_self {ε : Type} {name : String} {change : Json → Except ε Json}
    {members : List (String × Json)} (h : ∀ j, (name, j) ∈ members → change j = .ok j) :
    (Json.object members).changeMember name change = .ok (.object members) := by
  refine bind_eq_ok.2 ⟨members, mapM_eq_self ?_, rfl⟩
  rintro ⟨key, j⟩ hj
  by_cases hkey : key = name
  · subst hkey
    simp [h j hj]
  · simp [hkey]
    rfl

/-- Nothing changes in a sorted record if nothing changes in its members of the name. -/
theorem changeMember_normalize {ε : Type} {name : String} {change : Json → Except ε Json}
    {members : List (String × Json)} (hnodup : (members.map Prod.fst).Nodup)
    (h : ∀ j, (name, j) ∈ members → change j.normalize = .ok j.normalize) :
    (Json.object members).normalize.changeMember name change =
      .ok (Json.object members).normalize := by
  obtain ⟨sorted, hsorted, -, hmem⟩ := normalize_object hnodup
  rw [hsorted]
  refine changeMember_eq_self fun j hj => ?_
  obtain ⟨value, hvalue, rfl⟩ := (hmem name j).1 hj
  exact h value hvalue

end Json

/-- Words are spelled the way they are compared. -/
theorem Rule.ofText?_tag (rule : Rule) : Rule.ofText? (Tagged.tag rule) = some rule := by
  have hword : (Text.trim (Tagged.tag rule)).map
      (fun c => if c = '-' ∨ c = ' ' then '_' else c.toUpper) = Tagged.tag rule := by
    rw [← String.toList_inj, String.toList_map, Text.trim, String.toList_ofList]
    cases rule <;> decide
  rw [ofText?, hword, LawfulTagged.ofTag?_tag]

namespace Model

theorem canonicalRule_tag (account : AccountId) (rule : Rule) :
    canonicalRule account (ofTagged rule).normalize = .ok (ofTagged rule).normalize := by
  have hnormal : (ofTagged rule).normalize = ofTagged rule := rfl
  rw [hnormal, ofTagged, canonicalRule, Rule.ofText?_tag]

theorem canonicalAccount_toJson (a : Account Float) :
    canonicalAccount a.toJson.normalize = .ok a.toJson.normalize := by
  refine Json.changeMember_normalize (by simp) fun j hj => ?_
  obtain rfl : j = a.parameter.toJson := by simpa using hj
  refine Json.changeMember_normalize (by simp) fun j hj => ?_
  obtain rfl : j = ofTagged a.parameter.rule := by simpa using hj
  exact canonicalRule_tag _ _

/-- The rules in the record of a model are spelled as records spell them. -/
theorem canonicalRules_toJson (m : Model Float) :
    canonicalRules m.toJson.normalize = .ok m.toJson.normalize := by
  refine Json.changeMember_normalize (by simp) fun j hj => ?_
  obtain rfl : j = .list (m.accounts.map Account.toJson) := by simpa using hj
  rw [Json.normalize_list]
  have haccounts : ((m.accounts.map Account.toJson).map Json.normalize).mapM canonicalAccount =
      .ok ((m.accounts.map Account.toJson).map Json.normalize) := by
    refine mapM_eq_self fun j hj => ?_
    obtain ⟨_, hwritten, rfl⟩ := List.mem_map.1 hj
    obtain ⟨a, -, rfl⟩ := List.mem_map.1 hwritten
    exact canonicalAccount_toJson a
  exact bind_eq_ok.2 ⟨_, haccounts, rfl⟩

/-- A model that passes review, with numbers that fit their records and are printed so that they
read back, is loaded from its own text as it was. -/
theorem load_save {m : Model Float} (hcheck : m.check = .ok ()) (hfits : m.Fits)
    (hfinite : ∀ x ∈ m.floats, x.isFinite)
    (hprinted : ∀ x ∈ m.floats, x.isFinite → Json.ReadsBack x) : load m.save = .ok m := by
  have hexact : m.toJson.IsExact :=
    Model.isExact hfits fun x hx => hprinted x hx (hfinite x hx)
  have hread : read m.toJson.normalize = .ok m := Model.inverts hfits
  have hrecord : (read m.toJson.normalize).mapError .record =
      (.ok m : Except (Fault Float) (Model Float)) := by
    rw [hread]
    rfl
  have hdepth : m.toJson.depth ≤ Json.nestingLimit := m.depth_toJson_le.trans (by decide)
  rw [load, save, Json.parse_pretty hexact hdepth]
  exact bind_eq_ok.2 ⟨_, canonicalRules_toJson m, bind_eq_ok.2 ⟨m, hrecord,
    bind_eq_ok.2 ⟨(), hcheck, rfl⟩⟩⟩

/-- A vineyard with a plot, its planting and wear, and what the profit leaves. -/
def vineyard : Model Float where
  name := "Vineyard \"Süd\""
  accounts := [
    { (Account.stock ⟨"plot"⟩ "Plot" .debit : Account Float) with
      relation := some (.fixedAsset ⟨"planting"⟩ ⟨"wear"⟩)
      feedsCashFlow := true },
    { (Account.stock ⟨"earnings"⟩ "Earnings" .credit : Account Float) with
      relation := some (.retainedEarnings ⟨"profit"⟩) },
    { (Account.stock ⟨"cash"⟩ "Cash" .debit : Account Float) with key := some .cashTotal },
    { (Account.flow ⟨"wine"⟩ "Wine\n(bottled)" : Account Float) with
      parameter := .growthRate 0.1 },
    { (Account.flow ⟨"labour"⟩ "Labour" : Account Float) with
      parameter := .calculation [⟨⟨"wine"⟩, .mul, 4294967295⟩, .to ⟨"wear"⟩] },
    { (Account.flow ⟨"planting"⟩ "Planting" : Account Float) with
      adjustment := some ⟨⟨"plot"⟩, .add, .investing⟩ },
    Account.flow ⟨"wear"⟩ "Wear",
    { (Account.flow ⟨"profit"⟩ "Profit" : Account Float) with
      total := some (.ofTerms [⟨⟨"wine"⟩, .add⟩, ⟨⟨"labour"⟩, .sub⟩])
      isBaseProfit := true }]
  periods := [
    { Period.imported ⟨"before"⟩ (-9223372036854775808) with
      finish := Date.of? (-262143) 2 28 },
    { Period.plain ⟨"after"⟩ 1 with finish := Date.of? 12024 2 29 }]
  ledger := (Ledger.empty.insert ⟨⟨"wine"⟩, ⟨"before"⟩⟩ ⟨1234.5, false⟩).insert
    ⟨⟨"cash"⟩, ⟨"before"⟩⟩ ⟨-1e300, true⟩
  settings := .standard

theorem load_save_vineyard :
    (vineyard.check = .ok () ∧ vineyard.Fits ∧ (∀ x ∈ vineyard.floats, x.isFinite) ∧
      ∀ x ∈ vineyard.floats, x.isFinite → Json.ReadsBack x) ∧
    load vineyard.save = .ok vineyard := by
  have hcheck : vineyard.check = .ok () := rfl
  have hfits : vineyard.Fits :=
    ⟨by decide +kernel, by decide +kernel, by decide +kernel⟩
  have hfinite : ∀ x ∈ vineyard.floats, x.isFinite := by decide +kernel
  have hprinted : ∀ x ∈ vineyard.floats, x.isFinite → Json.ReadsBack x := by decide +kernel
  exact ⟨⟨hcheck, hfits, hfinite, hprinted⟩, load_save hcheck hfits hfinite hprinted⟩

end Model

end ProForma
