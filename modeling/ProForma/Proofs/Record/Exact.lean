import ProForma.Proofs.Json.RoundTrip
import ProForma.Proofs.Record.Model

/-!
The numbers that the records of a model hold: lags, orders and passes, which are whole, and rates,
values and the tolerance.
-/

namespace ProForma

open Record

theorem Json.isExact_list {items : List Json} :
    (Json.list items).IsExact ↔ ∀ item ∈ items, item.IsExact := by
  rw [IsExact]
  induction items with
  | nil => simp [AreExact]
  | cons item items ih => simp [AreExact, ih]

theorem Record.isExact_ofOption {β : Type} {write : β → Json} {o : Option β}
    (h : ∀ b ∈ o, (write b).IsExact) : (ofOption write o).IsExact := by
  cases o with
  | none => exact trivial
  | some b => exact h b rfl

theorem Record.isExact_list_map {β : Type} {write : β → Json} {xs : List β}
    (h : ∀ x ∈ xs, (write x).IsExact) : (Json.list (xs.map write)).IsExact :=
  Json.isExact_list.2 (List.forall_mem_map.2 h)

theorem Reference.isExact {r : Reference} (hr : r.Fits) : r.toJson.IsExact := by
  have hlag : (Json.integer r.lag).IsExact := by
    have hbits : r.lag < 4294967296 := hr
    exact ⟨by omega, by omega⟩
  exact ⟨trivial, trivial, hlag, trivial⟩

theorem Parameter.isExact {p : Parameter Float} (hfits : ∀ r ∈ p.references, r.Fits)
    (hrate : ∀ x ∈ p.rate, Json.ReadsBack x) : p.toJson.IsExact := by
  have hvalue : (ofOption Json.real p.rate).IsExact := isExact_ofOption hrate
  have hreferences := isExact_list_map fun r hr => Reference.isExact (hfits r hr)
  exact ⟨trivial, hvalue, hreferences, trivial⟩

theorem Adjustment.isExact (a : Adjustment) : a.toJson.IsExact :=
  ⟨trivial, trivial, trivial, trivial⟩

theorem Term.isExact (t : Term) : t.toJson.IsExact :=
  ⟨trivial, trivial, trivial⟩

theorem Total.isExact (total : Total) : total.toJson.IsExact := by
  cases total with
  | ofChildren => exact ⟨trivial, trivial⟩
  | ofTerms terms => exact ⟨trivial, isExact_list_map fun t _ => Term.isExact t, trivial⟩

theorem Relation.isExact (relation : Relation) : relation.toJson.IsExact := by
  cases relation with
  | fixedAsset investment depreciation => exact ⟨trivial, trivial, trivial, trivial⟩
  | retainedEarnings profit => exact ⟨trivial, trivial, trivial⟩

theorem Account.isExact {a : Account Float} (hfits : ∀ r ∈ a.parameter.references, r.Fits)
    (hrate : ∀ x ∈ a.parameter.rate, Json.ReadsBack x) : a.toJson.IsExact := by
  have hparent : (ofOption AccountId.toJson a.parent).IsExact :=
    isExact_ofOption fun _ _ => trivial
  have htotal := isExact_ofOption fun total (_ : total ∈ a.total) => Total.isExact total
  have hkey : (ofOption ofTagged a.key).IsExact := isExact_ofOption fun _ _ => trivial
  have hside : (ofOption Side.toJson a.side).IsExact := isExact_ofOption fun _ _ => trivial
  have hadjustment :=
    isExact_ofOption fun adjustment (_ : adjustment ∈ a.adjustment) => adjustment.isExact
  have hrelation := isExact_ofOption fun relation (_ : relation ∈ a.relation) => relation.isExact
  exact ⟨trivial, trivial, trivial, hparent, htotal, hkey, Parameter.isExact hfits hrate, hside,
    trivial, hadjustment, trivial, trivial, hrelation, trivial⟩

theorem Period.isExact {p : Period} (hp : p.Fits) : p.toJson.IsExact := by
  have horder : (Json.integer p.order).IsExact := by
    obtain ⟨hleast, hgreatest⟩ := hp
    exact ⟨by omega, by omega⟩
  have hfinish : (ofOption Date.toJson p.finish).IsExact := isExact_ofOption fun _ _ => trivial
  exact ⟨trivial, trivial, horder, hfinish, trivial, trivial, trivial⟩

theorem Posting.isExact {p : Posting Float} (hp : Json.ReadsBack p.cell.value) :
    p.toJson.IsExact :=
  ⟨trivial, trivial, hp, trivial, trivial⟩

theorem Settings.isExact {s : Settings Float} (hfits : s.Fits)
    (hs : Json.ReadsBack s.tolerance) : s.toJson.IsExact := by
  have hpasses : (Json.integer s.passes).IsExact := by
    have hbits : s.passes < 18446744073709551616 := hfits
    exact ⟨by omega, by omega⟩
  exact ⟨hpasses, hs, trivial, trivial⟩

/-- The numbers of a model that are not whole: rates, values and the tolerance. -/
def Model.floats (m : Model Float) : List Float :=
  m.accounts.filterMap (·.parameter.rate) ++ m.ledger.entries.map (·.2.value) ++
    [m.settings.tolerance]

/-- The record of a model holds no other numbers. -/
theorem Model.isExact {m : Model Float} (hfits : m.Fits)
    (hfloats : ∀ x ∈ m.floats, Json.ReadsBack x) : m.toJson.IsExact := by
  simp only [floats, List.mem_append, List.mem_filterMap, List.mem_map, List.mem_singleton,
    or_imp, forall_and, forall_eq] at hfloats
  obtain ⟨⟨hrates, hvalues⟩, htolerance⟩ := hfloats
  have haccounts := isExact_list_map fun a ha =>
    Account.isExact (hfits.lag a ha) fun x hx => hrates x ⟨a, ha, hx⟩
  have hperiods := isExact_list_map fun p hp => Period.isExact (hfits.order p hp)
  have hledger : m.ledger.toJson.IsExact := isExact_list_map fun p hp => by
    obtain ⟨entry, hentry, rfl⟩ := List.mem_map.1 hp
    exact Posting.isExact (hvalues _ ⟨entry, hentry, rfl⟩)
  exact ⟨trivial, haccounts, hperiods, hledger, Settings.isExact hfits.passes htolerance, trivial⟩

end ProForma
