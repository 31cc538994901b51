import ProForma.Proofs.Outcome
import ProForma.Proofs.Review
import ProForma.Workbook

/-!
# The names of a workbook

Whatever a workbook says of an account, it says by name. The names of its lines are all different,
blanks around them apart, so a name that is found is that of one line, and stands for the account of
this line.
-/

namespace ProForma

namespace Workbook

variable {α : Type}

/-! ### What the parts of a line stand for -/

/-- The name is that of one line and of no other, and stands for the account of this line. -/
def Resolves (book : Workbook α) (name : String) (id : AccountId) : Prop :=
  ∃ before line after, book.lines = before ++ line :: after ∧
    Text.trim line.name = Text.trim name ∧
    (∀ other ∈ before ++ after, Text.trim other.name ≠ Text.trim name) ∧
    id.text = line.id.getD (Text.slug line.name)

/-- A mention stands for an account and an operation, which is addition if there is none. -/
structure Mention.StandsFor (mention : Mention) (book : Workbook α) (account : AccountId)
    (operation : Operation) : Prop where
  account : book.Resolves mention.account account
  operation : mention.operation.elim (some .add) Operation.ofText? = some operation

/-- What a line says of its total. -/
inductive Totals (book : Workbook α) (line : Line α) : Option Total → Prop
  | children (h : line.sumsChildren = true) : Totals book line (some .ofChildren)
  | none (h : line.sumsChildren = false) (hterms : line.terms = []) : Totals book line none
  | terms (h : line.sumsChildren = false) (hterms : line.terms ≠ []) {terms : List Term}
      (hstands : List.Forall₂ (fun mention t => mention.StandsFor book t.account t.operation)
        line.terms terms) : Totals book line (some (.ofTerms terms))

/-- What a line adjusts, and how. -/
structure Adjusting.Adjusts (a : Adjusting) (book : Workbook α) (adjustment : Adjustment) :
    Prop where
  target : book.Resolves a.target adjustment.target
  operation : Operation.ofText? a.operation = some adjustment.operation
  activity : adjustment.activity = a.activity

/-- The line describes the account, relations apart. -/
structure Describes (book : Workbook α) (line : Line α) (a : Account α) : Prop where
  id : a.id.text = line.id.getD (Text.slug line.name)
  name : a.name = line.name
  nature : a.nature = line.nature
  parent : Option.Rel book.Resolves line.parent a.parent
  total : book.Totals line a.total
  key : a.key = line.key
  rule : Rule.ofText? line.rule = some a.parameter.rule
  rate : a.parameter.rate = line.rate
  references : List.Forall₂
    (fun mention r => mention.StandsFor book r.account r.operation ∧ r.lag = mention.lag)
    line.references a.parameter.references
  side : a.side = line.side
  item : a.isCashFlowItem = line.isCashFlowItem
  adjustment : Option.Rel (fun x y => x.Adjusts book y) line.adjusting a.adjustment
  profit : a.isBaseProfit = line.isBaseProfit
  feeds : a.feedsCashFlow = line.feedsCashFlow

/-! ### Names -/

variable {book : Workbook α} {names all : Names} {lines : List (Line α)}

def Line.entry (line : Line α) : String × AccountId :=
  (Text.trim line.name, line.accountId)

/-- The names of lines are remembered, and no two are the same. -/
theorem namesOf_eq_ok (hnodup : (names.map Prod.fst).Nodup) (h : namesOf names lines = .ok all) :
    all = (lines.map Line.entry).reverse ++ names ∧ (all.map Prod.fst).Nodup := by
  induction lines generalizing names with
  | nil =>
      cases h
      exact ⟨rfl, hnodup⟩
  | cons line lines ih =>
      unfold namesOf at h
      dsimp only at h
      split at h
      · cases h
      · rename_i hnew
        have hfresh : Text.trim line.name ∉ names.map Prod.fst := by
          intro hmem
          obtain ⟨entry, hentry, hsame⟩ := List.mem_map.1 hmem
          have hnone := Option.not_isSome_iff_eq_none.1 hnew
          have hother := List.lookup_eq_none_iff.1 hnone entry hentry
          simp [hsame] at hother
        have hlonger : ((line.entry :: names).map Prod.fst).Nodup :=
          List.nodup_cons.2 ⟨hfresh, hnodup⟩
        obtain ⟨hall, hnodup⟩ := ih hlonger h
        refine ⟨?_, hnodup⟩
        rw [hall, List.map_cons, List.reverse_cons, List.append_assoc, List.singleton_append]

theorem resolves_of_idOf (hnames : namesOf [] book.lines = .ok names) {name : String}
    {id : AccountId} (h : (idOf names name : Except (Fault α) AccountId) = .ok id) :
    book.Resolves name id := by
  have hempty : (([] : Names).map Prod.fst).Nodup := List.nodup_nil
  obtain ⟨hall, hnodup⟩ := namesOf_eq_ok hempty hnames
  rw [List.append_nil] at hall
  rw [hall] at h hnodup
  have hmem : (Text.trim name, id) ∈ book.lines.map Line.entry := by
    unfold idOf at h
    split at h
    · rename_i found hfound
      cases h
      obtain ⟨before, after, hsplit, -⟩ := List.lookup_eq_some_iff.1 hfound
      rw [← List.mem_reverse, hsplit]
      exact List.mem_append_right _ List.mem_cons_self
    · cases h
  obtain ⟨line, hline, hentry⟩ := List.mem_map.1 hmem
  obtain ⟨hname, hid⟩ := Prod.mk.inj hentry
  have hdistinct : (book.lines.map fun line => Text.trim line.name).Nodup := by
    rw [List.map_reverse, List.nodup_reverse, List.map_map] at hnodup
    exact hnodup
  obtain ⟨before, after, hsplit, hothers⟩ := exists_split_of_nodup hdistinct hline
  exact ⟨before, line, after, hsplit, hname, fun other hother => hname ▸ hothers other hother,
    by rw [← hid]; rfl⟩

/-- A line is found by its own name. -/
theorem idOf_self (hnames : namesOf [] book.lines = .ok names) {line : Line α}
    (hline : line ∈ book.lines) {id : AccountId}
    (h : (idOf names line.name : Except (Fault α) AccountId) = .ok id) :
    id.text = line.id.getD (Text.slug line.name) := by
  obtain ⟨before, found, after, hsplit, hname, hothers, hid⟩ := resolves_of_idOf hnames h
  have hfound : line = found := by
    by_contra hne
    rw [hsplit] at hline
    have hother : line ∈ before ++ after := by
      simpa [hne] using hline
    exact hothers line hother rfl
  rw [hid, hfound]

/-! ### Accounts -/

theorem operationOf_eq_ok {owner : AccountId} {text : String} {operation : Operation}
    (h : (operationOf owner text : Except (Fault α) Operation) = .ok operation) :
    Operation.ofText? text = some operation := by
  unfold operationOf at h
  split at h
  · rename_i found hfound
    cases h
    exact hfound
  · cases h

section Lines

variable (hnames : namesOf [] book.lines = .ok names) {owner : AccountId}

include hnames

theorem standsFor_of_toReference {mention : Mention} {r : Reference}
    (h : (mention.toReference names owner : Except (Fault α) Reference) = .ok r) :
    mention.StandsFor book r.account r.operation ∧ r.lag = mention.lag := by
  obtain ⟨operation, hoperation, h⟩ := bind_eq_ok.1 h
  obtain ⟨account, haccount, h⟩ := bind_eq_ok.1 h
  cases h
  refine ⟨⟨resolves_of_idOf hnames haccount, ?_⟩, rfl⟩
  cases hop : mention.operation with
  | none =>
      rw [hop] at hoperation
      cases hoperation
      rfl
  | some text =>
      rw [hop] at hoperation
      exact operationOf_eq_ok hoperation

theorem totals_of_total? {line : Line α} {total : Option Total}
    (h : line.total? names owner = .ok total) : book.Totals line total := by
  unfold Line.total? at h
  split at h
  · rename_i hchildren
    cases h
    exact .children hchildren
  · rename_i hchildren
    have hchildren : line.sumsChildren = false := eq_false_of_ne_true hchildren
    split at h
    · rename_i hterms
      cases h
      exact .none hchildren (List.isEmpty_iff.1 hterms)
    · rename_i hterms
      obtain ⟨references, hreferences, h⟩ := bind_eq_ok.1 h
      cases h
      refine .terms hchildren (mt List.isEmpty_iff.2 hterms) (List.forall₂_map_right_iff.2 ?_)
      exact (forall₂_of_mapM hreferences).imp fun _ _ h => (standsFor_of_toReference hnames h).1

theorem adjusts_of_toAdjustment {a : Adjusting} {adjustment : Adjustment}
    (h : (a.toAdjustment names owner : Except (Fault α) Adjustment) = .ok adjustment) :
    a.Adjusts book adjustment := by
  obtain ⟨target, htarget, h⟩ := bind_eq_ok.1 h
  obtain ⟨operation, hoperation, h⟩ := bind_eq_ok.1 h
  cases h
  exact ⟨resolves_of_idOf hnames htarget, operationOf_eq_ok hoperation, rfl⟩

/-- The account of a line is as the line describes it, and carries no relation yet. -/
theorem describes_of_toAccount {line : Line α} (hline : line ∈ book.lines) {a : Account α}
    (h : line.toAccount names = .ok a) : book.Describes line a ∧ a.relation = none := by
  obtain ⟨id, hid, h⟩ := bind_eq_ok.1 h
  obtain ⟨rule, hrule, h⟩ := bind_eq_ok.1 h
  obtain ⟨references, hreferences, h⟩ := bind_eq_ok.1 h
  obtain ⟨total, htotal, h⟩ := bind_eq_ok.1 h
  obtain ⟨adjustment, hadjustment, h⟩ := bind_eq_ok.1 h
  obtain ⟨parent, hparent, h⟩ := bind_eq_ok.1 h
  cases h
  refine ⟨⟨idOf_self hnames hline hid, rfl, rfl, ?_, totals_of_total? hnames htotal, rfl, ?_, rfl,
    ?_, rfl, rfl, ?_, rfl, rfl⟩, rfl⟩
  · exact rel_of_mapM hparent fun _ _ h => resolves_of_idOf hnames h
  · unfold Line.rule? at hrule
    split at hrule
    · rename_i found hfound
      cases hrule
      exact hfound
    · cases hrule
  · exact (forall₂_of_mapM hreferences).imp fun _ _ h => standsFor_of_toReference hnames h
  · exact rel_of_mapM hadjustment fun _ _ h => adjusts_of_toAdjustment hnames h

end Lines

end Workbook

end ProForma
