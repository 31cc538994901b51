import ProForma.Proofs.Json.Number
import ProForma.Proofs.Json.Text
import Mathlib.Data.List.DropRight

/-!
Values that are read back: what the printer writes, the reader takes apart again.
-/

namespace ProForma.Json

/-! ### Blanks -/

theorem skipSpace_cons {c : Char} (cs : List Char) (hc : isSpace c = false) :
    skipSpace (c :: cs) = c :: cs := by
  simp [skipSpace, hc]

theorem skipSpace_newline (level : Nat) (cs : List Char) :
    skipSpace (newline level ++ cs) = skipSpace cs := by
  have hspaces : ∀ c ∈ newline level, isSpace c := by
    intro c hc
    rcases List.mem_cons.1 hc with rfl | hc
    · decide
    · rw [List.eq_of_mem_replicate hc]
      decide
  exact List.dropWhile_append_of_pos hspaces

theorem skipSpace_skipSpace (cs : List Char) : skipSpace (skipSpace cs) = skipSpace cs :=
  List.dropWhile_idempotent isSpace cs

/-! Blanks in front of a text are not seen. -/

theorem value?_congr (fuel : Nat) {cs cs' : List Char} (h : skipSpace cs = skipSpace cs') :
    value? fuel cs = value? fuel cs' := by
  cases fuel with
  | zero => rw [value?, value?]
  | succ fuel => rw [value?, value?, h]

theorem items?_congr (fuel : Nat) {cs cs' : List Char} (h : skipSpace cs = skipSpace cs') :
    items? fuel cs = items? fuel cs' := by
  cases fuel with
  | zero => rw [items?, items?]
  | succ fuel => rw [items?, items?, value?_congr fuel h]

theorem members?_congr (fuel : Nat) {cs cs' : List Char} (h : skipSpace cs = skipSpace cs') :
    members? fuel cs = members? fuel cs' := by
  cases fuel with
  | zero => rw [members?, members?]
  | succ fuel => rw [members?, members?, h]

/-! ### One value -/

theorem bind_some_eq_map {β γ : Type} (o : Option β) (f : β → γ) :
    (o.bind fun x => some (f x)) = o.map f := by
  cases o <;> rfl

variable (fuel : Nat) {cs rest : List Char}

/-- A numeral starts with a digit or a minus sign. -/
theorem exists_cons_of_scan? {n : Numeral} (h : Numeral.scan? cs = some (n, rest)) :
    ∃ c t, cs = c :: t ∧ ∀ d, d ≠ '-' → d.isDigit = false → c ≠ d := by
  cases cs with
  | nil => simp [Numeral.scan?, Numeral.sign, Numeral.whole?, Numeral.digits] at h
  | cons c cs =>
    refine ⟨c, cs, rfl, ?_⟩
    rintro d hminus hdigit rfl
    have hzero : c ≠ '0' := by
      rintro rfl
      simp at hdigit
    simp [Numeral.scan?, Numeral.sign, Numeral.whole?, Numeral.digits, hminus, hdigit, hzero] at h

theorem value?_numeral {n : Numeral} (hrest : Stops rest) (h : Numeral.scan? cs = some (n, [])) :
    value? (fuel + 1) (cs ++ rest) = some (n.toJson, rest) := by
  have hscan := Numeral.scan?_append hrest h
  obtain ⟨c, cs, rfl, hne⟩ := exists_cons_of_scan? h
  have hspace : isSpace c = false := by
    simp [isSpace, hne]
  rw [List.cons_append] at hscan ⊢
  rw [value?, skipSpace_cons _ hspace]
  simp [hne, hscan]

theorem value?_text (s : String) :
    value? (fuel + 1) (quote s ++ rest) = some (.text s, rest) := by
  rw [quote, List.append_assoc, List.cons_append, value?, skipSpace_cons _ (by decide)]
  simp [string?_quote]

theorem value?_list (hclose : (skipSpace cs).head? ≠ some ']') :
    value? (fuel + 1) ('[' :: cs) = (items? fuel cs).map fun p => (.list p.1, p.2) := by
  rw [← items?_congr fuel (skipSpace_skipSpace cs), value?, skipSpace_cons _ (by decide)]
  cases h : skipSpace cs <;> simp_all [bind_some_eq_map]

theorem value?_object (hclose : (skipSpace cs).head? ≠ some '}') :
    value? (fuel + 1) ('{' :: cs) = (members? fuel cs).map fun p => (ofMembers p.1, p.2) := by
  rw [← members?_congr fuel (skipSpace_skipSpace cs), value?, skipSpace_cons _ (by decide)]
  cases h : skipSpace cs <;> simp_all [bind_some_eq_map]

/-! ### Items and members -/

/-- The items after the first one, up to the closing bracket. -/
def itemsAfter? (fuel : Nat) (cs : List Char) : Option (List Json × List Char) :=
  match skipSpace cs with
  | ',' :: cs => items? fuel cs
  | ']' :: cs => some ([], cs)
  | _ => none

/-- The members after the first one, up to the closing brace. -/
def membersAfter? (fuel : Nat) (cs : List Char) :
    Option (List (Option String × Json) × List Char) :=
  match skipSpace cs with
  | ',' :: cs => members? fuel cs
  | '}' :: cs => some ([], cs)
  | _ => none

theorem items?_succ (item : Json) (h : value? fuel cs = some (item, rest)) :
    items? (fuel + 1) cs = (itemsAfter? fuel rest).map fun p => (item :: p.1, p.2) := by
  rw [items?, h, itemsAfter?]
  simp only [Option.bind_eq_bind, Option.bind_some]
  generalize skipSpace rest = after
  split <;> simp [bind_some_eq_map]

theorem members?_succ (key : String) (value : Json) (h : value? fuel cs = some (value, rest)) :
    members? (fuel + 1) (quote key ++ (": ".toList ++ cs)) =
      (membersAfter? fuel rest).map fun p => ((some key, value) :: p.1, p.2) := by
  have hcolon : skipSpace (": ".toList ++ cs) = ':' :: ' ' :: cs := skipSpace_cons _ (by decide)
  have hvalue : value? fuel (' ' :: cs) = some (value, rest) := by
    rw [← h]
    exact value?_congr fuel rfl
  rw [quote, List.append_assoc, List.cons_append, members?, skipSpace_cons _ (by decide)]
  simp only [List.singleton_append, string?_quote, Option.bind_eq_bind, Option.bind_some, hcolon,
    hvalue, membersAfter?]
  generalize skipSpace rest = after
  split <;> simp [bind_some_eq_map]

theorem ofMembers_some (members : List (String × Json)) :
    ofMembers (members.map fun p => (some p.1, p.2)) = .object members := by
  have hnames : ((members.map fun p => (some p.1, p.2)).mapM fun p : Option String × Json =>
      p.1.map (·, p.2)) = some members := by
    induction members with
    | nil => rfl
    | cons member members ih => simp_all
  simp [ofMembers, hnames]

/-! ### Whole values -/

/-- Reading the text of a number gives the number. -/
def ReadsBack (x : Float) : Prop :=
  ∃ n, Numeral.scan? (Decimal.Layout.stored.render x).toList = some (n, []) ∧ n.toJson = .real x

theorem Numeral.toJson_eq_real_iff {n : Numeral} {x : Float} :
    n.toJson = .real x ↔ n.toInteger? = none ∧ n.toFloat = x ∧ x.isInf = false := by
  unfold toJson
  cases n.toInteger? with
  | some value => simp
  | none =>
    dsimp only
    by_cases hinf : n.toFloat.isInf
    · have hne : n.toFloat = x → x.isInf = true := fun heq => heq ▸ hinf
      rw [if_pos hinf]
      simpa using hne
    · have hfinite : n.toFloat = x → x.isInf = false := fun heq => heq ▸ eq_false_of_ne_true hinf
      rw [if_neg hinf]
      simpa using hfinite

theorem readsBack_iff {x : Float} : ReadsBack x ↔
    x.isInf = false ∧ (Numeral.scan? (Decimal.Layout.stored.render x).toList).map
      (fun (n, rest) => (n.toInteger?, n.toFloat, rest)) = some (none, x, []) := by
  constructor
  · rintro ⟨n, hscan, hn⟩
    obtain ⟨hinteger, hx, hinf⟩ := Numeral.toJson_eq_real_iff.1 hn
    exact ⟨hinf, by simp [hscan, hinteger, hx]⟩
  · rintro ⟨hinf, hscan⟩
    obtain ⟨⟨n, rest⟩, hfound, hn⟩ := Option.map_eq_some_iff.1 hscan
    obtain ⟨hinteger, hx, rfl⟩ : n.toInteger? = none ∧ n.toFloat = x ∧ rest = [] := by
      simpa using hn
    exact ⟨n, hfound, Numeral.toJson_eq_real_iff.2 ⟨hinteger, hx, hinf⟩⟩

instance (x : Float) : Decidable (ReadsBack x) :=
  decidable_of_iff _ readsBack_iff.symm

mutual

/-- Every part can be read, and every number in it is read as it was. -/
def IsExact : Json → Prop
  | .integer n => Numeral.Fits n
  | .real x => ReadsBack x
  | .list items => AreExact items
  | .object members => MembersExact members
  | .unreadable => False
  | _ => True

def AreExact : List Json → Prop
  | [] => True
  | item :: items => item.IsExact ∧ AreExact items

def MembersExact : List (String × Json) → Prop
  | [] => True
  | (_, value) :: members => value.IsExact ∧ MembersExact members

end

/-- A value starts with a character that is no blank and closes nothing. -/
theorem exists_cons_of_render {j : Json} (hj : j.IsExact) (level : Nat) :
    ∃ c cs, render level j = c :: cs ∧ isSpace c = false ∧ c ≠ ']' := by
  have hnumeral : ∀ {cs : List Char} {n : Numeral}, Numeral.scan? cs = some (n, []) →
      ∃ c t, cs = c :: t ∧ isSpace c = false ∧ c ≠ ']' := by
    intro cs n h
    obtain ⟨c, t, rfl, hne⟩ := exists_cons_of_scan? h
    exact ⟨c, t, rfl, by simp [isSpace, hne], hne ']' (by decide) (by decide)⟩
  cases j with
  | integer n =>
    obtain ⟨m, hscan, -⟩ := Numeral.exists_scan?_toString hj
    exact hnumeral hscan
  | real x =>
    obtain ⟨m, hscan, -⟩ := hj
    exact hnumeral hscan
  | bool b => cases b <;> exact ⟨_, _, rfl, by decide, by decide⟩
  | list items => cases items <;> exact ⟨_, _, rfl, by decide, by decide⟩
  | object members => cases members <;> exact ⟨_, _, rfl, by decide, by decide⟩
  | null | text s | unreadable => exact ⟨_, _, rfl, by decide, by decide⟩

theorem stops_close (level : Nat) (cs : List Char) : Stops (newline level ++ cs) :=
  stops_cons.2 (by decide)

theorem stops_renderItems (level outer : Nat) (items : List Json) (cs : List Char) :
    Stops (renderItems level items ++ (newline outer ++ cs)) := by
  cases items with
  | nil => exact stops_close outer cs
  | cons item items => exact stops_cons.2 (by decide)

theorem stops_renderMembers (level outer : Nat) (members : List (String × Json))
    (cs : List Char) : Stops (renderMembers level members ++ (newline outer ++ cs)) := by
  cases members with
  | nil => exact stops_close outer cs
  | cons member members => exact stops_cons.2 (by decide)

/-- The first item and the items after it. -/
theorem items?_newline {item : Json} {items : List Json} {tail : List Char} (level : Nat)
    (hitem : value? (fuel + 1) (render level item ++ tail) = some (item, tail))
    (hitems : itemsAfter? (fuel + 1) tail = some (items, rest)) :
    items? (fuel + 2) (newline level ++ (render level item ++ tail)) =
      some (item :: items, rest) := by
  rw [items?_congr _ (skipSpace_newline level _), items?_succ (fuel + 1) item hitem, hitems]
  rfl

/-- The first member and the members after it. -/
theorem members?_newline {key : String} {value : Json} {members : List (Option String × Json)}
    {tail : List Char} (level : Nat)
    (hvalue : value? (fuel + 1) (render level value ++ tail) = some (value, tail))
    (hmembers : membersAfter? (fuel + 1) tail = some (members, rest)) :
    members? (fuel + 2)
        (newline level ++ (quote key ++ (": ".toList ++ (render level value ++ tail)))) =
      some ((some key, value) :: members, rest) := by
  rw [members?_congr _ (skipSpace_newline level _), members?_succ (fuel + 1) key value hvalue,
    hmembers]
  rfl

/-! By induction on the value. What follows it is a variable, so that an item is read in front of
the items after it; a list or an object has characters of its own for the fuel it takes. -/

mutual

theorem value?_render : ∀ (j : Json) (_ : j.IsExact) (fuel level : Nat) (rest : List Char)
    (_ : (render level j).length ≤ fuel) (_ : Stops rest),
    value? (fuel + 1) (render level j ++ rest) = some (j, rest)
  | .null, _, fuel, level, rest, _, _ => by
    simp [render, value?, skipSpace, isSpace]
  | .bool b, _, fuel, level, rest, _, _ => by
    cases b <;> simp [render, value?, skipSpace, isSpace]
  | .integer n, hn, fuel, level, rest, _, hrest => by
    obtain ⟨m, hscan, hm⟩ := Numeral.exists_scan?_toString hn
    rw [render, value?_numeral fuel hrest hscan, hm]
  | .real x, hx, fuel, level, rest, _, hrest => by
    obtain ⟨m, hscan, hm⟩ := hx
    rw [render, value?_numeral fuel hrest hscan, hm]
  | .text s, _, fuel, level, rest, _, _ => by
    rw [render, value?_text]
  | .list [], _, fuel, level, rest, _, _ => by
    simp [render, value?, skipSpace, isSpace]
  | .list (item :: items), hj, fuel, level, rest, hfuel, _ => by
    simp only [render, List.length_append, List.length_cons, newline] at hfuel
    obtain ⟨fuel, rfl⟩ := Nat.exists_eq_add_of_le' (show 2 ≤ fuel by omega)
    have hitem := value?_render item hj.1 fuel (level + 1)
      (renderItems (level + 1) items ++ (newline level ++ ']' :: rest)) (by omega)
      (stops_renderItems (level + 1) level items (']' :: rest))
    have hitems := itemsAfter?_render items hj.2 (fuel + 1) (level + 1) level rest (by omega)
    -- The first item must not be taken for the closing bracket.
    obtain ⟨c, cs, hrender, hspace, hclose⟩ := exists_cons_of_render hj.1 (level + 1)
    simp only [render, List.append_assoc, List.cons_append, List.nil_append]
    rw [value?_list, items?_newline fuel (level + 1) hitem hitems]
    · rfl
    · rw [skipSpace_newline, hrender, List.cons_append, skipSpace_cons _ hspace]
      simpa using hclose
  | .object [], _, fuel, level, rest, _, _ => by
    simp [render, value?, skipSpace, isSpace]
  | .object ((key, value) :: members), hj, fuel, level, rest, hfuel, _ => by
    simp only [render, List.length_append, List.length_cons, newline] at hfuel
    obtain ⟨fuel, rfl⟩ := Nat.exists_eq_add_of_le' (show 2 ≤ fuel by omega)
    have hvalue := value?_render value hj.1 fuel (level + 1)
      (renderMembers (level + 1) members ++ (newline level ++ '}' :: rest)) (by omega)
      (stops_renderMembers (level + 1) level members ('}' :: rest))
    have hmembers := membersAfter?_render members hj.2 (fuel + 1) (level + 1) level rest
      (by omega)
    simp only [render, List.append_assoc, List.cons_append, List.nil_append]
    rw [value?_object, members?_newline fuel (level + 1) hvalue hmembers]
    · exact congrArg (fun j => some (j, rest)) (ofMembers_some ((key, value) :: members))
    · rw [skipSpace_newline, quote, List.append_assoc, List.cons_append,
        skipSpace_cons _ (by decide)]
      simp
  | .unreadable, hj, _, _, _, _, _ => by
    simp [IsExact] at hj

theorem itemsAfter?_render : ∀ (items : List Json) (_ : AreExact items) (fuel level outer : Nat)
    (rest : List Char) (_ : (renderItems level items).length ≤ fuel),
    itemsAfter? fuel (renderItems level items ++ (newline outer ++ ']' :: rest)) =
      some (items, rest)
  | [], _, fuel, level, outer, rest, _ => by
    simp [renderItems, itemsAfter?, skipSpace_newline, skipSpace_cons, isSpace]
  | item :: items, hitems, fuel, level, outer, rest, hfuel => by
    simp only [renderItems, List.length_append, List.length_cons, newline] at hfuel
    obtain ⟨fuel, rfl⟩ := Nat.exists_eq_add_of_le' (show 2 ≤ fuel by omega)
    have hitem := value?_render item hitems.1 fuel level
      (renderItems level items ++ (newline outer ++ ']' :: rest)) (by omega)
      (stops_renderItems level outer items (']' :: rest))
    have hrest := itemsAfter?_render items hitems.2 (fuel + 1) level outer rest (by omega)
    simp only [renderItems, List.append_assoc, List.cons_append]
    rw [itemsAfter?, skipSpace_cons _ (by decide)]
    exact items?_newline fuel level hitem hrest

theorem membersAfter?_render : ∀ (members : List (String × Json)) (_ : MembersExact members)
    (fuel level outer : Nat) (rest : List Char)
    (_ : (renderMembers level members).length ≤ fuel),
    membersAfter? fuel (renderMembers level members ++ (newline outer ++ '}' :: rest)) =
      some (members.map fun p => (some p.1, p.2), rest)
  | [], _, fuel, level, outer, rest, _ => by
    simp [renderMembers, membersAfter?, skipSpace_newline, skipSpace_cons, isSpace]
  | (key, value) :: members, hmembers, fuel, level, outer, rest, hfuel => by
    simp only [renderMembers, List.length_append, List.length_cons, newline] at hfuel
    obtain ⟨fuel, rfl⟩ := Nat.exists_eq_add_of_le' (show 2 ≤ fuel by omega)
    have hvalue := value?_render value hmembers.1 fuel level
      (renderMembers level members ++ (newline outer ++ '}' :: rest)) (by omega)
      (stops_renderMembers level outer members ('}' :: rest))
    have hrest := membersAfter?_render members hmembers.2 (fuel + 1) level outer rest (by omega)
    simp only [renderMembers, List.append_assoc, List.cons_append]
    rw [membersAfter?, skipSpace_cons _ (by decide)]
    exact members?_newline fuel level hvalue hrest

end

mutual

theorem isReadable_of_isExact : ∀ (j : Json) (_ : j.IsExact), j.isReadable
  | .null, _ | .bool _, _ | .integer _, _ | .real _, _ | .text _, _ => rfl
  | .list items, h => areReadable_of_areExact items h
  | .object members, h => membersReadable_of_membersExact members h

theorem areReadable_of_areExact : ∀ (items : List Json) (_ : AreExact items), areReadable items
  | [], _ => rfl
  | item :: items, h => by
    rw [areReadable, isReadable_of_isExact item h.1, areReadable_of_areExact items h.2]
    rfl

theorem membersReadable_of_membersExact : ∀ (members : List (String × Json))
    (_ : MembersExact members), membersReadable members
  | [], _ => rfl
  | (_, value) :: members, h => by
    rw [membersReadable, isReadable_of_isExact value h.1,
      membersReadable_of_membersExact members h.2]
    rfl

end

/-- The text of a value is read as the value. -/
theorem skim_pretty {j : Json} (hj : j.IsExact) : skim j.pretty = some j := by
  have htext : j.pretty.toList = render 0 j := String.toList_ofList
  have hvalue : value? (2 * j.pretty.toList.length + 2) j.pretty.toList = some (j, []) := by
    have hrender := value?_render j hj (2 * (render 0 j).length + 1) 0 [] (by omega) stops_nil
    rw [List.append_nil] at hrender
    rw [htext, hrender]
  rw [skim, hvalue]
  rfl

theorem parse_pretty {j : Json} (hj : j.IsExact) (hdepth : j.depth ≤ nestingLimit) :
    parse j.pretty = some j := by
  rw [parse, skim_pretty hj, Option.filter_some, isReadable_of_isExact j hj, decide_eq_true hdepth]
  rfl

end ProForma.Json
