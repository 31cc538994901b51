import ProForma.Json.Number

/-!
Reading JSON text. `parse` accepts a text whose every value can be read and that is not nested too
deep; `skim` also accepts numbers beyond binary64, broken surrogates and any nesting, for readers
that skip what they do not use.
-/

namespace ProForma.Json

def isSpace (c : Char) : Bool :=
  c = ' ' || c = '\n' || c = '\t' || c = '\r'

def skipSpace (cs : List Char) : List Char :=
  cs.dropWhile isSpace

/-- A part of a string in quotes: a character, or the number in a `\u` escape. -/
inductive Piece where
  | char (c : Char)
  | unit (n : Nat)

def hexDigit? (c : Char) : Option Nat :=
  if c.isDigit then some (c.toNat - '0'.toNat)
  else if 'a' ≤ c ∧ c ≤ 'f' then some (c.toNat - 'a'.toNat + 10)
  else if 'A' ≤ c ∧ c ≤ 'F' then some (c.toNat - 'A'.toNat + 10)
  else none

def hexUnit? (a b c d : Char) : Option Nat := do
  pure (16 * (16 * (16 * (← hexDigit? a) + (← hexDigit? b)) + (← hexDigit? c)) + (← hexDigit? d))

/-- The character that a backslash and a letter stand for. -/
def escaped? : Char → Option Char
  | '"' => some '"'
  | '\\' => some '\\'
  | '/' => some '/'
  | 'b' => some '\x08'
  | 'f' => some '\x0c'
  | 'n' => some '\n'
  | 'r' => some '\r'
  | 't' => some '\t'
  | _ => none

/-- The pieces up to the closing quote, and the text after it. -/
def pieces? : List Char → Option (List Piece × List Char)
  | '"' :: cs => some ([], cs)
  | '\\' :: 'u' :: a :: b :: c :: d :: cs => do
    let n ← hexUnit? a b c d
    let (rest, cs) ← pieces? cs
    pure (.unit n :: rest, cs)
  | '\\' :: c :: cs => do
    let e ← escaped? c
    let (rest, cs) ← pieces? cs
    pure (.char e :: rest, cs)
  | c :: cs =>
    if c.toNat < 0x20 ∨ c = '\\' then none
    else do
      let (rest, cs) ← pieces? cs
      pure (.char c :: rest, cs)
  | [] => none

/-- Joins surrogate pairs. Fails if half of a pair stands alone. -/
def assemble? : List Piece → Option (List Char)
  | [] => some []
  | .char c :: rest => do pure (c :: (← assemble? rest))
  | .unit high :: .unit low :: rest =>
    if 0xd800 ≤ high ∧ high < 0xdc00 then
      if 0xdc00 ≤ low ∧ low < 0xe000 then do
        let code := 0x10000 + (high - 0xd800) * 0x400 + (low - 0xdc00)
        pure (Char.ofNat code :: (← assemble? rest))
      else none
    else if 0xdc00 ≤ high ∧ high < 0xe000 then none
    else do pure (Char.ofNat high :: (← assemble? (.unit low :: rest)))
  | .unit n :: rest =>
    if 0xd800 ≤ n ∧ n < 0xe000 then none else do pure (Char.ofNat n :: (← assemble? rest))

/-- The string after an opening quote, if it holds no broken surrogate, and the text after it. -/
def string? (cs : List Char) : Option (Option String × List Char) := do
  let (pieces, cs) ← pieces? cs
  pure ((assemble? pieces).map String.ofList, cs)

/-- The object with these members, if it has a name for each of them. -/
def ofMembers (members : List (Option String × Json)) : Json :=
  match members.mapM fun (key, value) => key.map (·, value) with
  | some members => .object members
  | none => .unreadable

mutual

/-- Reads a value off the front of a text. Each level of nesting and each item takes two of the
`fuel`. -/
def value? : Nat → List Char → Option (Json × List Char)
  | 0, _ => none
  | fuel + 1, cs =>
    match skipSpace cs with
    | '[' :: cs =>
      match skipSpace cs with
      | ']' :: cs => some (.list [], cs)
      | cs => do
        let (items, cs) ← items? fuel cs
        pure (.list items, cs)
    | '{' :: cs =>
      match skipSpace cs with
      | '}' :: cs => some (.object [], cs)
      | cs => do
        let (members, cs) ← members? fuel cs
        pure (ofMembers members, cs)
    | '"' :: cs => do
      let (s, cs) ← string? cs
      pure (s.elim .unreadable .text, cs)
    | 'n' :: 'u' :: 'l' :: 'l' :: cs => some (.null, cs)
    | 't' :: 'r' :: 'u' :: 'e' :: cs => some (.bool true, cs)
    | 'f' :: 'a' :: 'l' :: 's' :: 'e' :: cs => some (.bool false, cs)
    | cs => do
      let (n, cs) ← Numeral.scan? cs
      pure (n.toJson, cs)

/-- The items of a list up to its closing bracket. -/
def items? : Nat → List Char → Option (List Json × List Char)
  | 0, _ => none
  | fuel + 1, cs => do
    let (item, cs) ← value? fuel cs
    match skipSpace cs with
    | ',' :: cs =>
      let (items, cs) ← items? fuel cs
      pure (item :: items, cs)
    | ']' :: cs => pure ([item], cs)
    | _ => none

/-- The members of an object up to its closing brace. -/
def members? : Nat → List Char → Option (List (Option String × Json) × List Char)
  | 0, _ => none
  | fuel + 1, cs =>
    match skipSpace cs with
    | '"' :: cs => do
      let (key, cs) ← string? cs
      let ':' :: cs := skipSpace cs | none
      let (value, cs) ← value? fuel cs
      match skipSpace cs with
      | ',' :: cs =>
        let (members, cs) ← members? fuel cs
        pure ((key, value) :: members, cs)
      | '}' :: cs => pure ([(key, value)], cs)
      | _ => none
    | _ => none

end

/-- Reads a whole text, unreadable parts included. -/
def skim (s : String) : Option Json := do
  let cs := s.toList
  let (value, rest) ← value? (2 * cs.length + 2) cs
  if skipSpace rest = [] then pure value else none

/-- How deep values may be nested in a text that is taken in whole. -/
def nestingLimit : Nat := 127

/-- Reads a whole text. -/
def parse (s : String) : Option Json :=
  (skim s).filter fun j => j.isReadable && decide (j.depth ≤ nestingLimit)

end ProForma.Json
