import ProForma.Json.Basic
import ProForma.Decimal.Layout

/-!
Writing JSON text with one item a line and two spaces for each level.
-/

namespace ProForma.Json

def hexChar (n : Nat) : Char :=
  if n < 10 then Char.ofNat ('0'.toNat + n) else Char.ofNat ('a'.toNat + (n - 10))

/-- A character inside quotes. Only the quote, the backslash and control characters are escaped. -/
def escape (c : Char) : List Char :=
  match c with
  | '"' => ['\\', '"']
  | '\\' => ['\\', '\\']
  | '\x08' => ['\\', 'b']
  | '\x0c' => ['\\', 'f']
  | '\n' => ['\\', 'n']
  | '\r' => ['\\', 'r']
  | '\t' => ['\\', 't']
  | c =>
    if c.toNat < 0x20 then ['\\', 'u', '0', '0', hexChar (c.toNat / 16), hexChar (c.toNat % 16)]
    else [c]

def quote (s : String) : List Char :=
  '"' :: s.toList.flatMap escape ++ ['"']

/-- The start of a line at a level. -/
def newline (level : Nat) : List Char :=
  '\n' :: List.replicate (2 * level) ' '

mutual

def render (level : Nat) : Json → List Char
  | .null | .unreadable => "null".toList
  | .bool b => (if b then "true" else "false").toList
  | .integer n => (toString n).toList
  | .real x => (Decimal.Layout.stored.render x).toList
  | .text s => quote s
  | .list [] => "[]".toList
  | .list (item :: items) =>
    '[' :: newline (level + 1) ++ render (level + 1) item ++ renderItems (level + 1) items ++
      newline level ++ [']']
  | .object [] => "\x7b\x7d".toList
  | .object ((key, value) :: members) =>
    '{' :: newline (level + 1) ++ quote key ++ ": ".toList ++ render (level + 1) value ++
      renderMembers (level + 1) members ++ newline level ++ ['}']

def renderItems (level : Nat) : List Json → List Char
  | [] => []
  | item :: items => ',' :: newline level ++ render level item ++ renderItems level items

def renderMembers (level : Nat) : List (String × Json) → List Char
  | [] => []
  | (key, value) :: members =>
    ',' :: newline level ++ quote key ++ ": ".toList ++ render level value ++
      renderMembers level members

end

/-- The text of a value. -/
def pretty (j : Json) : String :=
  String.ofList (render 0 j)

end ProForma.Json
