import ProForma.Json.Basic

/-!
Numbers in JSON text: an optional minus sign, a whole part without idle zeros, an optional
fraction and an optional exponent. Up to fifteen digits and a power of ten up to the twenty-second
are read to the nearest binary64 number; beyond that the last bit may be off.
-/

namespace ProForma.Json

/-- The parts of a written number. -/
structure Numeral where
  negative : Bool
  whole : List Char
  fraction : List Char
  exponent : Option Int

namespace Numeral

def digits (cs : List Char) : List Char × List Char :=
  (cs.takeWhile Char.isDigit, cs.dropWhile Char.isDigit)

/-- The number that decimal digits stand for. -/
def value (ds : List Char) : Nat :=
  ds.foldl (fun n d => 10 * n + (d.toNat - '0'.toNat)) 0

def sign : List Char → Bool × List Char
  | '-' :: cs => (true, cs)
  | cs => (false, cs)

/-- A whole part is zero alone, or starts with another digit. -/
def whole? (cs : List Char) : Option (List Char × List Char) :=
  match cs with
  | '0' :: rest => some (['0'], rest)
  | _ => match digits cs with
    | ([], _) => none
    | found => some found

def fraction? : List Char → Option (List Char × List Char)
  | '.' :: cs => match digits cs with
    | ([], _) => none
    | found => some found
  | cs => some ([], cs)

def exponentDigits? (negative : Bool) (cs : List Char) : Option (Option Int × List Char) :=
  match digits cs with
  | ([], _) => none
  | (ds, rest) => some (some (if negative then -(value ds : Int) else value ds), rest)

def exponent? : List Char → Option (Option Int × List Char)
  | 'e' :: cs | 'E' :: cs => match cs with
    | '+' :: cs => exponentDigits? false cs
    | '-' :: cs => exponentDigits? true cs
    | cs => exponentDigits? false cs
  | cs => some (none, cs)

/-- Reads a number off the front of a text. -/
def scan? (cs : List Char) : Option (Numeral × List Char) := do
  let (negative, cs) := sign cs
  let (whole, cs) ← whole? cs
  let (fraction, cs) ← fraction? cs
  let (exponent, cs) ← exponent? cs
  pure (⟨negative, whole, fraction, exponent⟩, cs)

/-- Appends digits to a number as long as it fits 64 bits. Gives the number, and how many digits
were not appended. -/
def append (n : Nat) : List Char → Nat × Nat
  | [] => (n, 0)
  | d :: ds =>
    let next := 10 * n + (d.toNat - '0'.toNat)
    if next < Nat.pow 2 64 then append next ds else (n, ds.length + 1)

/-- A significand of 64 bits and its power of ten. Digits of the whole part that do not fit count
in the power; those of the fraction are lost. -/
def scaled (n : Numeral) : Nat × Int :=
  let (head, skipped) := append 0 n.whole
  let (significand, lost) := append head n.fraction
  (significand, n.exponent.getD 0 + skipped + lost - n.fraction.length)

/-- The greatest power of ten that binary64 holds. -/
def greatestPower : Nat := 308

def powerOfTen (n : Nat) : Float :=
  Float.ofScientific 1 false n

/-- The binary64 number for the written one: the rounded significand, multiplied or divided by the
rounded power of ten. A number that is too small for two divisions is zero. -/
def toFloat (n : Numeral) : Float :=
  let (significand, exponent) := n.scaled
  let x := Float.ofNat significand
  let power := exponent.natAbs
  let magnitude : Float :=
    if significand = 0 then 0
    else if 0 ≤ exponent then
      if power ≤ greatestPower then x * powerOfTen power else 1 / 0
    else if power ≤ greatestPower then x / powerOfTen power
    else if power ≤ 2 * greatestPower then
      x / powerOfTen greatestPower / powerOfTen (power - greatestPower)
    else 0
  if n.negative then -magnitude else magnitude

/-- A number without fraction and exponent is whole if it fits 64 bits; negative zero is not. -/
def toInteger? (n : Numeral) : Option Int :=
  if n.fraction = [] ∧ n.exponent = none then
    let magnitude := value n.whole
    if n.negative then
      if magnitude ≠ 0 ∧ magnitude ≤ Nat.pow 2 63 then some (-Int.ofNat magnitude) else none
    else if magnitude < Nat.pow 2 64 then some (Int.ofNat magnitude) else none
  else none

def toJson (n : Numeral) : Json :=
  match n.toInteger? with
  | some value => .integer value
  | none =>
    let value := n.toFloat
    if value.isInf then .unreadable else .real value

end Numeral

end ProForma.Json
