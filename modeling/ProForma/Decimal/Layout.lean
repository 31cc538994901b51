import ProForma.Decimal.Shortest

/-!
How a binary64 number is written: sign, digits, point and exponent. The two layouts of the
library are the one for messages, which never uses an exponent, and the one for stored models.
-/

namespace ProForma

namespace Decimal

/-- The power of ten of the leading digit. -/
def lead (d : Decimal) : Int :=
  d.exponent + (width d.digits : Int) - 1

/-- Positional digits: the whole part, and the fraction without its point. -/
def positional (d : Decimal) : String × String :=
  let text := toString d.digits
  let shift := (-d.exponent).toNat
  if 0 ≤ d.exponent then (text ++ "".pushn '0' d.exponent.toNat, "")
  else if shift < text.length then
    let whole := text.length - shift
    (String.ofList (text.toList.take whole), String.ofList (text.toList.drop whole))
  else ("0", "".pushn '0' (shift - text.length) ++ text)

/-- The first digit, and the digits after it. -/
def scientific (d : Decimal) : String × String :=
  let text := (toString d.digits).toList
  (String.ofList (text.take 1), String.ofList (text.drop 1))

/-- The choices a way of writing numbers makes. -/
structure Layout where
  tie : Tie
  /-- The powers of ten of the leading digit that are written without an exponent. -/
  isPositional : Int → Bool
  /-- Whole numbers keep a point and a zero after it. -/
  keepsPoint : Bool
  notANumber : String
  infinite : String
  negativeInfinite : String

namespace Layout

/-- Text of messages: no exponent, and no point after a whole number. -/
def plain : Layout :=
  { tie := .up
    isPositional := fun _ => true
    keepsPoint := false
    notANumber := "NaN"
    infinite := "inf"
    negativeInfinite := "-inf" }

/-- Text of stored models, where a number that is not finite has no form of its own. -/
def stored : Layout :=
  { tie := .even
    isPositional := fun lead => -5 ≤ lead && lead ≤ 15
    keepsPoint := true
    notANumber := "null"
    infinite := "null"
    negativeInfinite := "null" }

private def join (layout : Layout) (whole fraction : String) : String :=
  if fraction.isEmpty then whole ++ (if layout.keepsPoint then ".0" else "")
  else whole ++ "." ++ fraction

/-- An exponent carries its sign. -/
private def exponentText (e : Int) : String :=
  "e" ++ (if e < 0 then "-" else "+") ++ toString e.natAbs

private def joinScientific (leading rest exponent : String) : String :=
  (if rest.isEmpty then leading else leading ++ "." ++ rest) ++ exponent

def unsigned (layout : Layout) (d : Decimal) : String :=
  if layout.isPositional d.lead then
    let (whole, fraction) := d.positional
    layout.join whole fraction
  else
    let (leading, rest) := d.scientific
    joinScientific leading rest (exponentText d.lead)

/-- The number written in a layout. -/
def render (layout : Layout) (x : Float) : String :=
  let bits := x.toBits.toNat
  let signBit := Nat.pow 2 63
  let negative := signBit ≤ bits
  let magnitude := bits % signBit
  let infinity := 2047 * hiddenBit
  if infinity < magnitude then layout.notANumber
  else if magnitude = infinity then
    if negative then layout.negativeInfinite else layout.infinite
  else
    let text :=
      if magnitude = 0 then layout.join "0" ""
      else layout.unsigned (shortest layout.tie (Dyadic.ofBits magnitude))
    if negative then "-" ++ text else text

end Layout

end Decimal

end ProForma
