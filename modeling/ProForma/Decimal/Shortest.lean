/-!
Shortest decimals: of the decimals that lie nearer to a binary64 number than to any other, one
with the fewest digits, and among those the nearest.

A positive number is a significand times a power of two. The reals that round to it form an
interval, closed when the significand is even. On the decimal grid with `n` digits only the two
neighbours of the number need a look: if any point of the grid lies in the interval, one of them
does.
-/

namespace ProForma

/-- A positive decimal: the digits, read as one number, times a power of ten. -/
structure Decimal where
  digits : Nat
  exponent : Int
deriving DecidableEq

namespace Decimal

/-- Which of two equally near decimals is taken. -/
inductive Tie where
  | up
  | even
deriving DecidableEq

/-- How many decimal digits a number is written with. -/
def width (n : Nat) : Nat :=
  (Nat.toDigits 10 n).length

/-- The decimal exponent of `num / den`: the power of ten of its leading digit. -/
def magnitude (num den : Nat) : Int :=
  if den ≤ num then Int.ofNat (width (num / den)) - 1 else -Int.ofNat (width ((den - 1) / num))

/-- Drops at most `fuel` zeros from the end of the digits. -/
def dropZeros : Nat → Decimal → Decimal
  | 0, d => d
  | fuel + 1, d =>
    if d.digits ≠ 0 ∧ d.digits % 10 = 0 then dropZeros fuel ⟨d.digits / 10, d.exponent + 1⟩ else d

/-- A positive number `4 * significand` in units of a quarter of its own spacing, with the ends
of the interval that rounds to it in the same units. -/
structure Rounding where
  significand : Nat
  below : Nat
  above : Nat

namespace Rounding

/-- The interval around `significand`. The spacing below a power of two is half the spacing
above it; `atPower` says that the number is such a power and not the least. -/
def around (significand : Nat) (atPower : Bool) : Rounding :=
  { significand
    below := 4 * significand - (if atPower then 1 else 2)
    above := 4 * significand + 2 }

/-- Whether the point `n` of a grid lies in the interval, where one unit is `scale` and one step
of the grid is `step`. -/
def holds (r : Rounding) (scale step n : Nat) : Bool :=
  if r.significand % 2 = 0 then
    r.below * scale ≤ n * step && n * step ≤ r.above * scale
  else
    r.below * scale < n * step && n * step < r.above * scale

/-- The point of the grid that is in the interval and nearest to the number, if there is one. -/
def nearest? (r : Rounding) (tie : Tie) (scale step : Nat) : Option Nat :=
  let exact := 4 * r.significand * scale
  let low := exact / step
  let high := low + 1
  match r.holds scale step low && low ≠ 0, r.holds scale step high with
  | true, true =>
    let lowGap := exact - low * step
    let highGap := high * step - exact
    if lowGap < highGap then some low
    else if highGap < lowGap then some high
    else match tie with
      | .up => some high
      | .even => if low % 2 = 0 then some low else some high
  | true, false => some low
  | false, true => some high
  | false, false => none

/-- Tries grids with more and more digits; `unit` is the exponent of two of one unit and
`lead` the power of ten of the leading digit. -/
def search (r : Rounding) (tie : Tie) (unit lead : Int) : Nat → Nat → Decimal
  | 0, _ => ⟨4 * r.significand * Nat.pow 2 unit.toNat, 0⟩
  | fuel + 1, count =>
    let exponent := lead + 1 - count
    let scale := Nat.pow 2 unit.toNat * Nat.pow 10 (-exponent).toNat
    let step := Nat.pow 2 (-unit).toNat * Nat.pow 10 exponent.toNat
    match r.nearest? tie scale step with
    | some digits => dropZeros count ⟨digits, exponent⟩
    | none => search r tie unit lead fuel (count + 1)

end Rounding

/-- A nonzero finite binary64 number, up to its sign: `significand * 2 ^ exponent`. -/
structure Dyadic where
  significand : Nat
  exponent : Int

/-- The leading bit of a significand, which is not written down: the fifty-third. -/
def hiddenBit : Nat := Nat.pow 2 52

/-- Reads the significand and the exponent off the bits of a binary64 number. -/
def Dyadic.ofBits (bits : Nat) : Dyadic :=
  let fraction := bits % hiddenBit
  let biased := bits / hiddenBit % 2048
  if biased = 0 then ⟨fraction, -1074⟩ else ⟨hiddenBit + fraction, Int.ofNat biased - 1075⟩

/-- Whether the next number below is nearer than the next one above. -/
def Dyadic.atPower (d : Dyadic) : Bool :=
  d.significand = hiddenBit && -1074 < d.exponent

/-- The shortest decimal that rounds to the number. Seventeen digits always suffice. -/
def shortest (tie : Tie) (d : Dyadic) : Decimal :=
  let unit := d.exponent - 2
  let lead := magnitude (4 * d.significand * Nat.pow 2 unit.toNat) (Nat.pow 2 (-unit).toNat)
  (Rounding.around d.significand d.atPower).search tie unit lead 17 1

end Decimal

end ProForma
