import ProForma.Calendar.Date
import ProForma.Text.Blank

/-!
Reading dates. A number is read after any blanks; a year with a sign takes all its digits and one
without takes at most four; months and days take at most two. Ranges of month and day are checked
as soon as the number is read, existence of the day only when the text has ended.
-/

namespace ProForma.Date

/-- Why a text is no date. -/
inductive ReadFault where
  | ended
  | misplaced
  | outOfRange
  | trailing
deriving DecidableEq

namespace ReadFault

def message : ReadFault → String
  | .ended => "premature end of input"
  | .misplaced => "input contains invalid characters"
  | .outOfRange => "input is out of range"
  | .trailing => "trailing input"

end ReadFault

namespace Reader

/-- The leading digits of a text, or of as many characters as `limit` allows. -/
def number (limit : Option Nat) (cs : List Char) : Except ReadFault (Nat × List Char) :=
  let digits := (limit.elim cs cs.take).takeWhile Char.isDigit
  if digits.isEmpty then .error (if cs.isEmpty then .ended else .misplaced)
  else .ok (digits.foldl (fun n d => 10 * n + (d.toNat - '0'.toNat)) 0, cs.drop digits.length)

def signedYear (cs : List Char) : Except ReadFault (Int × List Char) :=
  match Text.dropBlanks cs with
  | '-' :: cs => do
    let (n, cs) ← number none cs
    pure (-Int.ofNat n, cs)
  | '+' :: cs => do
    let (n, cs) ← number none cs
    pure (Int.ofNat n, cs)
  | cs => do
    let (n, cs) ← number (some 4) cs
    pure (Int.ofNat n, cs)

/-- Years outside 32 bits are refused at once. -/
def yearNumber (cs : List Char) : Except ReadFault (Int × List Char) := do
  let (y, cs) ← signedYear cs
  if -2147483648 ≤ y ∧ y ≤ 2147483647 then pure (y, cs) else throw .outOfRange

def upTo (greatest : Nat) (cs : List Char) : Except ReadFault (Nat × List Char) := do
  let (n, cs) ← number (some 2) (Text.dropBlanks cs)
  if 1 ≤ n ∧ n ≤ greatest then pure (n, cs) else throw .outOfRange

/-- A hyphen, after blanks if `spaced`. -/
def hyphen (spaced : Bool) (cs : List Char) : Except ReadFault (List Char) :=
  match if spaced then Text.dropBlanks cs else cs with
  | '-' :: cs => .ok cs
  | [] => .error .ended
  | _ => .error .misplaced

end Reader

/-- Reads a date. `spaced` texts may have blanks before hyphens and at the end. -/
def read (spaced : Bool) (cs : List Char) : Except ReadFault Date := do
  let (y, cs) ← Reader.yearNumber cs
  let cs ← Reader.hyphen spaced cs
  let (m, cs) ← Reader.upTo 12 cs
  let cs ← Reader.hyphen spaced cs
  let (d, cs) ← Reader.upTo 31 cs
  if (if spaced then Text.dropBlanks cs else cs) ≠ [] then throw .trailing
  match of? y m d with
  | some date => pure date
  | none => throw .outOfRange

/-- Reads a date as records write it. -/
def ofText (s : String) : Except ReadFault Date :=
  read true s.toList

end ProForma.Date
