import ProForma.Calendar.Month
import ProForma.Calendar.Reader

/-!
Spans of whole months: one month, `YYYY-MM`, or from a first to a last, `YYYY-MM:YYYY-MM`.
-/

namespace ProForma

/-- What can go wrong with dates and spans. -/
inductive DateFault where
  | notMonth (text : String)
  | noMonthEnd (date : Date)
  | reversed (text : String)
  | notSpan (text : String)
  | cannotAdvance (date : Date) (months : Int)
deriving DecidableEq

namespace DateFault

def message : DateFault → String
  | .notMonth text => "Invalid date format in period: " ++ text ++ ". Expected YYYY-MM"
  | .noMonthEnd date => "No month end for " ++ date.text
  | .reversed text => "Period range ends before it starts: " ++ text
  | .notSpan text =>
    "Invalid period format: " ++ text ++ ". Expected 'YYYY-MM' or 'YYYY-MM:YYYY-MM'"
  | .cannotAdvance date months =>
    "Cannot advance " ++ date.text ++ " by " ++ toString months ++ " months"

end DateFault

/-- From the first day of a month to the last day of the same or another one. -/
structure Span where
  start : Date
  finish : Date
deriving DecidableEq

namespace Span

/-- The first day of a month given as text. -/
def monthStart (text : String) : Except DateFault Date :=
  match Date.read false (Text.trimChars text.toList ++ ['-', '0', '1']) with
  | .ok date => .ok date
  | .error _ => .error (.notMonth text)

def monthEnd (date : Date) : Except DateFault Date :=
  match Date.monthEnd? date.year date.month with
  | some last => .ok last
  | none => .error (.noMonthEnd date)

/-- The pieces of a text between the characters equal to `c`. -/
def splitAt (c : Char) : List Char → List (List Char)
  | [] => [[]]
  | d :: cs =>
    if d = c then [] :: splitAt c cs
    else match splitAt c cs with
      | [] => [[d]]
      | piece :: pieces => (d :: piece) :: pieces

def ofText (text : String) : Except DateFault Span :=
  match (splitAt ':' text.toList).map String.ofList with
  | [month] => do
    let start ← monthStart month
    pure ⟨start, ← monthEnd start⟩
  | [first, last] => do
    let start ← monthStart first
    let finish ← monthEnd (← monthStart last)
    if finish < start then throw (.reversed text)
    pure ⟨start, finish⟩
  | _ => throw (.notSpan text)

end Span

end ProForma
