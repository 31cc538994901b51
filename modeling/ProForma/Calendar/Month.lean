import ProForma.Calendar.Date

/-!
Arithmetic on calendar months: where they end, and how far apart they are.
-/

namespace ProForma.Date

/-- The last day of a month: the day before the next month starts. Month 0 is the one before
January. There is none if the calendar lacks the next month. -/
def monthEnd? (year : Int) (month : Nat) : Option Date :=
  let next := if month = 12 then of? (year + 1) 1 1 else of? year (month + 1) 1
  next.bind previous?

/-- Months since January of year 0. -/
def monthIndex (d : Date) : Int :=
  12 * d.year + d.month - 1

/-- Moves by whole months, back if negative, and on to the end of the month that is reached. -/
def advance? (d : Date) (months : Int) : Option Date :=
  let index := d.monthIndex + months
  monthEnd? (index.fdiv 12) ((index.fmod 12).toNat + 1)

/-- Whole months from one date's month to the other's. -/
def monthsUntil (start finish : Date) : Int :=
  12 * (finish.year - start.year) + (Int.ofNat finish.month - Int.ofNat start.month)

theorem monthsUntil_eq (start finish : Date) :
    start.monthsUntil finish = finish.monthIndex - start.monthIndex := by
  simp only [monthsUntil, monthIndex, Int.ofNat_eq_natCast]; omega

end ProForma.Date
