/-!
Dates of the proleptic Gregorian calendar, in the years -262143 to 262142.
-/

namespace ProForma

namespace Calendar

def firstYear : Int := -262143

def lastYear : Int := 262142

def IsLeap (year : Int) : Prop :=
  year % 4 = 0 ∧ (year % 100 ≠ 0 ∨ year % 400 = 0)

instance (year : Int) : Decidable (IsLeap year) := by unfold IsLeap; infer_instance

def daysIn (year : Int) (month : Nat) : Nat :=
  match month with
  | 2 => if IsLeap year then 29 else 28
  | 4 | 6 | 9 | 11 => 30
  | _ => 31

/-- The calendar has this day. -/
structure HasDay (year : Int) (month day : Nat) : Prop where
  firstYear_le : firstYear ≤ year
  le_lastYear : year ≤ lastYear
  one_le_month : 1 ≤ month
  month_le : month ≤ 12
  one_le_day : 1 ≤ day
  day_le : day ≤ daysIn year month

instance (year : Int) (month day : Nat) : Decidable (HasDay year month day) :=
  decidable_of_iff
    (firstYear ≤ year ∧ year ≤ lastYear ∧ 1 ≤ month ∧ month ≤ 12 ∧ 1 ≤ day ∧
      day ≤ daysIn year month)
    ⟨fun ⟨a, b, c, d, e, f⟩ => ⟨a, b, c, d, e, f⟩, fun ⟨a, b, c, d, e, f⟩ => ⟨a, b, c, d, e, f⟩⟩

end Calendar

structure Date where
  year : Int
  month : Nat
  day : Nat
  hasDay : Calendar.HasDay year month day
deriving DecidableEq

namespace Date

def of? (year : Int) (month day : Nat) : Option Date :=
  if h : Calendar.HasDay year month day then some ⟨year, month, day, h⟩ else none

theorem of?_eq_some_iff {year : Int} {month day : Nat} {d : Date} :
    of? year month day = some d ↔ d.year = year ∧ d.month = month ∧ d.day = day := by
  unfold of?
  split
  · constructor
    · rintro ⟨⟩; exact ⟨rfl, rfl, rfl⟩
    · obtain ⟨y, m, n, h⟩ := d
      rintro ⟨rfl, rfl, rfl⟩; rfl
  · rename_i hn
    simp only [reduceCtorEq, false_iff]
    rintro ⟨rfl, rfl, rfl⟩
    exact hn d.hasDay

protected def lt (a b : Date) : Prop :=
  a.year < b.year ∨ a.year = b.year ∧ (a.month < b.month ∨ a.month = b.month ∧ a.day < b.day)

instance : LT Date := ⟨Date.lt⟩

instance (a b : Date) : Decidable (a < b) := by
  change Decidable (Date.lt a b); unfold Date.lt; infer_instance

/-- The day before, unless the calendar starts with this one. -/
def previous? (d : Date) : Option Date :=
  if 1 < d.day then of? d.year d.month (d.day - 1)
  else if 1 < d.month then of? d.year (d.month - 1) (Calendar.daysIn d.year (d.month - 1))
  else of? (d.year - 1) 12 31

/-! ### Text -/

def pad (width n : Nat) : String :=
  let text := toString n
  "".pushn '0' (width - text.length) ++ text

/-- Years of four digits are bare; others carry a sign. -/
def yearText (year : Int) : String :=
  if 0 ≤ year ∧ year ≤ 9999 then pad 4 year.natAbs
  else (if year < 0 then "-" else "+") ++ pad 4 year.natAbs

/-- The month of a date, `YYYY-MM`. -/
def monthLabel (d : Date) : String :=
  yearText d.year ++ "-" ++ pad 2 d.month

/-- The date as `YYYY-MM-DD`. -/
def text (d : Date) : String :=
  d.monthLabel ++ "-" ++ pad 2 d.day

end Date

end ProForma
