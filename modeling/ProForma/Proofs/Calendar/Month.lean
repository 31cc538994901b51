import ProForma.Calendar.Month
import Mathlib.Tactic.Common

/-!
# Moving by months

A date is found by the number of its month and its day in that month, and dates stand in that order.
Moving by months goes to the last day of the month with the right number. That is all there is to
it: only the number of the month counts, so moves add up.
-/

namespace ProForma

namespace Date

/-! ### Order -/

theorem lt_iff_monthIndex {a b : Date} :
    a < b ↔ a.monthIndex < b.monthIndex ∨ a.monthIndex = b.monthIndex ∧ a.day < b.day := by
  have ha := a.hasDay
  have hb := b.hasDay
  have hmonths := And.intro ha.one_le_month ha.month_le
  have hmonths' := And.intro hb.one_le_month hb.month_le
  change Date.lt a b ↔ _
  unfold Date.lt monthIndex
  omega

theorem lt_trans {a b c : Date} (hab : a < b) (hbc : b < c) : a < c := by
  rw [lt_iff_monthIndex] at *
  omega

/-- The number of a month tells its year and its place there. -/
theorem monthIndex_eq_iff {d : Date} {index : Int} :
    d.monthIndex = index ↔
      d.year = index.fdiv 12 ∧ d.month = (index.fmod 12).toNat + 1 := by
  have hfirst := d.hasDay.one_le_month
  have hlast := d.hasDay.month_le
  rw [Int.fdiv_eq_ediv_of_nonneg _ (by decide), Int.fmod_eq_emod_of_nonneg _ (by decide)]
  unfold monthIndex
  omega

theorem same_month {a b : Date} (h : a.monthIndex = b.monthIndex) :
    a.year = b.year ∧ a.month = b.month := by
  obtain ⟨hyear, hmonth⟩ := monthIndex_eq_iff.1 h
  obtain ⟨hyear', hmonth'⟩ := monthIndex_eq_iff.1 (Eq.refl b.monthIndex)
  exact ⟨hyear.trans hyear'.symm, hmonth.trans hmonth'.symm⟩

/-! ### Month ends -/

/-- The last day of its month. -/
def IsMonthEnd (d : Date) : Prop :=
  d.day = Calendar.daysIn d.year d.month

/-- The month after this one is beyond the calendar. -/
def InLastMonth (d : Date) : Prop :=
  d.year = Calendar.lastYear ∧ d.month = 12

instance (d : Date) : Decidable d.IsMonthEnd :=
  inferInstanceAs (Decidable (d.day = _))

instance (d : Date) : Decidable d.InLastMonth :=
  inferInstanceAs (Decidable (d.year = _ ∧ d.month = 12))

theorem hasDay_first {year : Int} {month : Nat} (hlow : Calendar.firstYear ≤ year)
    (hhigh : year ≤ Calendar.lastYear) (hmonth : 1 ≤ month) (hmonths : month ≤ 12) :
    Calendar.HasDay year month 1 := by
  refine ⟨hlow, hhigh, hmonth, hmonths, Nat.le_refl 1, ?_⟩
  unfold Calendar.daysIn
  repeat' split
  all_goals decide

/-- The day before the first of January is the last of December. -/
theorem monthEnd?_december {year : Int} {x : Date} :
    monthEnd? year 12 = some x ↔
      (x.year = year ∧ x.month = 12) ∧ x.day = 31 ∧ x.year ≠ Calendar.lastYear := by
  rw [monthEnd?, if_pos rfl, Option.bind_eq_some_iff]
  constructor
  · rintro ⟨next, hnext, hprevious⟩
    obtain ⟨hyear, hmonth, hday⟩ := of?_eq_some_iff.1 hnext
    have hlast := next.hasDay.le_lastYear
    rw [previous?, if_neg (by omega), if_neg (by omega), of?_eq_some_iff] at hprevious
    omega
  · rintro ⟨⟨hyear, hmonth⟩, hday, hlast⟩
    have hlow := x.hasDay.firstYear_le
    have hhigh := x.hasDay.le_lastYear
    have hnext : Calendar.HasDay (year + 1) 1 1 :=
      hasDay_first (by omega) (by omega) (Nat.le_refl 1) (by decide)
    refine ⟨⟨year + 1, 1, 1, hnext⟩, of?_eq_some_iff.2 ⟨rfl, rfl, rfl⟩, ?_⟩
    exact of?_eq_some_iff.2 ⟨by dsimp only; omega, hmonth, hday⟩

/-- The day before the first of another month is the last of the month before. -/
theorem monthEnd?_of_lt {year : Int} {month : Nat} {x : Date} (hmonth : 1 ≤ month)
    (hlt : month < 12) :
    monthEnd? year month = some x ↔
      (x.year = year ∧ x.month = month) ∧ x.day = Calendar.daysIn year month := by
  rw [monthEnd?, if_neg (by omega), Option.bind_eq_some_iff]
  constructor
  · rintro ⟨next, hnext, hprevious⟩
    obtain ⟨rfl, hmonth', hday⟩ := of?_eq_some_iff.1 hnext
    rw [previous?, if_neg (by omega), if_pos (by omega), of?_eq_some_iff, hmonth'] at hprevious
    exact ⟨⟨hprevious.1, hprevious.2.1⟩, hprevious.2.2⟩
  · rintro ⟨⟨rfl, rfl⟩, hday⟩
    have hnext : Calendar.HasDay x.year (x.month + 1) 1 :=
      hasDay_first x.hasDay.firstYear_le x.hasDay.le_lastYear (by omega) (by omega)
    refine ⟨⟨x.year, x.month + 1, 1, hnext⟩, of?_eq_some_iff.2 ⟨rfl, rfl, rfl⟩, ?_⟩
    rw [previous?, if_neg (by dsimp only; omega), if_pos (by dsimp only; omega)]
    exact of?_eq_some_iff.2 ⟨rfl, rfl, hday⟩

theorem monthEnd?_eq_some_iff {year : Int} {month : Nat} {x : Date} (hmonth : 1 ≤ month)
    (hmonths : month ≤ 12) :
    monthEnd? year month = some x ↔
      (x.year = year ∧ x.month = month) ∧ x.IsMonthEnd ∧ ¬ x.InLastMonth := by
  unfold IsMonthEnd InLastMonth
  rcases Nat.lt_or_eq_of_le hmonths with hlt | rfl
  · rw [monthEnd?_of_lt hmonth hlt]
    constructor
    · rintro ⟨⟨rfl, rfl⟩, hday⟩
      exact ⟨⟨rfl, rfl⟩, hday, fun hlast => by omega⟩
    · rintro ⟨⟨rfl, rfl⟩, hday, -⟩
      exact ⟨⟨rfl, rfl⟩, hday⟩
  · rw [monthEnd?_december]
    constructor
    · rintro ⟨⟨rfl, hdecember⟩, hday, hlast⟩
      rw [hdecember]
      exact ⟨⟨rfl, rfl⟩, hday, fun hbeyond => hlast hbeyond.1⟩
    · rintro ⟨⟨rfl, hdecember⟩, hday, hlast⟩
      rw [hdecember] at hday
      exact ⟨⟨rfl, hdecember⟩, hday, fun hyear => hlast ⟨hyear, hdecember⟩⟩

/-! ### Moves -/

/-- Where a move by months ends depends on the number of the month alone. -/
theorem advance?_eq_some_iff {d x : Date} {months : Int} :
    d.advance? months = some x ↔
      x.monthIndex = d.monthIndex + months ∧ x.IsMonthEnd ∧ ¬ x.InLastMonth := by
  have hrest : ((d.monthIndex + months).fmod 12).toNat < 12 := by
    rw [Int.fmod_eq_emod_of_nonneg _ (by decide)]
    omega
  rw [advance?, monthEnd?_eq_some_iff (by omega) (by omega), monthIndex_eq_iff]

theorem advance?_add {d x : Date} {a : Int} (h : d.advance? a = some x) (b : Int) :
    x.advance? b = d.advance? (a + b) := by
  obtain ⟨hindex, -, -⟩ := advance?_eq_some_iff.1 h
  ext y
  rw [advance?_eq_some_iff, advance?_eq_some_iff, hindex, Int.add_assoc]

theorem monthsUntil_of_advance? {d x : Date} {a : Int} (h : d.advance? a = some x) :
    d.monthsUntil x = a := by
  obtain ⟨hindex, -, -⟩ := advance?_eq_some_iff.1 h
  rw [monthsUntil_eq]
  omega

theorem lt_of_advance? {d x : Date} {a : Int} (h : d.advance? a = some x) (ha : 1 ≤ a) :
    d < x := by
  obtain ⟨hindex, -, -⟩ := advance?_eq_some_iff.1 h
  exact lt_iff_monthIndex.2 (.inl (by omega))

theorem gt_of_advance? {d x : Date} {a : Int} (h : d.advance? a = some x) (ha : a ≤ -1) :
    x < d := by
  obtain ⟨hindex, -, -⟩ := advance?_eq_some_iff.1 h
  exact lt_iff_monthIndex.2 (.inl (by omega))

/-- The end of a month is not before any other day of it. -/
theorem not_lt_of_isMonthEnd {d x : Date} (h : x.IsMonthEnd)
    (hmonth : x.monthIndex = d.monthIndex) : ¬ x < d := by
  obtain ⟨hyear, hmonth'⟩ := same_month hmonth
  have hday := d.hasDay.day_le
  rw [IsMonthEnd, hyear, hmonth'] at h
  rw [lt_iff_monthIndex]
  omega

/-- **Moves count months.** A move by months ends at the end of a month, as many months away as was
asked for: later for a positive number, earlier for a negative one, and not earlier for none. Two
moves go where one move by the sum goes, or neither goes anywhere. -/
theorem advance?_counts {d x : Date} {a : Int} (h : d.advance? a = some x) :
    x.IsMonthEnd ∧ d.monthsUntil x = a ∧ (1 ≤ a → d < x) ∧ (a = 0 → ¬ x < d) ∧
      (a ≤ -1 → x < d) ∧ ∀ b, x.advance? b = d.advance? (a + b) := by
  obtain ⟨hindex, hend, -⟩ := advance?_eq_some_iff.1 h
  refine ⟨hend, monthsUntil_of_advance? h, lt_of_advance? h, ?_, gt_of_advance? h, advance?_add h⟩
  rintro rfl
  exact not_lt_of_isMonthEnd hend (by omega)

/-- From the year before year 0 into its February, which has a leap day, and back over the start of
the calendar. -/
theorem advance?_counts_leap_day :
    ∃ d x : Date, d.text = "-0001-12-15" ∧ x.text = "0000-02-29" ∧ d.advance? 2 = some x ∧
      d.monthsUntil x = 2 ∧ d < x ∧ x.advance? (-3145718) = d.advance? (-3145716) := by
  have h : (⟨-1, 12, 15, by decide⟩ : Date).advance? 2 = some ⟨0, 2, 29, by decide⟩ := by decide
  obtain ⟨-, hmonths, hlater, -, -, hadd⟩ := advance?_counts h
  exact ⟨_, _, by decide, by decide, h, hmonths, hlater (by decide), hadd _⟩

end Date

end ProForma
