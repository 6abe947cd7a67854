import Mdbase.Library.CivilTime

/-!
# Dates of the calendar and shifts by months

A date of the proleptic Gregorian calendar has a month index, the number of months since January
of the year 0. A shift adds to the index and cuts the day off at the end of the month it reaches.
The calendar has no end, so that every shift exists; and shifts of the days that all months have
add up.
-/

namespace Mdbase.Library

/-- The length of a month, from 1 to 12: the leap days of its year are those between its first day
and the first day of the next year. -/
def monthLength (year : Int) (month : Nat) : Nat :=
  ((monthLengths (leapDays (year + 1) - leapDays year)).getD (month - 1) 0).toNat

/-- A year of the Gregorian calendar has a leap day. -/
def IsLeap (year : Int) : Prop := year % 4 = 0 ∧ year % 100 ≠ 0 ∨ year % 400 = 0

instance (year : Int) : Decidable (IsLeap year) := inferInstanceAs (Decidable (_ ∨ _))

theorem leapDays_succ_sub (year : Int) :
    leapDays (year + 1) - leapDays year = if IsLeap year then 1 else 0 := by
  unfold leapDays IsLeap
  split_ifs <;> omega

theorem monthLength_eq {year : Int} {month : Nat} (first : 1 ≤ month) (last : month ≤ 12) :
    monthLength year month =
      if month = 2 then if IsLeap year then 29 else 28
      else if month = 4 ∨ month = 6 ∨ month = 9 ∨ month = 11 then 30 else 31 := by
  rw [monthLength, leapDays_succ_sub]
  split_ifs <;> interval_cases month <;> simp_all [monthLengths]

theorem le_monthLength {year : Int} {month : Nat} (first : 1 ≤ month) (last : month ≤ 12) :
    28 ≤ monthLength year month := by
  rw [monthLength_eq first last]
  split_ifs <;> decide

/-- A date. -/
@[ext] structure CivilDate where
  year : Int
  month : Nat
  day : Nat
  month_pos : 1 ≤ month
  month_le : month ≤ 12
  day_pos : 1 ≤ day
  day_le : day ≤ monthLength year month
  deriving DecidableEq

namespace CivilDate

/-- The months since January of the year 0. -/
def monthIndex (date : CivilDate) : Int := 12 * date.year + date.month - 1

/-- The date is shifted by some months, with the day cut off at the end of the month. -/
structure IsShift (date : CivilDate) (months : Int) (shifted : CivilDate) : Prop where
  index : shifted.monthIndex = date.monthIndex + months
  day : shifted.day = min date.day (monthLength shifted.year shifted.month)

theorem year_eq (date : CivilDate) : date.year = date.monthIndex / 12 := by
  have first := date.month_pos
  have last := date.month_le
  rw [monthIndex]
  omega

theorem month_eq (date : CivilDate) : (date.month : Int) = date.monthIndex % 12 + 1 := by
  have first := date.month_pos
  have last := date.month_le
  rw [monthIndex]
  omega

theorem eq_of_monthIndex {left right : CivilDate} (same : left.monthIndex = right.monthIndex)
    (day : left.day = right.day) : left = right := by
  have years : left.year = right.year := by rw [left.year_eq, right.year_eq, same]
  have months : (left.month : Int) = right.month := by rw [left.month_eq, right.month_eq, same]
  exact CivilDate.ext years (Int.ofNat_inj.mp months) day

/-- The date with a month index and a day, cut off at the end of the month. -/
def ofIndex (index : Int) (day : Nat) (positive : 1 ≤ day) : CivilDate where
  year := index / 12
  month := (index % 12 + 1).toNat
  day := min day (monthLength (index / 12) (index % 12 + 1).toNat)
  month_pos := by omega
  month_le := by omega
  day_pos := by
    have long : 28 ≤ monthLength (index / 12) (index % 12 + 1).toNat :=
      le_monthLength (by omega) (by omega)
    omega
  day_le := Nat.min_le_right _ _

@[simp] theorem monthIndex_ofIndex (index : Int) (day : Nat) (positive : 1 ≤ day) :
    (ofIndex index day positive).monthIndex = index := by
  simp only [monthIndex, ofIndex]
  omega

/-- The shift by some months. -/
def shift (date : CivilDate) (months : Int) : CivilDate :=
  ofIndex (date.monthIndex + months) date.day date.day_pos

/-- The shift of a date by months is the one described. -/
theorem isShift_shift (date : CivilDate) (months : Int) : date.IsShift months (date.shift months) :=
  ⟨monthIndex_ofIndex _ _ _, rfl⟩

theorem isShift_iff {date shifted : CivilDate} {months : Int} :
    date.IsShift months shifted ↔ shifted = date.shift months := by
  constructor
  · intro isShift
    have other := date.isShift_shift months
    have same : shifted.monthIndex = (date.shift months).monthIndex := by
      rw [isShift.index, other.index]
    refine eq_of_monthIndex same ?_
    have years : shifted.year = (date.shift months).year := by
      rw [year_eq, year_eq, same]
    have months : (shifted.month : Int) = (date.shift months).month := by
      rw [month_eq, month_eq, same]
    rw [isShift.day, other.day, years, Int.ofNat_inj.mp months]
  · rintro rfl
    exact date.isShift_shift months

theorem day_shift {date : CivilDate} (early : date.day ≤ 28) (months : Int) :
    (date.shift months).day = date.day := by
  rw [(date.isShift_shift months).day]
  exact Nat.min_eq_left (early.trans (le_monthLength (month_pos _) (month_le _)))

theorem shift_shift {date : CivilDate} (early : date.day ≤ 28) (first second : Int) :
    (date.shift first).shift second = date.shift (first + second) := by
  have kept := day_shift early first
  refine eq_of_monthIndex ?_ ?_
  · rw [((date.shift first).isShift_shift second).index, (date.isShift_shift first).index,
      (date.isShift_shift (first + second)).index, add_assoc]
  · rw [day_shift (kept.trans_le early), kept, day_shift early]

end CivilDate
end Mdbase.Library
