import Mdbase.Library.CivilTime
import Mdbase.Runtime.Value

/-!
# Timestamps of the SQLite store

Instants are stored as RFC 3339 texts with milliseconds, and SQL compares the
texts. For instants that are whole milliseconds of the years 0 to 9999 the order
of the texts is the order of the instants; an instant before the year 0 is
written with a sign that sorts in front of every digit.
-/

namespace Mdbase.Runtime.Sqlite

open Library

theorem dateTime_lt_iff {left right : Int} :
    @LT.lt DateTime Preorder.toLT left right ↔ left < right := Iff.rfl

theorem dateTime_le_iff {left right : Int} :
    @LE.le DateTime Preorder.toLE left right ↔ left ≤ right := Iff.rfl

/-- The start of the year 0. -/
def yearZero : DateTime := -62167219200 * 1000000000

/-- The start of the year 10000. -/
def yearTenThousand : DateTime := 253402300800 * 1000000000

/-- The widths and the separators of `YYYY-MM-DDTHH:MM:SS.mmmZ`. -/
def timestampLayout : List (Nat × List Char) :=
  [(4, ['-']), (2, ['-']), (2, ['T']), (2, [':']), (2, [':']), (2, ['.']), (3, ['Z'])]

/-- A year of more or less than four digits, or a negative one: with its sign. -/
def signedYear (year : Int) : List Char :=
  (if year < 0 then '-' else '+') ::
    if year.natAbs < 10000 then padded 4 year.natAbs else Nat.toDigits 10 year.natAbs

/-- `timestamp`. -/
def timestamp (value : DateTime) : String :=
  let millis := (value - yearZero) / 1000000
  let year := yearOf (millis / millisPerDay)
  if 0 ≤ year ∧ year ≤ 9999 then
    String.ofList (fieldsText timestampLayout (civilFields millis))
  else
    String.ofList (signedYear year ++
      ('-' :: fieldsText timestampLayout.tail (civilFields millis).tail))

example : timestamp 0 = "1970-01-01T00:00:00.000Z" := by decide +kernel

example : timestamp 1709164800123000000 = "2024-02-29T00:00:00.123Z" := by decide +kernel

/-- An instant that its timestamp determines: a whole millisecond of the years 0
to 9999. -/
structure Stamped (value : DateTime) : Prop where
  whole : value % 1000000 = 0
  first : yearZero ≤ value
  last : value < yearTenThousand

instance (value : DateTime) : Decidable (Stamped value) :=
  decidable_of_iff (value % 1000000 = 0 ∧ yearZero ≤ value ∧ value < yearTenThousand)
    ⟨fun ⟨whole, first, last⟩ => ⟨whole, first, last⟩,
      fun stamped => ⟨stamped.whole, stamped.first, stamped.last⟩⟩

theorem Stamped.timestamp_eq {value : DateTime} (stamped : Stamped value) :
    timestamp value = String.ofList (fieldsText timestampLayout
      (civilFields ((value - yearZero) / 1000000))) ∧
    FitsLayout timestampLayout (civilFields ((value - yearZero) / 1000000)) := by
  have first : 0 ≤ (value - yearZero) / 1000000 :=
    Int.ediv_nonneg (sub_nonneg.mpr stamped.first) (by norm_num)
  have last : (value - yearZero) / 1000000 < yearStart 10000 * millisPerDay := by
    have bound := stamped.last
    have length : yearStart 10000 * millisPerDay = (yearTenThousand - yearZero) / 1000000 := by
      decide +kernel
    rw [length]
    simp only [yearTenThousand, yearZero, dateTime_lt_iff] at *
    omega
  have years : 0 ≤ yearOf ((value - yearZero) / 1000000 / millisPerDay) ∧
      yearOf ((value - yearZero) / 1000000 / millisPerDay) ≤ 9999 := by
    have firstDay : 0 ≤ (value - yearZero) / 1000000 / millisPerDay :=
      Int.ediv_nonneg first millisPerDay_pos.le
    have lastDay : (value - yearZero) / 1000000 / millisPerDay ≤ yearStart 10000 - 1 :=
      Int.le_sub_one_of_lt (Int.ediv_lt_of_lt_mul millisPerDay_pos last)
    have lower := yearOf_mono firstDay
    have upper := yearOf_mono lastDay
    have start : yearOf 0 = 0 := by decide
    have stop : yearOf (yearStart 10000 - 1) = 9999 := by decide +kernel
    omega
  refine ⟨?_, civilFields_fits rfl last⟩
  rw [timestamp, if_pos years]

theorem timestamp_of_lt_yearZero {value : DateTime} (early : value < yearZero) :
    ∃ rest, timestamp value = String.ofList ('-' :: rest) := by
  have day : (value - yearZero) / 1000000 / millisPerDay ≤ -1 := by
    simp only [millisPerDay, yearZero, dateTime_lt_iff, dateTime_le_iff] at *
    omega
  have year := yearOf_mono day
  have before : yearOf (-1) = -1 := by decide
  rw [timestamp, if_neg (by omega), signedYear, if_pos (by omega)]
  exact ⟨_, rfl⟩

variable {left right : DateTime}

theorem timestamp_lt (whole : left % 1000000 = 0)
    (rightStamped : Stamped right) (below : left < right) : timestamp left < timestamp right := by
  obtain ⟨rightText, rightFits⟩ := rightStamped.timestamp_eq
  rw [String.lt_iff_toList_lt, rightText]
  rcases lt_or_ge left yearZero with early | first
  · obtain ⟨rest, leftText⟩ := timestamp_of_lt_yearZero early
    rw [leftText]
    simp only [String.toList_ofList, timestampLayout, civilFields, fieldsText, padded,
      List.nil_append, List.cons_append]
    rw [List.cons_lt_cons_iff]
    left
    rw [Char.lt_def, UInt32.lt_iff_toNat_lt]
    have digit := Nat.toNat_digitChar_of_lt_ten (Nat.mod_lt
      ((yearOf ((right - yearZero) / 1000000 / millisPerDay)).toNat / 10 / 10 / 10)
      (show 10 > 0 by decide))
    simp only [Char.toNat] at digit
    rw [digit]
    have minus : '-'.val.toNat = 45 := by decide
    omega
  · have leftStamped : Stamped left := ⟨whole, first, below.trans rightStamped.last⟩
    obtain ⟨leftText, leftFits⟩ := leftStamped.timestamp_eq
    rw [leftText, String.toList_ofList, String.toList_ofList]
    apply fieldsText_lt leftFits rightFits
    obtain ⟨leftMillis, rfl⟩ := Int.dvd_of_emod_eq_zero whole
    obtain ⟨rightMillis, rfl⟩ := Int.dvd_of_emod_eq_zero rightStamped.whole
    simp only [yearZero, dateTime_lt_iff, dateTime_le_iff] at *
    exact civilFields_lt (by omega) (by omega)

/-- The timestamp of an instant up to the year 9999 precedes that of a stamped
one exactly when the instant does. -/
theorem timestamp_lt_iff (whole : left % 1000000 = 0)
    (last : left < yearTenThousand) (rightStamped : Stamped right) :
    timestamp left < timestamp right ↔ left < right := by
  constructor
  · intro below
    by_contra notBelow
    rcases lt_or_eq_of_le (not_lt.mp notBelow) with above | rfl
    · have leftStamped : Stamped left := ⟨whole, rightStamped.first.trans above.le, last⟩
      exact absurd below (timestamp_lt rightStamped.whole leftStamped above).asymm
    · exact lt_irrefl _ below
  · exact timestamp_lt whole rightStamped

theorem Stamped.timestamp_le_iff (leftStamped : Stamped left)
    (rightStamped : Stamped right) : timestamp left ≤ timestamp right ↔ left ≤ right := by
  rw [← not_lt, ← not_lt, timestamp_lt_iff rightStamped.whole rightStamped.last leftStamped]

theorem Stamped.timestamp_inj (leftStamped : Stamped left)
    (rightStamped : Stamped right) : timestamp left = timestamp right ↔ left = right := by
  rw [le_antisymm_iff, leftStamped.timestamp_le_iff rightStamped,
    rightStamped.timestamp_le_iff leftStamped, ← le_antisymm_iff]

end Mdbase.Runtime.Sqlite
