import Mathlib

/-!
# Calendar fields of an instant, and their text

An instant, in milliseconds from the start of the year 0 of the proleptic
Gregorian calendar, is split into its calendar fields; the fields are written
with fixed widths. Both steps keep the order: the fields of a later instant are
lexicographically greater, and so is their text.
-/

namespace Mdbase.Library

/-- The last `width` decimal digits of a number, with leading zeros. -/
def padded : (width number : Nat) → List Char
  | 0, _ => []
  | width + 1, number => padded width (number / 10) ++ [Nat.digitChar (number % 10)]

@[simp] theorem length_padded (width number : Nat) : (padded width number).length = width := by
  induction width generalizing number with
  | zero => rfl
  | succ width ih => simp [padded, ih]

theorem digitChar_lt {left right : Nat} (below : left < right) (bound : right < 10) :
    Nat.digitChar left < Nat.digitChar right := by
  rw [Char.lt_def, UInt32.lt_iff_toNat_lt]
  have leftDigit := Nat.toNat_digitChar_of_lt_ten (show left < 10 by omega)
  have rightDigit := Nat.toNat_digitChar_of_lt_ten bound
  simp only [Char.toNat] at leftDigit rightDigit
  omega

theorem append_lt_append {α : Type} [LinearOrder α] {left right leftRest rightRest : List α}
    (width : left.length = right.length) (below : left < right) :
    left ++ leftRest < right ++ rightRest := by
  induction left generalizing right with
  | nil =>
    rw [List.length_nil, eq_comm, List.length_eq_zero_iff] at width
    subst width
    exact absurd below (lt_irrefl _)
  | cons head tail ih =>
    cases right with
    | nil => simp at width
    | cons other others =>
      rw [List.cons_lt_cons_iff] at below
      rw [List.cons_append, List.cons_append, List.cons_lt_cons_iff]
      rcases below with first | ⟨same, rest⟩
      · exact .inl first
      · exact .inr ⟨same, ih (by simpa using width) rest⟩

theorem padded_lt {width left right : Nat} (below : left < right) (bound : right < 10 ^ width) :
    padded width left < padded width right := by
  induction width generalizing left right with
  | zero => omega
  | succ width ih =>
    rw [padded, padded]
    rcases Nat.lt_or_ge (left / 10) (right / 10) with higher | same
    · exact append_lt_append (by simp) (ih higher (by omega))
    · have equal : left / 10 = right / 10 := by omega
      rw [equal]
      apply List.append_left_lt
      rw [List.cons_lt_cons_iff]
      exact .inl (digitChar_lt (by omega) (by omega))

/-- Numbers written one after the other, each in its width and followed by its
separator. -/
def fieldsText : List (Nat × List Char) → List Nat → List Char
  | (width, separator) :: layout, number :: numbers =>
    padded width number ++ (separator ++ fieldsText layout numbers)
  | _, _ => []

/-- Every number fits the width that the layout gives it. -/
def FitsLayout (layout : List (Nat × List Char)) (numbers : List Nat) : Prop :=
  List.Forall₂ (fun field number => number < 10 ^ field.1) layout numbers

variable {layout : List (Nat × List Char)}

/-- The texts of number lists of one layout are ordered as the lists are. -/
theorem fieldsText_lt {left right : List Nat}
    (leftFits : FitsLayout layout left) (rightFits : FitsLayout layout right)
    (below : left < right) : fieldsText layout left < fieldsText layout right := by
  induction leftFits generalizing right with
  | nil =>
    cases rightFits
    exact absurd below (lt_irrefl _)
  | cons _ _ ih =>
    cases rightFits with
    | cons fits rest =>
      rw [fieldsText, fieldsText]
      rw [List.cons_lt_cons_iff] at below
      rcases below with first | ⟨rfl, later⟩
      · exact append_lt_append (by simp) (padded_lt first fits)
      · exact List.append_left_lt (List.append_left_lt (ih rest later))

/-- The leap days before a year, counted from the year 0. -/
def leapDays (year : Int) : Int := (year + 3) / 4 - (year + 99) / 100 + (year + 399) / 400

/-- The first day of a year. -/
def yearStart (year : Int) : Int := 365 * year + leapDays year

/-- The year of a day. Within a cycle of 400 years the year is guessed from a
length of 365 days and corrected by the leap days before it. -/
def yearOf (day : Int) : Int :=
  let cycle := day / 146097
  let within := day % 146097
  let guess := within / 365
  400 * cycle + if within % 365 < leapDays guess then guess - 1 else guess

theorem yearStart_cycle (cycle year : Int) :
    yearStart (400 * cycle + year) = 146097 * cycle + yearStart year := by
  have fours : (400 * cycle + year + 3) / 4 = 100 * cycle + (year + 3) / 4 := by omega
  have hundreds : (400 * cycle + year + 99) / 100 = 4 * cycle + (year + 99) / 100 := by omega
  have cycles : (400 * cycle + year + 399) / 400 = cycle + (year + 399) / 400 := by omega
  rw [yearStart, yearStart, leapDays, leapDays, fours, hundreds, cycles]
  ring

/-- A day lies in the year found for it. -/
theorem yearOf_bounds (day : Int) :
    yearStart (yearOf day) ≤ day ∧ day < yearStart (yearOf day + 1) := by
  have split := Int.mul_ediv_add_emod day 146097
  have leap : ∀ year : Int, 0 ≤ year → year ≤ 401 → 0 ≤ leapDays year ∧ leapDays year ≤ 98 := by
    intro year first last
    unfold leapDays
    omega
  rw [yearOf]
  generalize day / 146097 = cycle at *
  have lower := Int.emod_nonneg day (show (146097 : Int) ≠ 0 by decide)
  have upper := Int.emod_lt_of_pos day (show (0 : Int) < 146097 by decide)
  generalize day % 146097 = within at *
  rw [add_assoc, yearStart_cycle, yearStart_cycle]
  unfold yearStart
  split_ifs with early
  · rw [sub_add_cancel]
    have before := leap (within / 365) (by omega) (by omega)
    have positive : 1 ≤ within / 365 := by
      by_contra first
      have zero : within / 365 = 0 := by omega
      rw [zero] at early
      have none : leapDays 0 = 0 := by decide
      omega
    have previous := leap (within / 365 - 1) (by omega) (by omega)
    omega
  · have next := leap (within / 365 + 1) (by omega) (by omega)
    omega

theorem yearStart_mono : Monotone yearStart := by
  refine monotone_int_of_le_succ fun year => ?_
  have fours : (year + 3) / 4 ≤ (year + 1 + 3) / 4 := Int.ediv_le_ediv (by norm_num) (by omega)
  have hundreds : (year + 1 + 99) / 100 ≤ (year + 99) / 100 + 1 := by omega
  have cycles : (year + 399) / 400 ≤ (year + 1 + 399) / 400 :=
    Int.ediv_le_ediv (by norm_num) (by omega)
  unfold yearStart leapDays
  linarith

variable {left right : Int}

theorem yearOf_mono (le : left ≤ right) : yearOf left ≤ yearOf right := by
  have leftBounds := yearOf_bounds left
  have rightBounds := yearOf_bounds right
  by_contra above
  have starts : yearStart (yearOf right + 1) ≤ yearStart (yearOf left) := yearStart_mono (by omega)
  omega

/-- The lengths of the months of a year with the given number of leap days. -/
def monthLengths (leap : Int) : List Int := [31, 28 + leap, 31, 30, 31, 30, 31, 31, 30, 31, 30, 31]

/-- The month that a day falls into and its number there: walk through the
months while the day lies behind their end. -/
def monthDay : (lengths : List Int) → (month : Nat) → (day : Int) → Nat × Nat
  | [], month, day => (month, day.toNat + 1)
  | length :: lengths, month, day =>
    if day < length then (month, day.toNat + 1)
    else monthDay lengths (month + 1) (day - length)

theorem le_monthDay (lengths : List Int) (month : Nat) (day : Int) :
    month ≤ (monthDay lengths month day).1 := by
  induction lengths generalizing month day with
  | nil => exact le_rfl
  | cons length lengths ih =>
    rw [monthDay]
    split
    next => exact le_rfl
    next => exact (Nat.le_succ _).trans (ih _ _)

/-- A later day of a year falls into a later month, or later into the same. -/
theorem monthDay_lt {lengths : List Int} {month : Nat} {left right : Int} (start : 0 ≤ left)
    (below : left < right) :
    (monthDay lengths month left).1 < (monthDay lengths month right).1 ∨
      ((monthDay lengths month left).1 = (monthDay lengths month right).1 ∧
        (monthDay lengths month left).2 < (monthDay lengths month right).2) := by
  induction lengths generalizing month left right with
  | nil =>
    right
    simp only [monthDay, true_and]
    omega
  | cons length lengths ih =>
    rw [monthDay, monthDay]
    split
    next leftHere =>
      split
      next =>
        right
        refine ⟨rfl, ?_⟩
        dsimp only
        omega
      next => exact .inl ((Nat.lt_succ_self _).trans_le (le_monthDay _ _ _))
    next leftLater =>
      rw [if_neg (by omega)]
      exact ih (by omega) (by omega)

/-- The month and the day found by the walk stay within the year and within the
longest month. -/
theorem monthDay_bounds {lengths : List Int} {longest month : Nat} {day : Int}
    (short : ∀ length ∈ lengths, length ≤ longest) (start : 0 ≤ day) (within : day < lengths.sum) :
    (monthDay lengths month day).1 < month + lengths.length ∧
      (monthDay lengths month day).2 ≤ longest := by
  induction lengths generalizing month day with
  | nil =>
    rw [List.sum_nil] at within
    omega
  | cons length lengths ih =>
    have first := short length List.mem_cons_self
    rw [List.sum_cons] at within
    rw [monthDay, List.length_cons]
    split
    next =>
      dsimp only
      omega
    have rest := @ih (month + 1) (day - length)
      (fun other member => short other (List.mem_cons_of_mem _ member)) (by omega) (by omega)
    omega

def millisPerDay : Int := 86400000

theorem millisPerDay_pos : 0 < millisPerDay := by
  norm_num [millisPerDay]

/-- Year, month, day, hour, minute, second and millisecond of an instant. -/
def civilFields (instant : Int) : List Nat :=
  let day := instant / millisPerDay
  let within := (instant % millisPerDay).toNat
  let year := yearOf day
  let (month, dayOfMonth) :=
    monthDay (monthLengths (leapDays (year + 1) - leapDays year)) 1 (day - yearStart year)
  [year.toNat, month, dayOfMonth, within / 3600000, within / 60000 % 60, within / 1000 % 60,
    within % 1000]

/-- Within a year the fields after the year tell instants apart. -/
theorem civilFields_tail_lt (below : left < right)
    (sameYear : yearOf (left / millisPerDay) = yearOf (right / millisPerDay)) :
    (civilFields left).tail < (civilFields right).tail := by
  have days : left / millisPerDay ≤ right / millisPerDay :=
    Int.ediv_le_ediv millisPerDay_pos below.le
  have leftBounds := yearOf_bounds (left / millisPerDay)
  simp only [civilFields, List.tail_cons, List.cons_lt_cons_iff]
  rcases lt_or_eq_of_le days with earlier | sameDay
  · have months := @monthDay_lt
      (monthLengths (leapDays (yearOf (left / millisPerDay) + 1) -
        leapDays (yearOf (left / millisPerDay)))) 1
      (left / millisPerDay - yearStart (yearOf (left / millisPerDay)))
      (right / millisPerDay - yearStart (yearOf (left / millisPerDay))) (by omega) (by omega)
    rw [← sameYear]
    rcases months with month | ⟨month, day⟩
    · exact .inl month
    · exact .inr ⟨month, .inl day⟩
  · rw [← sameDay]
    refine .inr ⟨rfl, .inr ⟨rfl, ?_⟩⟩
    simp only [millisPerDay] at sameDay ⊢
    omega

theorem civilFields_lt (start : 0 ≤ left) (below : left < right) :
    civilFields left < civilFields right := by
  have days : left / millisPerDay ≤ right / millisPerDay :=
    Int.ediv_le_ediv millisPerDay_pos below.le
  have years := yearOf_mono days
  have firstYear : 0 ≤ yearOf (left / millisPerDay) := by
    have first : yearOf 0 ≤ yearOf (left / millisPerDay) :=
      yearOf_mono (Int.ediv_nonneg start millisPerDay_pos.le)
    have zero : yearOf 0 = 0 := by decide
    rwa [zero] at first
  rw [civilFields, civilFields, List.cons_lt_cons_iff]
  rcases lt_or_eq_of_le years with earlier | sameYear
  · left
    omega
  · right
    exact ⟨by rw [sameYear], civilFields_tail_lt below sameYear⟩

theorem civilFields_tail_fits (instant : Int) (widths : layout.map Prod.fst = [2, 2, 2, 2, 2, 3]) :
    FitsLayout layout (civilFields instant).tail := by
  have bounds := yearOf_bounds (instant / millisPerDay)
  have within := Int.emod_lt_of_pos instant millisPerDay_pos
  have leap : leapDays (yearOf (instant / millisPerDay) + 1) -
      leapDays (yearOf (instant / millisPerDay)) ≤ 3 := by
    unfold leapDays
    omega
  have month := @monthDay_bounds
    (monthLengths (leapDays (yearOf (instant / millisPerDay) + 1) -
      leapDays (yearOf (instant / millisPerDay)))) 31 1
    (instant / millisPerDay - yearStart (yearOf (instant / millisPerDay)))
    (by simp [monthLengths]; omega) (by omega)
    (by simp only [monthLengths, List.sum_cons, List.sum_nil]; unfold yearStart at *; omega)
  have listed : FitsLayout ([2, 2, 2, 2, 2, 3].map fun width => (width, []))
      (civilFields instant).tail := by
    simp only [civilFields, FitsLayout, List.tail_cons, List.map_cons, List.map_nil,
      List.forall₂_cons, List.forall₂_nil_left_iff, and_true, millisPerDay] at *
    simp only [monthLengths, List.length_cons, List.length_nil] at month ⊢
    refine ⟨?_, ?_, ?_, ?_, ?_, ?_⟩ <;> omega
  rw [FitsLayout, List.forall₂_map_left_iff, ← widths, List.forall₂_map_left_iff] at listed
  exact listed

theorem civilFields_fits {instant : Int} (widths : layout.map Prod.fst = [4, 2, 2, 2, 2, 2, 3])
    (stop : instant < yearStart 10000 * millisPerDay) : FitsLayout layout (civilFields instant) := by
  have last : yearOf (instant / millisPerDay) < 10000 := by
    have day : instant / millisPerDay ≤ yearStart 10000 - 1 :=
      Int.le_sub_one_of_lt (Int.ediv_lt_of_lt_mul millisPerDay_pos stop)
    have lastYear : yearOf (yearStart 10000 - 1) = 9999 := by decide +kernel
    have year := yearOf_mono day
    omega
  cases layout with
  | nil => cases widths
  | cons field fields =>
    obtain ⟨width, rest⟩ := List.cons.inj widths
    refine .cons ?_ (civilFields_tail_fits instant rest)
    rw [width]
    omega

end Mdbase.Library
