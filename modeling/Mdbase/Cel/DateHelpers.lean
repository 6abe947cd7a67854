import Mdbase.Expressions.DateArithmetic
import Mdbase.Library.Bytes

/-!
# Date helpers of CEL

The helpers `addDays`, `addMonths` and `addYears` read a full date and write the date that they
reach. The calendar has no end: a helper is exact when it writes the date that the calendar has
there, or reports that this date is out of range.
-/

namespace Mdbase.Cel

open Library Expressions

/-- The date of the next day. -/
def nextDay (date : CivilDate) : CivilDate :=
  if inside : date.day < monthLength date.year date.month then
    ⟨date.year, date.month, date.day + 1, date.month_pos, date.month_le, by omega, inside⟩
  else .ofIndex (date.monthIndex + 1) 1 le_rfl

/-- The date of the day before. -/
def previousDay (date : CivilDate) : CivilDate :=
  if inside : 1 < date.day then
    ⟨date.year, date.month, date.day - 1, date.month_pos, date.month_le, by omega,
      (Nat.sub_le _ _).trans date.day_le⟩
  else .ofIndex (date.monthIndex - 1) 31 (Nat.le_add_left 1 30)

theorem monthLength_bounds (date : CivilDate) :
    28 ≤ monthLength date.year date.month ∧ monthLength date.year date.month ≤ 31 := by
  refine ⟨le_monthLength date.month_pos date.month_le, ?_⟩
  rw [monthLength_eq date.month_pos date.month_le]
  split_ifs <;> decide

/-- A date is found from its month index and from a day that is cut off at its own. -/
theorem ofIndex_eq {date : CivilDate} {index : Int} {day : Nat} (positive : 1 ≤ day)
    (same : index = date.monthIndex)
    (cut : min day (monthLength date.year date.month) = date.day) :
    CivilDate.ofIndex index day positive = date := by
  subst same
  have months : ((CivilDate.ofIndex date.monthIndex day positive).month : Int) = date.month := by
    rw [CivilDate.month_eq, date.month_eq, CivilDate.monthIndex_ofIndex]
  have years : (CivilDate.ofIndex date.monthIndex day positive).year = date.year := by
    rw [CivilDate.year_eq, date.year_eq, CivilDate.monthIndex_ofIndex]
  refine CivilDate.eq_of_monthIndex (CivilDate.monthIndex_ofIndex _ _ _) (Eq.trans ?_ cut)
  rw [← years, ← Int.ofNat_inj.mp months]
  rfl

/-- The step from a date to the next, which the step to the day before takes back. -/
def nextDayPerm : Equiv.Perm CivilDate where
  toFun := nextDay
  invFun := previousDay
  left_inv date := by
    have first := date.day_pos
    have last := date.day_le
    have long := monthLength_bounds date
    rw [nextDay]
    split
    next inside => simp [previousDay, Nat.lt_succ_of_le first]
    rename_i past
    have start : (CivilDate.ofIndex (date.monthIndex + 1) 1 le_rfl).day ≤ 1 := Nat.min_le_left _ _
    rw [previousDay, dif_neg start.not_gt]
    exact ofIndex_eq _ (by simp) (by omega)
  right_inv date := by
    have first := date.day_pos
    have last := date.day_le
    have long := monthLength_bounds date
    rw [previousDay]
    split
    next inside =>
      have before : date.day - 1 < monthLength date.year date.month := by omega
      ext <;> simp [nextDay, before]
      omega
    rename_i start
    have long := (monthLength_bounds (.ofIndex (date.monthIndex - 1) 31 (by decide))).2
    rw [nextDay, dif_neg (by rw [← Nat.min_eq_right long]; exact lt_irrefl _)]
    exact ofIndex_eq _ (by simp) (by omega)

/-- The date that is some days later, or earlier when the number is negative. -/
def addedDays (date : CivilDate) (days : Int) : CivilDate := (nextDayPerm ^ days) date

/-- `ExecutionError::function_error`, or a panic. -/
inductive HelperFailure where
  | functionError (function message : Text)
  | panic
  deriving DecidableEq

/-- The message of a failure, without the name of the helper. -/
def HelperFailure.message : HelperFailure → Option Text
  | functionError _ message => some message
  | panic => none

/-- `not_a_date`. -/
def notADate (function text : Text) : HelperFailure :=
  .functionError function ("'".toList ++ text ++ "' is not an RFC 3339 full-date".toList)

/-- `full_date`. -/
def fullDate (function text : Text) : Except HelperFailure NaiveDate :=
  if byteLength text ≠ 10 then .error (notADate function text)
  else match parseDate text with
    | some date => .ok date
    | none => .error (notADate function text)

/-- `shift`. -/
def shift (date : Option NaiveDate) (function : Text) : Except HelperFailure Text :=
  match date with
  | some date => .ok (formatDate date)
  | none => .error (.functionError function "the date is out of range".toList)

/-- The days of the longest `chrono::Duration`. -/
def maxDurationDays : Int := 106751991167

/-- `chrono::Duration::days`, which panics out of bounds. -/
def durationDays (days : Int) : Except HelperFailure Int :=
  if -maxDurationDays ≤ days ∧ days ≤ maxDurationDays then .ok days else .error .panic

/-- `NaiveDate::checked_add_signed`, with a duration of whole days. -/
def checkedAddSigned (date : NaiveDate) (days : Int) : Option NaiveDate :=
  NaiveDate.ofCivil (addedDays date.1 days)

/-- The days of a month that are tried, from one of them down. -/
def latestDay (year : Int) (month : Nat) : Nat → Option NaiveDate
  | 0 => none
  | day + 1 => (fromYmdOpt year month (day + 1)).or (latestDay year month day)

/-- An addition of `i64` that is not checked. -/
def addI64 (left right : Int) : Except HelperFailure Int :=
  if InI64 (left + right) then .ok (left + right) else .error .panic

/-- `i64::saturating_mul`. -/
def saturatingMul (left right : Int) : Int := max (-2 ^ 63) (min (2 ^ 63 - 1) (left * right))

/-- `add_months`. -/
def addMonthsTo (date : NaiveDate) (months : Int) : Except HelperFailure (Option NaiveDate) := do
  let index ← addI64 (← addI64 (date.1.year * 12) (date.1.month - 1)) months
  let year := index / 12
  if year < i32Min ∨ i32Max < year then return none
  return latestDay year ((index % 12).toNat + 1) date.1.day

/-- `addDays`. -/
def addDays (text : Text) (days : Int) : Except HelperFailure Text := do
  let date ← fullDate "addDays".toList text
  shift (checkedAddSigned date (← durationDays days)) "addDays".toList

/-- A full date is shifted by some months. -/
def shiftMonths (function text : Text) (months : Int) : Except HelperFailure Text := do
  let date ← fullDate function text
  shift (← addMonthsTo date months) function

/-- `addMonths`. -/
def addMonths (text : Text) (months : Int) : Except HelperFailure Text :=
  shiftMonths "addMonths".toList text months

/-- `addYears`. -/
def addYears (text : Text) (years : Int) : Except HelperFailure Text :=
  shiftMonths "addYears".toList text (saturatingMul years 12)

theorem fromYmdOpt_ofIndex (index : Int) {day : Nat} (positive : 1 ≤ day) :
    fromYmdOpt (index / 12) ((index % 12).toNat + 1) day =
      if day ≤ monthLength (index / 12) (index % 12 + 1).toNat then
        NaiveDate.ofCivil (.ofIndex index day positive)
      else none := by
  have month : (index % 12).toNat + 1 = (index % 12 + 1).toNat := by omega
  rw [month, fromYmdOpt]
  split_ifs with valid inside inside
  · exact congrArg NaiveDate.ofCivil (CivilDate.ext rfl rfl (Nat.min_eq_left inside).symm)
  · exact absurd valid.2.2 inside
  · exact absurd ⟨⟨by omega, by omega⟩, positive, inside⟩ valid
  · rfl

/-- The latest day of the month that is not after a day is that day, cut off. -/
theorem latestDay_eq (index : Int) {day : Nat} (positive : 1 ≤ day) :
    latestDay (index / 12) ((index % 12).toNat + 1) day =
      NaiveDate.ofCivil (.ofIndex index day positive) := by
  have long : 28 ≤ monthLength (index / 12) (index % 12 + 1).toNat :=
    le_monthLength (by omega) (by omega)
  induction day, positive using Nat.le_induction with
  | base => rw [latestDay, latestDay, Option.or_none, fromYmdOpt_ofIndex, if_pos (by omega)]
  | succ day positive ih =>
    rw [latestDay, ih, fromYmdOpt_ofIndex index (Nat.le_add_left 1 day)]
    split_ifs with inside
    · unfold NaiveDate.ofCivil
      split_ifs with first second second
      · rfl
      · rfl
      · exact absurd second first
      · rfl
    · refine (Option.none_or ..).trans (congrArg _ (CivilDate.ext rfl rfl ?_))
      simp only [CivilDate.ofIndex]
      omega

/-- The months are added in the calendar, unless the month index leaves `i64`. -/
theorem addMonthsTo_eq (date : NaiveDate) (months : Int) :
    addMonthsTo date months =
      if InI64 (date.1.monthIndex + months) then .ok (NaiveDate.ofCivil (date.1.shift months))
      else .error .panic := by
  have bounds := monthIndex_le date
  have index : date.1.year * 12 + (date.1.month - 1) = date.1.monthIndex := by
    rw [CivilDate.monthIndex]
    ring
  have small : InI64 date.1.monthIndex := by
    unfold InI64
    omega
  simp only [addMonthsTo, addI64, index, if_pos small, bind, Except.bind]
  by_cases fits : InI64 (date.1.monthIndex + months)
  · simp only [if_pos fits]
    split_ifs with far
    · rw [ofCivil_of_far]
      · rfl
      · rw [(date.1.isShift_shift months).index]
        unfold i32Min i32Max at far
        omega
    · exact congrArg Except.ok (latestDay_eq _ _)
  · simp only [if_neg fits]

variable {text : Text} {date : NaiveDate}

theorem fullDate_ok (function : Text) (length : byteLength text = 10)
    (parsed : parseDate text = some date) : fullDate function text = .ok date := by
  rw [fullDate, if_neg (not_not_intro length), parsed]

/-- A helper is exact: it answers with the date that it reaches, or that it is out of range. -/
def Exact (function : Text) (reached : CivilDate) (answer : Except HelperFailure Text) : Prop :=
  answer = shift (NaiveDate.ofCivil reached) function

theorem not_exact_panic (function : Text) (reached : CivilDate) :
    ¬Exact function reached (.error .panic) := by
  unfold Exact shift
  split <;> rintro ⟨⟩

/-- A helper that answers with the reached date under a condition, and panics else, is exact if
and only if the condition holds. -/
theorem exact_ite {function : Text} {reached : CivilDate} {condition : Prop} [Decidable condition] :
    Exact function reached
      (if condition then shift (NaiveDate.ofCivil reached) function else .error .panic) ↔
      condition := by
  split_ifs with holds
  · exact iff_of_true rfl holds
  · exact iff_of_false (not_exact_panic _ _) holds

theorem shiftMonths_eq (function : Text) (length : byteLength text = 10)
    (parsed : parseDate text = some date) (months : Int) : shiftMonths function text months =
      if InI64 (date.1.monthIndex + months) then
        shift (NaiveDate.ofCivil (date.1.shift months)) function
      else .error .panic := by
  simp only [shiftMonths, fullDate_ok _ length parsed, addMonthsTo_eq, bind, Except.bind]
  split_ifs <;> rfl

theorem saturatingMul_of_inI64 {left right : Int} (fits : InI64 (left * right)) :
    saturatingMul left right = left * right := by
  unfold saturatingMul InI64 at *
  omega

/-- A product that is cut off at the bounds is far away, as the exact one is. -/
theorem ofCivil_saturatingMul (date : NaiveDate) (years : Int) :
    NaiveDate.ofCivil (date.1.shift (saturatingMul years 12)) =
      NaiveDate.ofCivil (date.1.shift (12 * years)) := by
  by_cases fits : InI64 (years * 12)
  · rw [saturatingMul_of_inI64 fits, mul_comm]
  · have bounds := monthIndex_le date
    rw [ofCivil_of_far, ofCivil_of_far]
    all_goals
      rw [(date.1.isShift_shift _).index]
      unfold saturatingMul InI64 at *
      omega

/-- The helpers are exact if and only if the days are those of a duration and the month index of
the date and the months together are an `i64`. -/
theorem dateHelpers_exact_iff (length : byteLength text = 10)
    (parsed : parseDate text = some date) (argument : Int) :
    (Exact "addDays".toList (addedDays date.1 argument) (addDays text argument) ↔
        -maxDurationDays ≤ argument ∧ argument ≤ maxDurationDays) ∧
      (Exact "addMonths".toList (date.1.shift argument) (addMonths text argument) ↔
        InI64 (date.1.monthIndex + argument)) ∧
      (Exact "addYears".toList (date.1.shift (12 * argument)) (addYears text argument) ↔
        InI64 (date.1.monthIndex + saturatingMul argument 12)) ∧
      (InI64 (12 * argument) →
        (addYears text argument).mapError HelperFailure.message =
          (addMonths text (12 * argument)).mapError HelperFailure.message) := by
  refine ⟨?_, ?_, ?_, fun fits => ?_⟩
  · have answer : addDays text argument =
        if -maxDurationDays ≤ argument ∧ argument ≤ maxDurationDays then
          shift (NaiveDate.ofCivil (addedDays date.1 argument)) "addDays".toList
        else .error .panic := by
      simp only [addDays, fullDate_ok _ length parsed, durationDays, bind, Except.bind]
      split_ifs <;> rfl
    rw [answer, exact_ite]
  · rw [addMonths, shiftMonths_eq _ length parsed, exact_ite]
  · rw [addYears, shiftMonths_eq _ length parsed, ofCivil_saturatingMul, exact_ite]
  · rw [addYears, addMonths, saturatingMul_of_inI64 (by rwa [mul_comm]), mul_comm,
      shiftMonths_eq _ length parsed, shiftMonths_eq _ length parsed]
    split_ifs
    · cases NaiveDate.ofCivil (date.1.shift (12 * argument)) <;> rfl
    · rfl

/-- 2024-02-29. -/
def leapDay : NaiveDate :=
  ⟨⟨2024, 2, 29, by decide, by decide, by decide, by decide⟩, by decide, by decide⟩

/-- The last of February, in the year before the leap year. -/
theorem addYears_leapDay : addYears (formatDate leapDay) (-1) = .ok "2023-02-28".toList := by
  have exactly := (dateHelpers_exact_iff (by decide +kernel) (parseDate_formatDate leapDay)
    (-1)).2.2.1.mpr (by decide)
  rw [exactly]
  decide +kernel

/-- A duration of too many days panics. -/
theorem addDays_panics : ¬∀ (text : Text) (date : NaiveDate) (argument : Int),
    byteLength text = 10 → parseDate text = some date → InI64 argument →
      Exact "addDays".toList (addedDays date.1 argument) (addDays text argument) := by
  intro exactly
  have panics : addDays (formatDate leapDay) (2 ^ 63 - 1) = .error .panic := by decide +kernel
  have answer := exactly (formatDate leapDay) leapDay (2 ^ 63 - 1) (by decide +kernel)
    (parseDate_formatDate leapDay) (by decide)
  rw [panics] at answer
  exact not_exact_panic _ _ answer

end Mdbase.Cel
