import Mdbase.Library.CivilDate
import Mdbase.Library.Whitespace

/-!
# Calendar arithmetic of expressions

A duration of months or years is added to a date or taken from it. The date becomes a number of
months, with every overflow checked, and the day is cut off at the end of the month it reaches. The
other durations are lengths in milliseconds, read as floating point numbers; they are not calendar
arithmetic, and stand here as a parameter with the texts of dates with a time.
-/

namespace Mdbase.Expressions

open Library

/-- The number is an `i64`. -/
def InI64 (number : Int) : Prop := -2 ^ 63 ≤ number ∧ number < 2 ^ 63

instance (number : Int) : Decidable (InI64 number) := inferInstanceAs (Decidable (_ ∧ _))

/-- `i32::MIN` and `i32::MAX`. -/
def i32Min : Int := -2 ^ 31
def i32Max : Int := 2 ^ 31 - 1

/-- `EvalError` with the code `type_error`, or a panic. -/
inductive DateFailure where
  | typeError (message : Text)
  | panic
  deriving DecidableEq

/-- The result of a checked operation. -/
def checked (exact : Int) : Option Int := if InI64 exact then some exact else none

/-- The result of an operation that is not checked. -/
def unchecked (exact : Int) : Except DateFailure Int :=
  if InI64 exact then .ok exact else .error .panic

/-- The first and the last year of `chrono::NaiveDate`. -/
def minYear : Int := -262143
def maxYear : Int := 262142

/-- `chrono::NaiveDate`. -/
abbrev NaiveDate := {date : CivilDate // minYear ≤ date.year ∧ date.year ≤ maxYear}

/-- A date of the calendar, if it is representable. -/
def NaiveDate.ofCivil (date : CivilDate) : Option NaiveDate :=
  if range : minYear ≤ date.year ∧ date.year ≤ maxYear then some ⟨date, range⟩ else none

/-- `NaiveDate::from_ymd_opt`. -/
def fromYmdOpt (year : Int) (month day : Nat) : Option NaiveDate :=
  if valid : (1 ≤ month ∧ month ≤ 12) ∧ 1 ≤ day ∧ day ≤ monthLength year month then
    NaiveDate.ofCivil ⟨year, month, day, valid.1.1, valid.1.2, valid.2.1, valid.2.2⟩
  else none

/-- `is_leap_year`. The remainder has the sign of the year. -/
def isLeapYear (year : Int) : Bool := (year.tmod 4 == 0 && year.tmod 100 != 0) || year.tmod 400 == 0

/-- `days_in_month`. -/
def daysInMonth (year : Int) (month : Nat) : Nat :=
  match month with
  | 1 | 3 | 5 | 7 | 8 | 10 | 12 => 31
  | 4 | 6 | 9 | 11 => 30
  | 2 => if isLeapYear year then 29 else 28
  | _ => 30

/-- `add_months_checked`. -/
def addMonthsChecked (year : Int) (month day : Nat) (monthsTotal : Int) :
    Except DateFailure (Option NaiveDate) := do
  let some folded := checked (year * 12) | return none
  let some total := checked (folded + monthsTotal) | return none
  let before ← unchecked (month - 1)
  let some totalMonths := checked (total + before) | return none
  let newYear := totalMonths / 12
  if newYear < i32Min ∨ i32Max < newYear then return none
  let newMonth := ((← unchecked (totalMonths % 12 + 1)) % 2 ^ 32).toNat
  let newDay := min day (daysInMonth newYear newMonth)
  return fromYmdOpt newYear newMonth newDay

/-- The year of `%Y`: four digits, or a sign and at least four. -/
def yearText (year : Int) : Text :=
  let digits := (Nat.toDigits 10 year.natAbs).leftpad 4 '0'
  if 0 ≤ year ∧ year ≤ 9999 then digits else (if year < 0 then '-' else '+') :: digits

/-- `date.format("%Y-%m-%d")`. -/
def formatDate (date : NaiveDate) : Text :=
  yearText date.1.year ++ '-' :: padded 2 date.1.month ++ '-' :: padded 2 date.1.day

/-- A number of at least one digit and at most so many, with what follows it. -/
def scanNumber (most : Nat) (text : Text) : Option (Nat × Text) :=
  let digits := (text.take most).takeWhile Char.isDigit
  if digits = [] then none else some (Nat.ofDigitChars 10 digits 0, text.drop digits.length)

/-- The year of `%Y`. With a sign it has any number of digits, without one up to four. -/
def scanYear (text : Text) : Option (Int × Text) :=
  match text.dropWhile isWhitespace with
  | '-' :: rest => (scanNumber rest.length rest).map fun (year, rest) => (-year, rest)
  | '+' :: rest => (scanNumber rest.length rest).map fun (year, rest) => (year, rest)
  | text => (scanNumber 4 text).map fun (year, rest) => (year, rest)

/-- The month of `%m` or the day of `%d`. -/
def scanTwo (text : Text) : Option (Nat × Text) := scanNumber 2 (text.dropWhile isWhitespace)

/-- A hyphen. -/
def scanHyphen : Text → Option Text
  | '-' :: rest => some rest
  | _ => none

/-- `NaiveDate::parse_from_str(text, "%Y-%m-%d")`. -/
def parseDate (text : Text) : Option NaiveDate := do
  let (year, text) ← scanYear text
  let text ← scanHyphen text
  let (month, text) ← scanTwo text
  let text ← scanHyphen text
  let (day, text) ← scanTwo text
  if text = [] then fromYmdOpt year month day else none

/-- `DurationDirection`. -/
inductive DurationDirection where
  | add
  | subtract
  deriving DecidableEq

/-- What the arithmetic takes from `chrono` beside dates: the texts of a date with a time of day,
and the durations in milliseconds. -/
structure Chrono (Time : Type) where
  /-- `NaiveDateTime::parse_from_str(text, "%Y-%m-%dT%H:%M:%S")`. -/
  parseDateTime : Text → Option (NaiveDate × Time)
  /-- `DateTime::parse_from_rfc3339(text)`, as a local time. -/
  parseRfc3339 : Text → Option (NaiveDate × Time)
  formatDateTime : NaiveDate → Time → Text
  addMilliseconds : Text → Text → DurationDirection → Except DateFailure (Option Text)

/-- The units that need the calendar. -/
inductive CalendarUnit where
  | month
  | year
  deriving DecidableEq

/-- The unit that a text names, if it needs the calendar. -/
def calendarUnit (unit : Text) : Option CalendarUnit :=
  if unit ∈ ["M".toList, "month".toList, "months".toList] then some .month
  else if unit ∈ ["y".toList, "year".toList, "years".toList] then some .year
  else none

/-- `str::parse::<i64>`. -/
def parseI64 (text : Text) : Option Int :=
  let (negative, digits) := match text with
    | '-' :: rest => (true, rest)
    | '+' :: rest => (false, rest)
    | _ => (false, text)
  if digits ≠ [] ∧ digits.all Char.isDigit then
    let value : Int := Nat.ofDigitChars 10 digits 0
    checked (if negative then -value else value)
  else none

/-- A character of the number of a duration, behind its sign. -/
def isNumberChar (character : Char) : Bool := character.isDigit || character == '.'

/-- The number at the start of a duration, and what follows it. -/
def splitDuration : Text → Text × Text
  | '-' :: rest => ('-' :: rest.takeWhile isNumberChar, rest.dropWhile isNumberChar)
  | text => (text.takeWhile isNumberChar, text.dropWhile isNumberChar)

/-- `date_overflow_error`. -/
def dateOverflowError (dateStr durationStr : Text) : DateFailure :=
  .typeError ("Date arithmetic overflow: date '".toList ++ trimmed dateStr ++
    "' with duration '".toList ++ trimmed durationStr ++ "' is out of range".toList)

/-- The shifted date, or the error that it is out of range. -/
def shiftedDate (dateStr durationStr : Text) (date : NaiveDate) (monthsTotal : Int) :
    Except DateFailure NaiveDate := do
  match ← addMonthsChecked date.1.year date.1.month date.1.day monthsTotal with
  | some shifted => return shifted
  | none => throw (dateOverflowError dateStr durationStr)

/-- The months of a duration, with the sign of the direction. -/
def signedMonths (dateStr durationStr : Text) (unit : CalendarUnit) (number : Int)
    (direction : DurationDirection) : Except DateFailure Int :=
  let (months, years) := match unit with
    | .month => (number, 0)
    | .year => (0, number)
  match (checked (years * 12)).bind fun folded => checked (months + folded) with
  | none => .error (dateOverflowError dateStr durationStr)
  | some parsedMonths =>
    match direction with
    | .add => .ok parsedMonths
    | .subtract =>
      match checked (0 - parsedMonths) with
      | some total => .ok total
      | none => .error (dateOverflowError dateStr durationStr)

/-- `apply_duration_to_date`. -/
def applyDurationToDate {Time : Type} (chrono : Chrono Time) (dateStr durationStr : Text)
    (direction : DurationDirection) : Except DateFailure (Option Text) :=
  let durStr := trimmed durationStr
  let (number, rest) := splitDuration durStr
  match parseI64 number with
  | none => .ok none
  | some num =>
    match calendarUnit (trimmed rest) with
    | none => chrono.addMilliseconds dateStr durStr direction
    | some unit => do
        let monthsTotal ← signedMonths dateStr durationStr unit num direction
        match parseDate dateStr with
        | some date => return some (formatDate (← shiftedDate dateStr durationStr date monthsTotal))
        | none =>
          match chrono.parseDateTime dateStr with
          | some (date, time) =>
            return some (chrono.formatDateTime
              (← shiftedDate dateStr durationStr date monthsTotal) time)
          | none =>
            match chrono.parseRfc3339 dateStr with
            | some (date, time) =>
              return some (chrono.formatDateTime
                (← shiftedDate dateStr durationStr date monthsTotal) time)
            | none => return none

theorem isLeapYear_iff (year : Int) : isLeapYear year = true ↔ IsLeap year := by
  have zero : ∀ unit : Int, year.tmod unit = 0 ↔ year % unit = 0 := fun unit => by
    rw [← Int.dvd_iff_tmod_eq_zero, ← Int.dvd_iff_emod_eq_zero]
  simp [isLeapYear, IsLeap, zero]

theorem daysInMonth_eq {year : Int} {month : Nat} (first : 1 ≤ month) (last : month ≤ 12) :
    daysInMonth year month = monthLength year month := by
  rw [monthLength_eq first last]
  interval_cases month <;> simp [daysInMonth, isLeapYear_iff]

theorem checked_of_inI64 {number : Int} (fits : InI64 number) : checked number = some number :=
  if_pos fits

theorem checked_of_not_inI64 {number : Int} (large : ¬InI64 number) : checked number = none :=
  if_neg large

variable {date : CivilDate}

theorem ofCivil_of_far (far : date.monthIndex < -4000000 ∨ 4000000 < date.monthIndex) :
    NaiveDate.ofCivil date = none := by
  have first := date.month_pos
  have last := date.month_le
  refine dif_neg fun range => ?_
  simp only [minYear, maxYear, CivilDate.monthIndex] at *
  omega

theorem fromYmdOpt_index (index : Int) (day : Nat) (positive : 1 ≤ day) :
    fromYmdOpt (index / 12) ((index % 12 + 1) % 2 ^ 32).toNat
        (min day (daysInMonth (index / 12) ((index % 12 + 1) % 2 ^ 32).toNat)) =
      NaiveDate.ofCivil (.ofIndex index day positive) := by
  have month : ((index % 12 + 1) % 2 ^ 32).toNat = (index % 12 + 1).toNat := by omega
  have first : 1 ≤ (index % 12 + 1).toNat := by omega
  have last : (index % 12 + 1).toNat ≤ 12 := by omega
  rw [month, daysInMonth_eq first last, fromYmdOpt]
  exact dif_pos ⟨⟨first, last⟩, (CivilDate.ofIndex index day positive).day_pos,
    (CivilDate.ofIndex index day positive).day_le⟩

/-- Adding months to a date gives the shifted date, or nothing when it is not representable. No
operation panics. -/
theorem addMonthsChecked_eq (date : NaiveDate) (months : Int) :
    addMonthsChecked date.1.year date.1.month date.1.day months =
      .ok (NaiveDate.ofCivil (date.1.shift months)) := by
  obtain ⟨date, lower, upper⟩ := date
  have first := date.month_pos
  have last := date.month_le
  simp only [minYear, maxYear] at lower upper
  have folded : InI64 (date.year * 12) := by
    unfold InI64
    omega
  have before : unchecked (date.month - 1) = .ok (date.month - 1 : Int) := if_pos (by
    unfold InI64
    omega)
  have index : date.year * 12 + months + (date.month - 1) = date.monthIndex + months := by
    rw [CivilDate.monthIndex]
    ring
  simp only [addMonthsChecked, checked_of_inI64 folded, before, pure, Except.pure, bind,
    Except.bind]
  have shifted := (date.isShift_shift months).index
  by_cases sum : InI64 (date.year * 12 + months)
  · simp only [checked_of_inI64 sum, index]
    by_cases whole : InI64 (date.monthIndex + months)
    · have month : unchecked ((date.monthIndex + months) % 12 + 1) =
          .ok ((date.monthIndex + months) % 12 + 1) := if_pos (by unfold InI64; omega)
      simp only [checked_of_inI64 whole, month]
      split_ifs with far
      · rw [ofCivil_of_far (by unfold i32Min i32Max at far; omega)]
      · rw [fromYmdOpt_index _ _ date.day_pos, CivilDate.shift]
    · simp only [checked_of_not_inI64 whole]
      rw [ofCivil_of_far (by unfold InI64 at whole; omega)]
  · simp only [checked_of_not_inI64 sum]
    rw [ofCivil_of_far (by unfold InI64 at sum; omega)]

/-- A text of digits with a value. -/
structure Writes (digits : Text) (value : Nat) : Prop where
  digit : ∀ character ∈ digits, character.isDigit = true
  nonempty : digits ≠ []
  value_eq : Nat.ofDigitChars 10 digits 0 = value

theorem writes_toDigits (number : Nat) : Writes (Nat.toDigits 10 number) number where
  digit _ member := Nat.isDigit_of_mem_toDigits (by decide) le_rfl member
  nonempty := Nat.toDigits_ne_nil
  value_eq := Nat.ofDigitChars_ten_toDigits

theorem writes_leftpad (width number : Nat) :
    Writes ((Nat.toDigits 10 number).leftpad width '0') number where
  digit character member := by
    rcases List.mem_append.mp member with zero | digit
    · rw [List.eq_of_mem_replicate zero]
      rfl
    · exact (writes_toDigits number).digit character digit
  nonempty := List.append_ne_nil_of_right_ne_nil _ Nat.toDigits_ne_nil
  value_eq := by
    rw [List.leftpad, Nat.ofDigitChars_append, Nat.ofDigitChars_replicate_zero, Nat.mul_zero,
      Nat.ofDigitChars_ten_toDigits]

theorem writes_padded {width number : Nat} (wide : 0 < width) (fits : number < 10 ^ width) :
    Writes (padded width number) number := by
  induction width generalizing number with
  | zero => cases wide
  | succ width ih =>
    have last : number % 10 < 10 := Nat.mod_lt _ (by decide)
    have digit : (Nat.digitChar (number % 10)).isDigit = true := by
      rw [Nat.isDigit_digitChar, decide_eq_true last]
    have rest : number / 10 < 10 ^ width := by
      rw [Nat.pow_succ] at fits
      omega
    rcases Nat.eq_zero_or_pos width with rfl | wide
    · refine ⟨by simpa [padded] using digit, by simp [padded], ?_⟩
      rw [padded, padded, List.nil_append, Nat.ofDigitChars_cons_digitChar_of_lt_ten last,
        Nat.ofDigitChars_nil]
      omega
    · have before := ih wide rest
      refine ⟨fun character member => ?_, by simp [padded], ?_⟩
      · rcases List.mem_append.mp member with earlier | same
        · exact before.digit character earlier
        · rw [List.mem_singleton.mp same]
          exact digit
      · rw [padded, Nat.ofDigitChars_append, before.value_eq,
          Nat.ofDigitChars_cons_digitChar_of_lt_ten last, Nat.ofDigitChars_nil]
        omega

/-- What follows a number does not start with a digit. -/
def Stops (rest : Text) : Prop := ∀ character ∈ rest.head?, character.isDigit = false

theorem scanNumber_append {most value : Nat} {digits rest : Text} (written : Writes digits value)
    (short : digits.length ≤ most) (stops : Stops rest) :
    scanNumber most (digits ++ rest) = some (value, rest) := by
  have taken : ((digits ++ rest).take most).takeWhile Char.isDigit = digits := by
    rw [List.take_append, List.take_of_length_le short, List.takeWhile_append_of_pos written.digit]
    cases rest with
    | nil => simp
    | cons first others =>
      have stop := stops first rfl
      cases most - digits.length <;> simp [stop]
  rw [scanNumber, taken, if_neg written.nonempty, written.value_eq, List.drop_left]

theorem isWhitespace_of_isDigit {character : Char} (digit : character.isDigit = true) :
    isWhitespace character = false := by
  rw [Char.isDigit_iff_toNat] at digit
  have low : 48 ≤ character.toNat := digit.1
  have high : character.toNat ≤ 57 := digit.2
  simp [isWhitespace]
  omega

variable {digits : Text} {value : Nat}

theorem dropWhile_digits (written : Writes digits value)
    (rest : Text) : (digits ++ rest).dropWhile isWhitespace = digits ++ rest := by
  cases digits with
  | nil => exact absurd rfl written.nonempty
  | cons first others =>
    exact List.dropWhile_cons_of_neg (by
      simp [isWhitespace_of_isDigit (written.digit first List.mem_cons_self)])

theorem stops_hyphen (rest : Text) : Stops ('-' :: rest) := by
  rintro character ⟨⟩
  rfl

theorem scanTwo_padded {number : Nat} (fits : number < 100) {rest : Text} (stops : Stops rest) :
    scanTwo (padded 2 number ++ rest) = some (number, rest) := by
  have written : Writes (padded 2 number) number := writes_padded (by decide) fits
  rw [scanTwo, dropWhile_digits written,
    scanNumber_append written (length_padded 2 number).le stops]

theorem Writes.ne_cons {digits : Text} {value : Nat} (written : Writes digits value)
    {other : Char} (sign : other.isDigit = false) {rest text : Text} :
    digits ++ rest ≠ other :: text := by
  cases digits with
  | nil => exact absurd rfl written.nonempty
  | cons first others =>
    intro same
    have digit := written.digit first List.mem_cons_self
    rw [(List.cons.inj same).1, sign] at digit
    cases digit

variable {rest : Text}

theorem scanYear_digits (written : Writes digits value)
    (short : digits.length ≤ 4) (stops : Stops rest) :
    scanYear (digits ++ rest) = some ((value : Int), rest) := by
  rw [scanYear, dropWhile_digits written]
  split
  next minus => exact absurd minus (written.ne_cons (by decide))
  next plus => exact absurd plus (written.ne_cons (by decide))
  · rw [scanNumber_append written short stops]
    rfl

theorem scanYear_minus (written : Writes digits value) (stops : Stops rest) :
    scanYear ('-' :: (digits ++ rest)) = some (-(value : Int), rest) := by
  change (scanNumber _ (digits ++ rest)).map _ = _
  rw [scanNumber_append written (by simp) stops]
  rfl

theorem scanYear_plus (written : Writes digits value) (stops : Stops rest) :
    scanYear ('+' :: (digits ++ rest)) = some ((value : Int), rest) := by
  change (scanNumber _ (digits ++ rest)).map _ = _
  rw [scanNumber_append written (by simp) stops]
  rfl

theorem scanYear_yearText (year : Int) (stops : Stops rest) :
    scanYear (yearText year ++ rest) = some (year, rest) := by
  have written := writes_leftpad 4 year.natAbs
  unfold yearText
  dsimp only
  split_ifs with short negative
  · have digits : (Nat.toDigits 10 year.natAbs).length ≤ 4 :=
      (Nat.length_toDigits_le_iff (by decide) (by decide)).mpr (by omega)
    have width : ((Nat.toDigits 10 year.natAbs).leftpad 4 '0').length ≤ 4 := by
      rw [List.length_leftpad]
      omega
    rw [scanYear_digits written width stops, Int.natAbs_of_nonneg short.1]
  · have value : -(year.natAbs : Int) = year := by omega
    rw [List.cons_append, scanYear_minus written stops, value]
  · have value : (year.natAbs : Int) = year := by omega
    rw [List.cons_append, scanYear_plus written stops, value]

theorem fromYmdOpt_self (date : NaiveDate) :
    fromYmdOpt date.1.year date.1.month date.1.day = some date := by
  obtain ⟨date, range⟩ := date
  rw [fromYmdOpt, dif_pos ⟨⟨date.month_pos, date.month_le⟩, date.day_pos, date.day_le⟩]
  exact dif_pos range

theorem parseDate_formatDate (date : NaiveDate) : parseDate (formatDate date) = some date := by
  have month : date.1.month < 100 := date.1.month_le.trans_lt (by decide)
  have day : date.1.day < 100 := by
    have long := date.1.day_le
    rw [monthLength_eq date.1.month_pos date.1.month_le] at long
    split_ifs at long <;> omega
  have last := @scanTwo_padded _ day [] (by rintro character ⟨⟩)
  rw [List.append_nil] at last
  simp only [parseDate, formatDate, List.append_assoc, List.cons_append,
    scanYear_yearText _ (stops_hyphen _), scanHyphen, scanTwo_padded month (stops_hyphen _), last,
    Option.bind_eq_bind, Option.bind_some, if_pos, fromYmdOpt_self]

/-- The text of a count. -/
def countText (count : Int) : Text :=
  if count < 0 then '-' :: Nat.toDigits 10 count.natAbs else Nat.toDigits 10 count.natAbs

theorem parseI64_countText {count : Int} (fits : InI64 count) :
    parseI64 (countText count) = some count := by
  have written := writes_toDigits count.natAbs
  have digits : (Nat.toDigits 10 count.natAbs).all Char.isDigit = true :=
    List.all_eq_true.mpr written.digit
  rw [countText]
  split_ifs with negative
  · simp [parseI64, written.nonempty, digits, written.value_eq, abs_of_neg negative,
      checked_of_inI64 fits]
  · have value : (count.natAbs : Int) = count := by omega
    have minus : ∀ text, Nat.toDigits 10 count.natAbs ≠ '-' :: text := fun text => by
      have apart := @Writes.ne_cons _ _ written '-' (by decide) [] text
      rwa [List.append_nil] at apart
    have plus : ∀ text, Nat.toDigits 10 count.natAbs ≠ '+' :: text := fun text => by
      have apart := @Writes.ne_cons _ _ written '+' (by decide) [] text
      rwa [List.append_nil] at apart
    unfold parseI64
    split
    next same =>
        split at same
        next text found => exact absurd found (minus text)
        next text found => exact absurd found (plus text)
        · cases same
          simp [written.nonempty, digits, written.value_eq, value, checked_of_inI64 fits]

/-- The texts of a unit. -/
def CalendarUnit.texts : CalendarUnit → List Text
  | month => ["M".toList, "month".toList, "months".toList]
  | year => ["y".toList, "year".toList, "years".toList]

/-- What the text of a unit has to do with the number in front of it. -/
structure NamesUnit (text : Text) (unit : CalendarUnit) : Prop where
  reads : calendarUnit (trimmed text) = some unit
  nonempty : text ≠ []
  ends : trimmedEnd text = text
  takes : text.takeWhile isNumberChar = []
  drops : text.dropWhile isNumberChar = text

variable {unit : CalendarUnit} {text : Text}

theorem namesUnit_of_mem (named : text ∈ unit.texts) : NamesUnit text unit := by
  cases unit <;> simp only [CalendarUnit.texts, List.mem_cons, List.not_mem_nil, or_false] at named
  all_goals
    rcases named with rfl | rfl | rfl <;>
      exact ⟨by decide +kernel, by decide, by decide +kernel, by decide +kernel, by decide +kernel⟩

theorem trimmedEnd_append {start last : Text} (nonempty : last ≠ [])
    (ends : trimmedEnd last = last) : trimmedEnd (start ++ last) = start ++ last := by
  refine List.rdropWhile_eq_self_iff.mpr fun whole => ?_
  rw [List.getLast_append_of_ne_nil _ nonempty]
  exact List.rdropWhile_eq_self_iff.mp ends nonempty

theorem isNumberChar_of_isDigit {character : Char} (digit : character.isDigit = true) :
    isNumberChar character = true := by
  simp [isNumberChar, digit]

theorem splitDuration_countText (count : Int) (names : NamesUnit text unit) :
    splitDuration (countText count ++ text) = (countText count, text) := by
  have written := writes_toDigits count.natAbs
  have taken : (Nat.toDigits 10 count.natAbs ++ text).takeWhile isNumberChar =
      Nat.toDigits 10 count.natAbs := by
    rw [List.takeWhile_append_of_pos fun character member =>
      isNumberChar_of_isDigit (written.digit character member), names.takes, List.append_nil]
  have dropped : (Nat.toDigits 10 count.natAbs ++ text).dropWhile isNumberChar = text := by
    rw [List.dropWhile_append_of_pos fun character member =>
      isNumberChar_of_isDigit (written.digit character member), names.drops]
  rw [countText]
  split_ifs
  · simp [splitDuration, taken, dropped]
  · unfold splitDuration
    split
    next minus => exact absurd minus (written.ne_cons (by decide))
    · rw [taken, dropped]

theorem trimmed_countText (count : Int) (names : NamesUnit text unit) :
    trimmed (countText count ++ text) = countText count ++ text := by
  have start : (countText count ++ text).dropWhile isWhitespace = countText count ++ text := by
    rw [countText]
    split_ifs
    · exact List.dropWhile_cons_of_neg (by decide)
    · exact dropWhile_digits (writes_toDigits count.natAbs) text
  rw [trimmed, start, trimmedEnd_append names.nonempty names.ends]

/-- The months of a unit. -/
def CalendarUnit.months : CalendarUnit → Int
  | month => 1
  | year => 12

/-- The sign of a direction. -/
def DurationDirection.sign : DurationDirection → Int
  | add => 1
  | subtract => -1

/-- The months that a duration adds to a date. -/
def exactMonths (unit : CalendarUnit) (count : Int) (direction : DurationDirection) : Int :=
  direction.sign * (count * unit.months)

theorem parsedMonths_eq (unit : CalendarUnit) (count : Int) :
    ((checked ((match unit with | .month => (count, 0) | .year => (0, count)).2 * 12)).bind
        fun folded => checked ((match unit with | .month => (count, 0) | .year => (0, count)).1 +
          folded)) = checked (count * unit.months) := by
  have zero : InI64 0 := by decide
  cases unit with
  | month => simp [CalendarUnit.months, checked_of_inI64 zero]
  | year =>
    by_cases large : InI64 (count * 12)
    · simp [CalendarUnit.months, checked_of_inI64 large]
    · simp [CalendarUnit.months, checked_of_not_inI64 large]

theorem signedMonths_cases (dateStr durationStr : Text) (unit : CalendarUnit) (count : Int)
    (direction : DurationDirection) :
    signedMonths dateStr durationStr unit count direction = .ok (exactMonths unit count direction) ∨
      signedMonths dateStr durationStr unit count direction =
        .error (dateOverflowError dateStr durationStr) ∧
        ¬(-2 ^ 63 < exactMonths unit count direction ∧
          exactMonths unit count direction < 2 ^ 63) := by
  have parsed := parsedMonths_eq unit count
  unfold signedMonths exactMonths
  dsimp only at parsed ⊢
  rw [parsed]
  by_cases whole : InI64 (count * unit.months)
  · rw [checked_of_inI64 whole]
    cases direction with
    | add => exact .inl (by simp [DurationDirection.sign])
    | subtract =>
      have opposite : 0 - count * unit.months = -1 * (count * unit.months) := by ring
      dsimp only [DurationDirection.sign]
      rw [opposite]
      by_cases negated : InI64 (-1 * (count * unit.months))
      · rw [checked_of_inI64 negated]
        exact .inl rfl
      · rw [checked_of_not_inI64 negated]
        refine .inr ⟨rfl, ?_⟩
        unfold InI64 at negated
        omega
  · rw [checked_of_not_inI64 whole]
    refine .inr ⟨rfl, ?_⟩
    unfold InI64 at whole
    cases direction <;> simp only [DurationDirection.sign] <;> omega

theorem monthIndex_le (date : NaiveDate) :
    -4000000 ≤ date.1.monthIndex ∧ date.1.monthIndex ≤ 4000000 := by
  have first := date.1.month_pos
  have last := date.1.month_le
  have lower := date.2.1
  have upper := date.2.2
  simp only [minYear, maxYear, CivilDate.monthIndex] at lower upper ⊢
  omega

/-- The answer for a shifted date. -/
def shiftAnswer (dateStr durationStr : Text) : Option NaiveDate → Except DateFailure (Option Text)
  | some shifted => .ok (some (formatDate shifted))
  | none => .error (dateOverflowError dateStr durationStr)

theorem applyDurationToDate_formatDate {Time : Type} (chrono : Chrono Time) (date : NaiveDate)
    (named : text ∈ unit.texts) {count : Int} (fits : InI64 count) (direction : DurationDirection) :
    applyDurationToDate chrono (formatDate date) (countText count ++ text) direction =
      shiftAnswer (formatDate date) (countText count ++ text)
        (NaiveDate.ofCivil (date.1.shift (exactMonths unit count direction))) := by
  have names := namesUnit_of_mem named
  unfold applyDurationToDate
  simp only [trimmed_countText count names, splitDuration_countText count names,
    parseI64_countText fits, names.reads, parseDate_formatDate]
  rcases signedMonths_cases (formatDate date) (countText count ++ text) unit count direction with
    exact_ | ⟨overflow, large⟩
  · rw [exact_]
    simp only [shiftedDate, addMonthsChecked_eq, bind, Except.bind, pure, Except.pure]
    cases NaiveDate.ofCivil (date.1.shift (exactMonths unit count direction)) <;> rfl
  · have index := monthIndex_le date
    have shifted := (date.1.isShift_shift (exactMonths unit count direction)).index
    rw [overflow, ofCivil_of_far (by omega)]
    rfl

theorem ofCivil_eq_some_iff {found : NaiveDate} :
    NaiveDate.ofCivil date = some found ↔ found.1 = date := by
  unfold NaiveDate.ofCivil
  split_ifs with range
  · rw [Option.some.injEq, ← Subtype.val_inj, eq_comm]
  · constructor
    · exact nofun
    · rintro rfl
      exact absurd found.2 range

theorem ofCivil_eq_none_iff :
    NaiveDate.ofCivil date = none ↔ ∀ found : NaiveDate, found.1 ≠ date := by
  rw [Option.eq_none_iff_forall_ne_some]
  exact forall_congr' fun found => not_congr ofCivil_eq_some_iff

/-- Calendar arithmetic on the dates that `chrono` represents is exact. A count of months or years
shifts the month index by exactly as many months and cuts the day off at the end of the month, or it
is reported as out of range, exactly when no such date is representable; so nothing panics. To
subtract a count is to add its opposite. For days up to 28 two shifts are one, as long as the date
between them is representable. The lengths of the months are those of the calendar. -/
theorem calendar_arithmetic_exact {Time : Type} (chrono : Chrono Time) :
    (∀ (date : NaiveDate) (unit : CalendarUnit), ∀ text ∈ unit.texts, ∀ count, InI64 count →
      ∀ direction,
        (∀ shifted : NaiveDate, date.1.IsShift (exactMonths unit count direction) shifted.1 →
          applyDurationToDate chrono (formatDate date) (countText count ++ text) direction =
            .ok (some (formatDate shifted))) ∧
        ((¬∃ shifted : NaiveDate, date.1.IsShift (exactMonths unit count direction) shifted.1) →
          applyDurationToDate chrono (formatDate date) (countText count ++ text) direction =
            .error (dateOverflowError (formatDate date) (countText count ++ text)))) ∧
    (∀ (date : NaiveDate) (unit : CalendarUnit), ∀ text ∈ unit.texts, ∀ count, InI64 count →
      InI64 (-count) →
        (applyDurationToDate chrono (formatDate date) (countText count ++ text)
          .subtract).toOption =
        (applyDurationToDate chrono (formatDate date) (countText (-count) ++ text)
          .add).toOption) ∧
    (∀ (date : NaiveDate), date.1.day ≤ 28 → ∀ (unit : CalendarUnit), ∀ text ∈ unit.texts,
      ∀ first second, InI64 first → InI64 second → InI64 (first + second) → ∀ middle,
        applyDurationToDate chrono (formatDate date) (countText first ++ text) .add =
          .ok (some middle) →
        (applyDurationToDate chrono middle (countText second ++ text) .add).toOption =
          (applyDurationToDate chrono (formatDate date) (countText (first + second) ++ text)
            .add).toOption) ∧
    (∀ year : Int, ∀ month, 1 ≤ month → month ≤ 12 →
      daysInMonth year month = monthLength year month) := by
  have same_answer : ∀ dateStr otherStr durationStr otherDuration shifted,
      (shiftAnswer dateStr durationStr shifted).toOption =
        (shiftAnswer otherStr otherDuration shifted).toOption := by
    rintro _ _ _ _ (_ | _) <;> rfl
  refine ⟨?_, ?_, ?_, fun year month => daysInMonth_eq⟩
  · intro date unit text named count fits direction
    rw [applyDurationToDate_formatDate chrono date named fits]
    constructor
    · intro shifted isShift
      rw [ofCivil_eq_some_iff.mpr (CivilDate.isShift_iff.mp isShift)]
      rfl
    · intro none_
      rw [ofCivil_eq_none_iff.mpr fun found same =>
        none_ ⟨found, CivilDate.isShift_iff.mpr same⟩]
      rfl
  · intro date unit text named count fits opposite
    have months : exactMonths unit count .subtract = exactMonths unit (-count) .add := by
      simp only [exactMonths, DurationDirection.sign]
      ring
    rw [applyDurationToDate_formatDate chrono date named fits,
      applyDurationToDate_formatDate chrono date named opposite, months]
    exact same_answer _ _ _ _ _
  · intro date early unit text named first second firstFits secondFits sumFits middle shifts
    rw [applyDurationToDate_formatDate chrono date named firstFits] at shifts
    cases found : NaiveDate.ofCivil (date.1.shift (exactMonths unit first .add)) with
    | none =>
      rw [found] at shifts
      cases shifts
    | some between =>
      rw [found] at shifts
      cases shifts
      have months : exactMonths unit first .add + exactMonths unit second .add =
          exactMonths unit (first + second) .add := by
        simp only [exactMonths, DurationDirection.sign]
        ring
      rw [applyDurationToDate_formatDate chrono between named secondFits,
        applyDurationToDate_formatDate chrono date named sumFits,
        ofCivil_eq_some_iff.mp found, CivilDate.shift_shift early, months]
      exact same_answer _ _ _ _ _

/-- A `chrono` that reads no dates with a time. -/
def onlyDates : Chrono Unit where
  parseDateTime _ := none
  parseRfc3339 _ := none
  formatDateTime date _ := formatDate date
  addMilliseconds _ _ _ := .ok none

/-- The last of January in 2026, and the first. -/
def january31 : NaiveDate := ⟨⟨2026, 1, 31, by decide, by decide, by decide, by decide⟩, by decide⟩
def january1 : NaiveDate := ⟨⟨2026, 1, 1, by decide, by decide, by decide, by decide⟩, by decide⟩

theorem calendar_arithmetic_exact_january :
    applyDurationToDate onlyDates (formatDate january31) (countText 1 ++ ['M']) .add =
        .ok (some "2026-02-28".toList) ∧
      (applyDurationToDate onlyDates (formatDate january31) (countText (-1) ++ ['M'])
        .subtract).toOption =
        (applyDurationToDate onlyDates (formatDate january31) (countText 1 ++ ['M'])
          .add).toOption ∧
      (applyDurationToDate onlyDates "2026-02-01".toList (countText 1 ++ ['M']) .add).toOption =
        (applyDurationToDate onlyDates (formatDate january1) (countText 2 ++ ['M'])
          .add).toOption ∧
      daysInMonth (-4) 2 = monthLength (-4) 2 := by
  obtain ⟨shifts, opposite, adds, lengths⟩ := calendar_arithmetic_exact onlyDates
  have february : january31.1.IsShift (exactMonths .month 1 .add)
      (CivilDate.mk 2026 2 28 (by decide) (by decide) (by decide) (by decide)) :=
    ⟨by decide, by decide⟩
  refine ⟨?_, ?_, ?_, lengths (-4) 2 (by decide) (by decide)⟩
  · exact (shifts january31 .month ['M'] (by decide) 1 (by decide) .add).1
      ⟨CivilDate.mk 2026 2 28 (by decide) (by decide) (by decide) (by decide), by decide⟩ february
  · exact opposite january31 .month ['M'] (by decide) (-1) (by decide) (by decide)
  · exact adds january1 (by decide) .month ['M'] (by decide) 1 1 (by decide) (by decide)
      (by decide) _ (by decide +kernel)

/-- Two shifts in a row, if the first one gives a date. -/
def shiftTwice {Time : Type} (chrono : Chrono Time) (dateStr first second : Text) :
    Except DateFailure (Option Text) := do
  match ← applyDurationToDate chrono dateStr first .add with
  | some middle => applyDurationToDate chrono middle second .add
  | none => return none

/-- Four million months from the first of January 2026 and back is an overflow, while the sum of
both shifts is none. -/
theorem shifts_do_not_add_up :
    ¬∀ (date : NaiveDate), date.1.day ≤ 28 → ∀ (unit : CalendarUnit), ∀ text ∈ unit.texts,
      ∀ first second, InI64 first → InI64 second → InI64 (first + second) →
        (shiftTwice onlyDates (formatDate date) (countText first ++ text)
          (countText second ++ text)).toOption =
        (applyDurationToDate onlyDates (formatDate date) (countText (first + second) ++ text)
          .add).toOption := by
  intro add
  have same := add january1 (by decide) .month ['M'] (by decide) 4000000 (-4000000) (by decide)
    (by decide) (by decide)
  revert same
  decide +kernel

end Mdbase.Expressions
