import Mdbase.Library.CivilTime
import Mdbase.Runtime.Value

/-!
# File times

The cache stores file times as nanoseconds of `i64`; query results show them as
texts with whole seconds. Within the range of `i64` the texts are ordered as the
seconds are, except that a time before 1970 that is not a whole second has the
empty text: its remainder is negative and, read as unsigned, no valid number of
nanoseconds.
-/

namespace Mdbase.Query

open Library

/-- A signed 64-bit integer. -/
abbrev I64 := {value : Int // -2 ^ 63 ≤ value ∧ value < 2 ^ 63}

/-- The nanoseconds of a second. -/
def nanosPerSecond : Int := 1000000000

/-- The whole seconds of a time, rounded towards zero: integer division of the
source and of SQLite. -/
def seconds (nanos : Int) : Int := nanos.tdiv nanosPerSecond

/-- A time before 1970 that is not a whole second. -/
def Ragged (nanos : Int) : Prop := nanos.tmod nanosPerSecond < 0

instance (nanos : Int) : Decidable (Ragged nanos) :=
  inferInstanceAs (Decidable (nanos.tmod nanosPerSecond < 0))

/-- The widths and the separators of `%Y-%m-%dT%H:%M:%SZ`. -/
def isoLayout : List (Nat × List Char) :=
  [(4, ['-']), (2, ['-']), (2, ['T']), (2, [':']), (2, [':']), (2, ['Z'])]

/-- The seconds from the start of the year 0 to 1970. -/
def epochSeconds : Int := 62167219200

/-- The text of a whole second of the years 0 to 9999. -/
def isoText (second : Int) : String :=
  String.ofList (fieldsText isoLayout ((civilFields ((second + epochSeconds) * 1000)).take 6))

/-- `Utc.timestamp_opt` accepts these nanoseconds; from one second on they denote a
leap second. -/
def validNanos (second : Int) (nanos : Int) : Prop :=
  nanos < 1000000000 ∨ (nanos < 2000000000 ∧ second % 60 = 59)

instance (second nanos : Int) : Decidable (validNanos second nanos) :=
  inferInstanceAs (Decidable (_ ∨ _))

/-- `ns_to_iso`. -/
def nsToIso (nanos : Int) : String :=
  let second := nanos.tdiv nanosPerSecond
  let rest := nanos.tmod nanosPerSecond % 2 ^ 32
  if validNanos second rest then isoText second else ""

example : nsToIso 1709164800123000000 = "2024-02-29T00:00:00Z" := by decide +kernel

example : nsToIso (-1500000000) = "" := by decide +kernel

/-- The remainder of a ragged time, and of no other, is no valid number of
nanoseconds. -/
theorem validNanos_iff (second nanos : Int) :
    validNanos second (nanos.tmod nanosPerSecond % 2 ^ 32) ↔ ¬Ragged nanos := by
  have lower := Int.lt_tmod_of_pos nanos (show 0 < nanosPerSecond by decide)
  have upper := Int.tmod_lt_of_pos nanos (show 0 < nanosPerSecond by decide)
  unfold validNanos Ragged
  simp only [nanosPerSecond] at *
  omega

theorem nsToIso_eq (nanos : Int) :
    nsToIso nanos = if Ragged nanos then "" else isoText (seconds nanos) := by
  rw [nsToIso]
  simp only [validNanos_iff, ite_not]
  rfl

/-- A second whose year has four digits. -/
def FourDigitYear (second : Int) : Prop :=
  0 ≤ second + epochSeconds ∧ (second + epochSeconds) * 1000 < yearStart 10000 * millisPerDay

theorem fourDigitYear_seconds (nanos : I64) : FourDigitYear (seconds nanos) := by
  obtain ⟨value, first, last⟩ := nanos
  have bound : yearStart 10000 * millisPerDay = 315569520000000 := by decide +kernel
  have split := Int.mul_tdiv_add_tmod value nanosPerSecond
  have lower := Int.lt_tmod_of_pos value (show 0 < nanosPerSecond by decide)
  have upper := Int.tmod_lt_of_pos value (show 0 < nanosPerSecond by decide)
  rw [FourDigitYear, bound]
  simp only [seconds, nanosPerSecond, epochSeconds] at *
  omega

theorem civilFields_whole (second : Int) :
    civilFields (second * 1000) = (civilFields (second * 1000)).take 6 ++ [0] := by
  have whole : (second * 1000 % millisPerDay).toNat % 1000 = 0 := by
    simp only [millisPerDay]
    omega
  simp [civilFields, whole]

theorem isoText_fits {second : Int} (year : FourDigitYear second) :
    FitsLayout isoLayout ((civilFields ((second + epochSeconds) * 1000)).take 6) := by
  have fits : FitsLayout (isoLayout ++ [(3, [])]) (civilFields ((second + epochSeconds) * 1000)) :=
    civilFields_fits rfl year.2
  have shorter := List.forall₂_take 6 fits
  exact shorter

theorem isoText_lt {left right : Int} (first : FourDigitYear left) (last : FourDigitYear right)
    (below : left < right) : isoText left < isoText right := by
  rw [String.lt_iff_toList_lt, isoText, isoText, String.toList_ofList, String.toList_ofList]
  apply fieldsText_lt (isoText_fits first) (isoText_fits last)
  have fields : civilFields ((left + epochSeconds) * 1000) <
      civilFields ((right + epochSeconds) * 1000) :=
    civilFields_lt (by have := first.1; omega) (by omega)
  rw [civilFields_whole, civilFields_whole (right + epochSeconds)] at fields
  by_contra notBelow
  rcases (not_lt.mp notBelow).lt_or_eq with above | same
  · have lengths : ((civilFields ((right + epochSeconds) * 1000)).take 6).length =
        ((civilFields ((left + epochSeconds) * 1000)).take 6).length := by
      simp [civilFields]
    exact absurd fields (append_lt_append lengths above).asymm
  · rw [same] at fields
    exact absurd fields (lt_irrefl _)

theorem compare_isoText {left right : Int} (first : FourDigitYear left)
    (last : FourDigitYear right) : compare (isoText left) (isoText right) = compare left right := by
  rcases lt_trichotomy left right with below | rfl | above
  · rw [compare_lt_iff_lt.mpr below, compare_lt_iff_lt.mpr (isoText_lt first last below)]
  · rw [compare_eq_iff_eq.mpr rfl, compare_eq_iff_eq.mpr rfl]
  · rw [compare_gt_iff_gt.mpr above, compare_gt_iff_gt.mpr (isoText_lt last first above)]

theorem isoText_ne_empty (second : Int) : isoText second ≠ "" := by
  intro empty
  have letters := congrArg String.toList empty
  simp [isoText, isoLayout, civilFields, fieldsText, padded] at letters

theorem empty_lt_isoText (second : Int) : "" < isoText second := by
  rw [String.lt_iff_toList_lt]
  cases letters : (isoText second).toList with
  | nil => exact absurd (String.toList_eq_nil_iff.mp letters) (isoText_ne_empty second)
  | cons head tail => exact List.nil_lt_cons head tail

/-- What the text of a time shows: the second, or nothing for a ragged time. -/
def shown (nanos : Int) : Option Int := if Ragged nanos then none else some (seconds nanos)

theorem compare_nsToIso (left right : I64) :
    compare (nsToIso left) (nsToIso right) = compare (shown left) (shown right) := by
  rw [nsToIso_eq, nsToIso_eq, shown, shown]
  split_ifs with leftRagged rightRagged rightRagged
  · rw [compare_eq_iff_eq.mpr rfl]
    rfl
  · rw [compare_lt_iff_lt.mpr (empty_lt_isoText _)]
    rfl
  · rw [compare_gt_iff_gt.mpr (empty_lt_isoText _)]
    rfl
  · exact compare_isoText (fourDigitYear_seconds left) (fourDigitYear_seconds right)

/-- A ragged time lies in an earlier second than a time with a text, and in the
same second as another ragged time. -/
def RaggedFirst (left right : Int) : Prop :=
  Ragged left → if Ragged right then seconds left = seconds right else seconds left < seconds right

instance (left right : Int) : Decidable (RaggedFirst left right) :=
  inferInstanceAs (Decidable (_ → _))

/-- The seconds of two times are compared as their texts are, exactly when ragged
times come first. -/
theorem compare_seconds_eq_iff (left right : I64) :
    compare (seconds left) (seconds right) = compare (nsToIso left) (nsToIso right) ↔
      RaggedFirst left right ∧ RaggedFirst right left := by
  rw [compare_nsToIso, shown, shown, RaggedFirst, RaggedFirst]
  split_ifs with leftRagged rightRagged rightRagged
  · have both : compare (none : Option Int) none = .eq := rfl
    rw [both, compare_eq_iff_eq]
    simp only [leftRagged, rightRagged, true_imp_iff]
    exact ⟨fun same => ⟨same, same.symm⟩, And.left⟩
  · have first : compare (none : Option Int) (some (seconds right)) = .lt := rfl
    rw [first, compare_lt_iff_lt]
    simp [leftRagged, rightRagged]
  · have last : compare (some (seconds left)) (none : Option Int) = .gt := rfl
    rw [last, compare_gt_iff_gt]
    simp [leftRagged, rightRagged]
  · have present : compare (some (seconds left)) (some (seconds right)) =
        compare (seconds left) (seconds right) := rfl
    rw [present]
    simp [leftRagged, rightRagged]

end Mdbase.Query
