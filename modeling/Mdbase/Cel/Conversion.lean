import Mdbase.Cel.Evaluation
import Mdbase.Expressions.DateArithmetic

/-!
# Values of CEL as JSON

A JSON value that becomes a value of CEL comes back as it was. A duration is written as a text in
seconds, with a fraction that has no zeros at its end; the text is read as a decimal number.
-/

namespace Mdbase.Cel

open Library Mdbase.Runtime
open Mdbase.Expressions (InI64 countText Writes writes_toDigits writes_padded)

/-- What `to_json` makes of instants, and of the values that are neither scalars nor lists nor maps
with texts as keys. -/
structure OtherJson where
  instant : DateTime → String
  other : Nat → Except String Value

section Json

variable (others : OtherJson)

mutual

/-- `to_json`. The members are collected in a map that is ordered by the keys. -/
def toJson : CelValue → Except String Value
  | .null => .ok .null
  | .bool value => .ok (.bool value)
  | .int value => .ok (.number (if value < 0 then .negInt value else .posInt value.toNat))
  | .uint value => .ok (.number (.posInt value))
  | .float (.finite value) => .ok (.number (.float value))
  | .float _ => .ok .null
  | .string value => .ok (.string value)
  | .list items => (toJsonItems items).map .array
  | .map members => (toJsonMembers members).map fun members =>
      .object (members.insertionSort fun left right => left.1 ≤ right.1)
  | .timestamp instant => .ok (.string (others.instant instant))
  | .other id => others.other id

/-- The items of a list. -/
def toJsonItems : List CelValue → Except String (List Value)
  | [] => .ok []
  | item :: rest => do return (← toJson item) :: (← toJsonItems rest)

/-- The members of a map. -/
def toJsonMembers : List (String × CelValue) → Except String (List (String × Value))
  | [] => .ok []
  | (key, value) :: rest => do return (key, ← toJson value) :: (← toJsonMembers rest)

end

/-- A JSON value as the library holds it: negative numbers are negative, and the members of objects
are in the order of their keys. -/
inductive Canonical : Value → Prop where
  | null : Canonical .null
  | bool (value : Bool) : Canonical (.bool value)
  | posInt (value : Nat) : Canonical (.number (.posInt value))
  | negInt {value : Int} (negative : value < 0) : Canonical (.number (.negInt value))
  | float (value : Rat) : Canonical (.number (.float value))
  | string (value : String) : Canonical (.string value)
  | array {items : List Value} (all : ∀ item ∈ items, Canonical item) : Canonical (.array items)
  | object {members : List (String × Value)}
      (ordered : members.Pairwise fun left right => left.1 ≤ right.1)
      (all : ∀ member ∈ members, Canonical member.2) : Canonical (.object members)

/-- A JSON value comes back from CEL. -/
theorem toJson_toCel {value : Value} (canonical : Canonical value) :
    toJson others (toCel value) = .ok value := by
  induction canonical with
  | null | bool | float | string => rfl
  | posInt value =>
    rw [toCel]
    split_ifs <;> simp [toJson]
  | negInt negative => simp [toCel, toJson, negative]
  | @array items inner ih =>
    have all : toJsonItems others (toCelItems items) = .ok items := by
      clear inner
      induction items with
      | nil => rfl
      | cons item rest rests =>
        obtain ⟨here, later⟩ := List.forall_mem_cons.mp ih
        rw [toCelItems, toJsonItems, here, rests later]
        rfl
    rw [toCel, toJson, all]
    rfl
  | @object members ordered inner ih =>
    have all : toJsonMembers others (toCelMembers members) = .ok members := by
      clear ordered inner
      induction members with
      | nil => rfl
      | cons member rest rests =>
        obtain ⟨here, later⟩ := List.forall_mem_cons.mp ih
        rw [toCelMembers, toJsonMembers, here, rests later]
        rfl
    rw [toCel, toJson, all, Except.map, ordered.insertionSort_eq]

end Json

/-- `duration_string`, of a duration in nanoseconds. -/
def durationString (duration : Int) : Text :=
  let nanos := if InI64 duration then duration else 2 ^ 63 - 1
  let seconds := nanos.tdiv 1000000000
  let fraction := (nanos.tmod 1000000000).natAbs
  if fraction = 0 then countText seconds ++ ['s']
  else countText seconds ++ '.' :: ((padded 9 fraction).rdropWhile (· = '0') ++ ['s'])

/-- The number that a text of digits, perhaps with a fraction, and the unit stand for. -/
def readSeconds (text : Text) : Option Rat :=
  let whole : Rat := Nat.ofDigitChars 10 (text.takeWhile Char.isDigit) 0
  match text.dropWhile Char.isDigit with
  | ['s'] => some whole
  | '.' :: rest =>
    let digits := rest.takeWhile Char.isDigit
    if rest.dropWhile Char.isDigit = ['s'] then
      some (whole + Nat.ofDigitChars 10 digits 0 / 10 ^ digits.length)
    else none
  | _ => none

/-- The number of seconds that a text of a duration denotes. -/
def readDuration : Text → Option Rat
  | '-' :: text => (readSeconds text).map (-·)
  | text => readSeconds text

/-- Zeros at the end of a fraction do not count. -/
theorem fraction_rdropWhile (digits : Text) :
    (Nat.ofDigitChars 10 (digits.rdropWhile (· = '0')) 0 : Rat) /
        10 ^ (digits.rdropWhile (· = '0')).length =
      Nat.ofDigitChars 10 digits 0 / 10 ^ digits.length := by
  induction digits using List.reverseRecOn with
  | nil => rfl
  | append_singleton digits last ih =>
    by_cases zero : last = '0'
    · subst zero
      rw [List.rdropWhile_concat_pos _ _ _ (by decide), ih, Nat.ofDigitChars_append,
        Nat.ofDigitChars_cons, List.length_append, List.length_singleton, pow_succ]
      simp only [Nat.ofDigitChars_nil, Nat.sub_self, Nat.add_zero, Nat.cast_mul, Nat.cast_ofNat]
      rw [mul_comm, mul_div_mul_right _ _ (by norm_num)]
    · rw [List.rdropWhile_concat_neg _ _ _ (by simpa using zero)]

variable {digits rest : Text}

theorem span_digits (all : ∀ character ∈ digits, character.isDigit = true) {stop : Char}
    (stops : stop.isDigit = false) :
    (digits ++ stop :: rest).takeWhile Char.isDigit = digits ∧
      (digits ++ stop :: rest).dropWhile Char.isDigit = stop :: rest := by
  rw [List.takeWhile_append_of_pos all, List.dropWhile_append_of_pos all,
    List.takeWhile_cons_of_neg (by simp [stops]), List.dropWhile_cons_of_neg (by simp [stops]),
    List.append_nil]
  exact ⟨rfl, rfl⟩

/-- The text of whole seconds with a rest denotes what it does without the sign, with the sign of
the seconds. -/
theorem readDuration_countText (seconds : Int) (rest : Text) :
    readDuration (countText seconds ++ rest) =
      (readSeconds (Nat.toDigits 10 seconds.natAbs ++ rest)).map fun value =>
        if seconds < 0 then -value else value := by
  have written := writes_toDigits seconds.natAbs
  rw [countText]
  split_ifs
  · rfl
  · rw [readDuration]
    · simp
    · exact fun text same => written.ne_cons (by decide) same

/-- The text behind the sign denotes the magnitude. -/
theorem readSeconds_magnitude (nanos : Nat) :
    readSeconds (Nat.toDigits 10 (nanos / 1000000000) ++
        if nanos % 1000000000 = 0 then ['s']
        else '.' :: ((padded 9 (nanos % 1000000000)).rdropWhile (· = '0') ++ ['s'])) =
      some (nanos / 1000000000 : Rat) := by
  have written := writes_toDigits (nanos / 1000000000)
  have parts : (nanos : Rat) = 1000000000 * (nanos / 1000000000 : Nat) +
      (nanos % 1000000000 : Nat) := by exact_mod_cast (Nat.div_add_mod nanos 1000000000).symm
  split_ifs with none
  · obtain ⟨taken, dropped⟩ := @span_digits _ [] written.digit 's' (by decide)
    simp only [readSeconds, taken, dropped, written.value_eq]
    rw [parts, none]
    norm_num
  · have fraction : Writes (padded 9 (nanos % 1000000000)) (nanos % 1000000000) :=
      writes_padded (by decide) (Nat.mod_lt _ (by decide))
    have digits : ∀ character ∈ (padded 9 (nanos % 1000000000)).rdropWhile (· = '0'),
        character.isDigit = true := fun character member =>
      fraction.digit character ((List.rdropWhile_prefix _ _).subset member)
    have value := fraction_rdropWhile (padded 9 (nanos % 1000000000))
    rw [fraction.value_eq, length_padded] at value
    obtain ⟨taken, dropped⟩ := @span_digits _
      ((padded 9 (nanos % 1000000000)).rdropWhile (· = '0') ++ ['s']) written.digit '.' (by decide)
    obtain ⟨taken', dropped'⟩ := @span_digits _ [] digits 's' (by decide)
    simp only [readSeconds, taken, dropped, taken', dropped', written.value_eq, if_true, value]
    rw [parts]
    ring_nf

/-- What the text of a duration denotes. The sign is that of the whole seconds. -/
theorem readDuration_durationString (duration : Int) {nanos : Int}
    (clamped : (if InI64 duration then duration else 2 ^ 63 - 1) = nanos) :
    readDuration (durationString duration) =
      some (if nanos ≤ -1000000000 then -(nanos.natAbs / 1000000000 : Rat)
        else nanos.natAbs / 1000000000) := by
  have sign : nanos.tdiv 1000000000 < 0 ↔ nanos ≤ -1000000000 := by
    clear clamped
    rcases nanos with nanos | nanos <;> simp only [Int.tdiv, Int.ofNat_eq_natCast] <;> omega
  have seconds : (nanos.tdiv 1000000000).natAbs = nanos.natAbs / 1000000000 := Int.natAbs_tdiv ..
  have fraction : (nanos.tmod 1000000000).natAbs = nanos.natAbs % 1000000000 := Int.natAbs_tmod ..
  have text : durationString duration = countText (nanos.tdiv 1000000000) ++
      if nanos.natAbs % 1000000000 = 0 then ['s']
      else '.' :: ((padded 9 (nanos.natAbs % 1000000000)).rdropWhile (· = '0') ++ ['s']) := by
    simp only [durationString, clamped, fraction]
    split_ifs <;> rfl
  rw [text, readDuration_countText, seconds, readSeconds_magnitude]
  simp only [Option.map_some, sign]

/-- A JSON value comes back from CEL, and the text of a duration denotes it if and only if its
nanoseconds are an `i64` and it is not between `-1 s` and `0 s`. -/
theorem conversions_faithful_iff (others : OtherJson) (duration : Int) :
    (∀ value, Canonical value → toJson others (toCel value) = .ok value) ∧
      (readDuration (durationString duration) = some (duration / 1000000000 : Rat) ↔
        InI64 duration ∧ ¬(-1000000000 < duration ∧ duration < 0)) := by
  refine ⟨fun _ => toJson_toCel others, ?_⟩
  have same : ∀ left : Int, (left / 1000000000 : Rat) = duration / 1000000000 ↔ left = duration :=
    fun left => by rw [div_left_inj' (by norm_num), Int.cast_inj]
  obtain ⟨nanos, clamped⟩ : ∃ nanos, (if InI64 duration then duration else 2 ^ 63 - 1) = nanos :=
    ⟨_, rfl⟩
  rw [readDuration_durationString duration clamped, Option.some_inj]
  rw [← Int.cast_natCast nanos.natAbs, ← neg_div, ← Int.cast_neg]
  unfold InI64 at *
  split_ifs at clamped ⊢
  all_goals
    rw [same]
    omega

/-- Half a second before and half a second after have one text. -/
theorem durationString_sign_lost :
    ¬∀ duration : Int, readDuration (durationString duration) = some (duration / 1000000000) := by
  intro faithful
  have same : durationString (-500000000) = durationString 500000000 := by decide +kernel
  have both := (faithful (-500000000)).symm.trans (same ▸ faithful 500000000)
  norm_num at both

end Mdbase.Cel
