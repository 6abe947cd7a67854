import Mdbase.Runtime.Sqlite.Timestamp

/-!
# The order of timestamps

SQL compares the texts of instants. The text of an instant is that of its year and, in fixed
widths, the milliseconds within the year. So the texts of two instants are in their order if and
only if the instants differ by their milliseconds and the texts of their years are in order.
-/

namespace Mdbase.Runtime.Sqlite

open Library

/-- The digits of a year without its sign, at least four. -/
def yearDigits (year : Nat) : List Char :=
  if year < 10000 then padded 4 year else Nat.toDigits 10 year

/-- The text of a year. -/
def yearText (year : Int) : List Char :=
  if 0 ≤ year ∧ year ≤ 9999 then padded 4 year.toNat else signedYear year

theorem signedYear_eq (year : Int) :
    signedYear year = (if year < 0 then '-' else '+') :: yearDigits year.natAbs := rfl

theorem isDigit_of_mem_padded {width number : Nat} {character : Char}
    (member : character ∈ padded width number) : character.isDigit = true := by
  induction width generalizing number with
  | zero => cases member
  | succ width ih =>
    rw [padded, List.mem_append, List.mem_singleton] at member
    rcases member with earlier | rfl
    · exact ih earlier
    · exact Nat.isDigit_digitChar.trans (decide_eq_true (Nat.mod_lt _ (by decide)))

theorem isDigit_of_mem_yearDigits {year : Nat} {character : Char}
    (member : character ∈ yearDigits year) : character.isDigit = true := by
  unfold yearDigits at member
  split at member
  next => exact isDigit_of_mem_padded member
  next => exact Nat.isDigit_of_mem_toDigits (by decide) le_rfl member

theorem padded_injective {width left right : Nat} (leftFits : left < 10 ^ width)
    (rightFits : right < 10 ^ width) (same : padded width left = padded width right) :
    left = right := by
  rcases lt_trichotomy left right with below | equal | above
  · exact absurd (padded_lt below rightFits) (by rw [same]; exact lt_irrefl _)
  · exact equal
  · exact absurd (padded_lt above leftFits) (by rw [same]; exact lt_irrefl _)

theorem yearDigits_injective : Function.Injective yearDigits := by
  have longer {year : Nat} (long : ¬year < 10000) : 4 < (Nat.toDigits 10 year).length := by
    by_contra short
    exact long ((Nat.length_toDigits_le_iff (by decide) (by decide)).mp (not_lt.mp short))
  intro left right same
  unfold yearDigits at same
  split at same <;> split at same
  next leftShort rightShort => exact padded_injective leftShort rightShort same
  next _ rightLong =>
    have length := congrArg List.length same
    rw [length_padded] at length
    exact absurd (longer rightLong) (by omega)
  next leftLong _ =>
    have length := congrArg List.length same
    rw [length_padded] at length
    exact absurd (longer leftLong) (by omega)
  rw [← @Nat.ofDigitChars_ten_toDigits left, same, Nat.ofDigitChars_ten_toDigits]

theorem yearText_eq (year : Int) : ∃ first rest, yearText year = first :: rest ∧ '-' ∉ rest := by
  have undashed {characters : List Char} (digits : ∀ character ∈ characters,
      character.isDigit = true) : '-' ∉ characters := fun dash => by
    have digit := digits _ dash
    revert digit
    decide
  unfold yearText
  split
  next =>
    have digits := @isDigit_of_mem_padded 4 year.toNat
    cases text : padded 4 year.toNat with
    | nil =>
      have length := length_padded 4 year.toNat
      rw [text] at length
      cases length
    | cons first rest =>
      rw [text] at digits
      exact ⟨first, rest, rfl, undashed fun _ member => digits (List.mem_cons_of_mem _ member)⟩
  exact ⟨_, _, signedYear_eq year, undashed fun _ => isDigit_of_mem_yearDigits⟩

theorem yearText_injective : Function.Injective yearText := by
  have head (number : Nat) (sign : Char) (rest : List Char) (same : padded 4 number = sign :: rest) :
      sign.isDigit = true :=
    @isDigit_of_mem_padded 4 number sign (by rw [same]; exact List.mem_cons_self)
  have sign (year : Int) : (if year < 0 then '-' else '+').isDigit = false := by
    split <;> decide
  intro left right same
  unfold yearText at same
  split at same <;> split at same
  next leftPlain rightPlain =>
    have equal := @padded_injective 4 _ _ (by omega) (by omega) same
    omega
  next => exact absurd (head _ _ _ same) (by rw [sign]; exact Bool.false_ne_true)
  next => exact absurd (head _ _ _ same.symm) (by rw [sign]; exact Bool.false_ne_true)
  rw [signedYear_eq, signedYear_eq, List.cons_eq_cons] at same
  have equal := yearDigits_injective same.2
  have signs := same.1
  split_ifs at signs <;> first | omega | exact absurd signs (by decide)

theorem separated_lt_iff {separator : Char} {left right leftRest rightRest : List Char}
    (leftFree : separator ∉ left) (rightFree : separator ∉ right) (different : left ≠ right) :
    left ++ separator :: leftRest < right ++ separator :: rightRest ↔
      left ++ [separator] < right ++ [separator] := by
  induction left generalizing right with
  | nil =>
    cases right with
    | nil => exact absurd rfl different
    | cons first rest =>
      have other : separator ≠ first := fun same => rightFree (same ▸ List.mem_cons_self)
      simp [List.cons_lt_cons_iff, other]
  | cons first rest ih =>
    cases right with
    | nil =>
      have other : first ≠ separator := fun same => leftFree (same ▸ List.mem_cons_self)
      simp [List.cons_lt_cons_iff, other]
    | cons other others =>
      rw [List.cons_append, List.cons_append, List.cons_append, List.cons_append,
        List.cons_lt_cons_iff, List.cons_lt_cons_iff]
      refine or_congr_right (and_congr_right fun same => ?_)
      exact ih (List.not_mem_of_not_mem_cons leftFree)
        (List.not_mem_of_not_mem_cons rightFree) fun equal => different (by rw [same, equal])

/-- The milliseconds of an instant from the start of the year 0. -/
def millisOf (value : DateTime) : Int := (value - yearZero) / 1000000

/-- The year of an instant. -/
def yearAt (value : DateTime) : Int := yearOf (millisOf value / millisPerDay)

/-- The text of the milliseconds within a year. -/
def withinYear (millis : Int) : List Char :=
  fieldsText timestampLayout.tail (civilFields millis).tail

theorem timestamp_eq (value : DateTime) :
    timestamp value = String.ofList (yearText (yearAt value) ++ '-' :: withinYear (millisOf value)) := by
  unfold timestamp yearText withinYear yearAt millisOf
  dsimp only
  split <;> rfl

/-- The text of one instant comes before that of another: in one year by the milliseconds,
otherwise by the texts of the years. -/
def WrittenBefore (left right : DateTime) : Prop :=
  (yearAt left = yearAt right ∧ millisOf left < millisOf right) ∨
    (yearAt left ≠ yearAt right ∧
      yearText (yearAt left) ++ ['-'] < yearText (yearAt right) ++ ['-'])

theorem timestamp_lt_of_millis {left right : DateTime} (below : millisOf left < millisOf right)
    (year : yearAt left = yearAt right) : timestamp left < timestamp right := by
  rw [timestamp_eq, timestamp_eq, year, String.lt_iff_toList_lt, String.toList_ofList,
    String.toList_ofList]
  refine List.append_left_lt (List.cons_lt_cons_iff.mpr (.inr ⟨rfl, ?_⟩))
  exact fieldsText_lt (civilFields_tail_fits _ rfl) (civilFields_tail_fits _ rfl)
    (civilFields_tail_lt below year)

theorem timestamp_eq_of_millis {left right : DateTime} (same : millisOf left = millisOf right) :
    timestamp left = timestamp right := by
  have year : yearAt left = yearAt right := congrArg (fun millis => yearOf (millis / _)) same
  rw [timestamp_eq, timestamp_eq, year, same]

theorem timestamp_lt_iff_writtenBefore (left right : DateTime) :
    timestamp left < timestamp right ↔ WrittenBefore left right := by
  by_cases year : yearAt left = yearAt right
  · have apart : WrittenBefore left right ↔ millisOf left < millisOf right := by
      simp [WrittenBefore, year]
    rw [apart]
    rcases lt_trichotomy (millisOf left) (millisOf right) with below | same | above
    · exact iff_of_true (timestamp_lt_of_millis below year) below
    · rw [timestamp_eq_of_millis same, same]
      exact iff_of_false (lt_irrefl _) (lt_irrefl _)
    · exact iff_of_false (lt_asymm (timestamp_lt_of_millis above year.symm)) (lt_asymm above)
  · have apart : WrittenBefore left right ↔
        yearText (yearAt left) ++ ['-'] < yearText (yearAt right) ++ ['-'] := by
      simp [WrittenBefore, year]
    rw [apart, timestamp_eq, timestamp_eq, String.lt_iff_toList_lt, String.toList_ofList,
      String.toList_ofList]
    have texts : yearText (yearAt left) ≠ yearText (yearAt right) :=
      fun same => year (yearText_injective same)
    obtain ⟨first, rest, text, free⟩ := yearText_eq (yearAt left)
    obtain ⟨other, others, otherText, otherFree⟩ := yearText_eq (yearAt right)
    rw [text, otherText] at texts ⊢
    rw [List.cons_append, List.cons_append, List.cons_append, List.cons_append,
      List.cons_lt_cons_iff, List.cons_lt_cons_iff]
    refine or_congr_right (and_congr_right fun same => separated_lt_iff free otherFree ?_)
    exact fun equal => texts (by rw [same, equal])

/-- The texts of two instants, the first one earlier, tell them apart: they differ by their
milliseconds, and lie in one year or in years whose texts are in order. -/
def InOrder (earlier later : DateTime) : Prop :=
  millisOf earlier < millisOf later ∧ (yearAt earlier = yearAt later ∨
    yearText (yearAt earlier) ++ ['-'] < yearText (yearAt later) ++ ['-'])

variable {earlier later : DateTime}

theorem millisOf_mono (le : earlier ≤ later) : millisOf earlier ≤ millisOf later :=
  Int.ediv_le_ediv (by decide) (Int.sub_le_sub_right le _)

theorem timestamp_lt_iff_inOrder (before : earlier ≤ later) :
    timestamp earlier < timestamp later ↔ InOrder earlier later := by
  have millis := millisOf_mono before
  rw [timestamp_lt_iff_writtenBefore, WrittenBefore, InOrder]
  by_cases year : yearAt earlier = yearAt later
  · simp [year]
  · have below : millisOf earlier < millisOf later :=
      lt_of_le_of_ne millis fun same => year (congrArg (fun millis => yearOf (millis / _)) same)
    simp [year, below]

end Mdbase.Runtime.Sqlite
