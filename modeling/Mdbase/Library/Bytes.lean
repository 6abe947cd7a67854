import Mdbase.Library.Lines
import Mdbase.Library.Whitespace

/-!
# Byte offsets of a text

A text is cut at offsets that count the bytes of its encoding. A cut needs an offset that is within
the text and between two of its characters; the length of a prefix is one.
-/

namespace Mdbase.Library

/-- The number of bytes of a text. -/
def byteLength (text : Text) : Nat := (text.map Char.utf8Size).sum

/-- The two parts of a text at a byte offset: nothing stands for an offset that is out of the text
or inside of a character. -/
def cutAt : Nat → Text → Option (Text × Text)
  | 0, text => some ([], text)
  | _ + 1, [] => none
  | offset + 1, character :: rest =>
    if character.utf8Size ≤ offset + 1 then
      (cutAt (offset + 1 - character.utf8Size) rest).map fun parts =>
        (character :: parts.1, parts.2)
    else none

/-- The text from a byte offset on. -/
def sliceFrom (text : Text) (offset : Nat) : Option Text := (cutAt offset text).map (·.2)

/-- The text up to a byte offset. -/
def sliceTo (text : Text) (offset : Nat) : Option Text := (cutAt offset text).map (·.1)

@[simp] theorem byteLength_nil : byteLength [] = 0 := rfl

@[simp] theorem byteLength_cons (character : Char) (text : Text) :
    byteLength (character :: text) = character.utf8Size + byteLength text := rfl

@[simp] theorem byteLength_append (before rest : Text) :
    byteLength (before ++ rest) = byteLength before + byteLength rest := by
  simp [byteLength]

theorem byteLength_eq_zero_iff {text : Text} : byteLength text = 0 ↔ text = [] := by
  cases text with
  | nil => exact iff_of_true rfl rfl
  | cons character text =>
    have positive := character.utf8Size_pos
    rw [byteLength_cons]
    exact iff_of_false (by omega) (List.cons_ne_nil _ _)

theorem cutAt_append (before rest : Text) :
    cutAt (byteLength before) (before ++ rest) = some (before, rest) := by
  induction before with
  | nil => simp [cutAt]
  | cons character before ih =>
    have positive := character.utf8Size_pos
    obtain ⟨offset, size⟩ : ∃ offset, byteLength (character :: before) = offset + 1 :=
      ⟨byteLength (character :: before) - 1, by rw [byteLength_cons]; omega⟩
    have fits : character.utf8Size ≤ offset + 1 := by rw [← size, byteLength_cons]; omega
    have left : offset + 1 - character.utf8Size = byteLength before := by
      rw [← size, byteLength_cons]
      omega
    rw [size, List.cons_append, cutAt, if_pos fits, left, ih]
    rfl

theorem sliceFrom_append (before rest : Text) :
    sliceFrom (before ++ rest) (byteLength before) = some rest := by
  rw [sliceFrom, cutAt_append]
  rfl

theorem sliceTo_append (before rest : Text) :
    sliceTo (before ++ rest) (byteLength before) = some before := by
  rw [sliceTo, cutAt_append]
  rfl

variable {test : Text → Bool}

/-- The first piece that passes a test, with the pieces before it. -/
theorem exists_first_of_offsetOf {pieces : List Text} {start position : Nat}
    (found : offsetOf test start pieces = some position) :
    ∃ before piece rest, pieces = before ++ piece :: rest ∧ test piece = true ∧
      (∀ other ∈ before, test other = false) ∧ position = start + before.flatten.length := by
  induction pieces generalizing start with
  | nil => cases found
  | cons piece pieces ih =>
    rw [offsetOf] at found
    split_ifs at found with passed
    · cases found
      exact ⟨[], piece, pieces, rfl, passed, List.forall_mem_nil _, rfl⟩
    · obtain ⟨before, other, rest, rfl, holds, fails, rfl⟩ := ih found
      refine ⟨piece :: before, other, rest, rfl, holds,
        List.forall_mem_cons.mpr ⟨Bool.eq_false_of_not_eq_true passed, fails⟩, ?_⟩
      simp [Nat.add_assoc]

/-- The byte offset of the first piece that passes a test. -/
def byteOffsetOf (test : Text → Bool) (position : Nat) : List Text → Option Nat
  | [] => none
  | piece :: rest =>
    if test piece then some position
    else byteOffsetOf test (position + byteLength piece) rest

/-- The first piece that passes a test is at the bytes of the pieces before it. -/
theorem byteOffsetOf_append {before : List Text} {piece : Text}
    (fails : ∀ other ∈ before, test other = false) (passed : test piece = true) (position : Nat)
    (rest : List Text) :
    byteOffsetOf test position (before ++ piece :: rest) =
      some (position + byteLength before.flatten) := by
  induction before generalizing position with
  | nil => simp [byteOffsetOf, passed]
  | cons other before ih =>
    rw [List.forall_mem_cons] at fails
    rw [List.cons_append, byteOffsetOf, if_neg (by simp [fails.1]), ih fails.2]
    simp [Nat.add_assoc]

theorem byteOffsetOf_eq_none_iff {pieces : List Text} {position start : Nat} :
    byteOffsetOf test position pieces = none ↔ offsetOf test start pieces = none := by
  induction pieces generalizing position start with
  | nil => exact Iff.rfl
  | cons piece pieces ih =>
    rw [byteOffsetOf, offsetOf]
    split_ifs
    · exact Iff.rfl
    · exact ih

end Mdbase.Library
