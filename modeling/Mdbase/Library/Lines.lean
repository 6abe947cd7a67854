import Mathlib

/-!
# Lines of a text

A text is cut after every mark; each piece keeps the mark that ends it, and only the
last piece may have none. The pieces of a text that ends with a mark do not depend on
what follows it.
-/

namespace Mdbase.Library

variable {α : Type} [DecidableEq α]

/-- The pieces of a text, cut after every mark. -/
def splitInclusive (mark : α) : List α → List (List α)
  | [] => []
  | item :: rest =>
    if item = mark then [item] :: splitInclusive mark rest
    else
      match splitInclusive mark rest with
      | [] => [[item]]
      | piece :: pieces => (item :: piece) :: pieces

variable {mark : α}

theorem splitInclusive_eq_nil_iff {text : List α} : splitInclusive mark text = [] ↔ text = [] := by
  cases text with
  | nil => simp [splitInclusive]
  | cons item rest =>
    simp only [splitInclusive, reduceCtorEq, iff_false]
    split
    · simp
    · split <;> simp

@[simp] theorem flatten_splitInclusive (text : List α) :
    (splitInclusive mark text).flatten = text := by
  induction text with
  | nil => rfl
  | cons item rest ih =>
    rw [splitInclusive]
    split
    · simp [ih]
    · split
      next empty =>
        rw [splitInclusive_eq_nil_iff] at empty
        simp [empty]
      rename_i piece pieces pieces_eq
      rw [pieces_eq] at ih
      rw [← ih]
      simp

theorem splitInclusive_append_mark {piece : List α} (free : mark ∉ piece) (rest : List α) :
    splitInclusive mark (piece ++ mark :: rest) =
      (piece ++ [mark]) :: splitInclusive mark rest := by
  induction piece with
  | nil => simp [splitInclusive]
  | cons item piece ih =>
    rw [List.mem_cons, not_or] at free
    obtain ⟨different, free⟩ := free
    rw [List.cons_append, splitInclusive, if_neg (Ne.symm different), ih free]
    rfl

theorem splitInclusive_of_free {piece : List α} (free : mark ∉ piece) (nonempty : piece ≠ []) :
    splitInclusive mark piece = [piece] := by
  induction piece with
  | nil => exact absurd rfl nonempty
  | cons item piece ih =>
    rw [List.mem_cons, not_or] at free
    obtain ⟨different, free⟩ := free
    rw [splitInclusive, if_neg (Ne.symm different)]
    cases piece with
    | nil => rfl
    | cons next more => rw [ih free (List.cons_ne_nil _ _)]

omit [DecidableEq α] in
theorem free_or_first (mark : α) (text : List α) :
    mark ∉ text ∨ ∃ before rest, text = before ++ mark :: rest ∧ mark ∉ before := by
  by_cases member : mark ∈ text
  · exact .inr (List.eq_append_cons_of_mem member)
  · exact .inl member

theorem splitInclusive_append {text : List α} (ended : text.getLast? = some mark) (rest : List α) :
    splitInclusive mark (text ++ rest) = splitInclusive mark text ++ splitInclusive mark rest := by
  induction text with
  | nil => cases ended
  | cons item text ih =>
    cases text with
    | nil =>
      cases ended
      simp [splitInclusive]
    | cons next more =>
      rw [List.getLast?_cons_cons] at ended
      have cut := ih ended
      generalize next :: more = tail at cut ended ⊢
      have nonempty : splitInclusive mark tail ≠ [] := by
        intro empty
        rw [splitInclusive_eq_nil_iff.mp empty] at ended
        cases ended
      rw [List.cons_append]
      simp only [splitInclusive, cut]
      by_cases isMark : item = mark
      · simp [isMark]
      · cases pieces : splitInclusive mark tail with
        | nil => exact absurd pieces nonempty
        | cons piece others => simp [isMark]

/-- The offset of the first piece that passes a test, from the start of the pieces. -/
def offsetOf (test : List α → Bool) (position : Nat) : List (List α) → Option Nat
  | [] => none
  | piece :: rest =>
    if test piece then some position else offsetOf test (position + piece.length) rest

omit [DecidableEq α] in
theorem offsetOf_append {test : List α → Bool} {before : List (List α)}
    (fails : ∀ piece ∈ before, test piece = false) (position : Nat) (rest : List (List α)) :
    offsetOf test position (before ++ rest) =
      offsetOf test (position + before.flatten.length) rest := by
  induction before generalizing position with
  | nil => simp
  | cons piece before ih =>
    obtain ⟨failed, fails⟩ := List.forall_mem_cons.mp fails
    rw [List.cons_append, offsetOf, failed, if_neg (by simp), ih fails]
    simp [Nat.add_assoc]

omit [DecidableEq α] in
theorem offsetOf_isSome_iff {test : List α → Bool} {pieces : List (List α)} {position : Nat} :
    (offsetOf test position pieces).isSome ↔ pieces.any test := by
  induction pieces generalizing position with
  | nil => simp [offsetOf]
  | cons piece pieces ih =>
    rw [offsetOf]
    split
    next passed => simp [passed]
    next failed => simp [failed, ih]

end Mdbase.Library
