import Mathlib.Data.List.Basic

/-!
# Parts joined by a mark

A list of parts is joined with a mark between them, and the parts may contain the
mark themselves. Two such lists of the same length that are joined to the same text
are the same, or one was cut out of the other at different marks: `Recut` says where.
-/

namespace Mdbase.Library

variable {α : Type} {left leftRest right rightRest : List α} {mark : α}

/-- A text that is cut at a mark in two ways: at the same mark, or at two marks with
something between them. -/
theorem cut_eq_iff :
    left ++ mark :: leftRest = right ++ mark :: rightRest ↔
      left = right ∧ leftRest = rightRest ∨
      (∃ between, right = left ++ mark :: between ∧ leftRest = between ++ mark :: rightRest) ∨
      ∃ between, left = right ++ mark :: between ∧ rightRest = between ++ mark :: leftRest := by
  constructor
  · intro equal
    rcases List.append_eq_append_iff.mp equal with ⟨more, rfl, rest⟩ | ⟨more, rfl, rest⟩
    · cases more with
      | nil =>
        rw [List.nil_append, List.cons.injEq] at rest
        exact .inl ⟨(List.append_nil left).symm, rest.2⟩
      | cons first between =>
        rw [List.cons_append, List.cons.injEq] at rest
        obtain ⟨rfl, rest⟩ := rest
        exact .inr (.inl ⟨between, rfl, rest⟩)
    · cases more with
      | nil =>
        rw [List.nil_append, List.cons.injEq] at rest
        exact .inl ⟨List.append_nil right, rest.2.symm⟩
      | cons first between =>
        rw [List.cons_append, List.cons.injEq] at rest
        obtain ⟨rfl, rest⟩ := rest
        exact .inr (.inr ⟨between, rfl, rest⟩)
  · rintro (⟨rfl, rfl⟩ | ⟨between, rfl, rfl⟩ | ⟨between, rfl, rfl⟩)
    · rfl
    · simp
    · simp

theorem cut_last_inj (leftFree : mark ∉ leftRest) (rightFree : mark ∉ rightRest)
    (equal : left ++ mark :: leftRest = right ++ mark :: rightRest) :
    left = right ∧ leftRest = rightRest := by
  rcases cut_eq_iff.mp equal with same | ⟨between, _, rfl⟩ | ⟨between, _, rfl⟩
  · exact same
  · exact absurd (by simp) leftFree
  · exact absurd (by simp) rightFree

theorem cut_first_inj (leftFree : mark ∉ left) (rightFree : mark ∉ right)
    (equal : left ++ mark :: leftRest = right ++ mark :: rightRest) :
    left = right ∧ leftRest = rightRest := by
  rcases cut_eq_iff.mp equal with same | ⟨between, rfl, _⟩ | ⟨between, rfl, _⟩
  · exact same
  · exact absurd (by simp) rightFree
  · exact absurd (by simp) leftFree

/-- Parts with a mark between them. -/
def joined (mark : α) : List (List α) → List α
  | [] => []
  | [part] => part
  | part :: next :: rest => part ++ mark :: joined mark (next :: rest)

/-- Two lists of parts are cut out of one text at different marks: in the first place
where they differ, one part is the other one, the mark and what comes next in its
list. -/
def Recut (mark : α) : List (List α) → List (List α) → Prop
  | left :: leftNext :: lefts, right :: rightNext :: rights =>
    left = right ∧ Recut mark (leftNext :: lefts) (rightNext :: rights) ∨
    (∃ between, right = left ++ mark :: between ∧
      joined mark (leftNext :: lefts) = between ++ mark :: joined mark (rightNext :: rights)) ∨
    ∃ between, left = right ++ mark :: between ∧
      joined mark (rightNext :: rights) = between ++ mark :: joined mark (leftNext :: lefts)
  | _, _ => False

/-- Different lists of as many parts are joined to one text exactly when they are
recut. -/
theorem joined_eq_iff {lefts rights : List (List α)}
    (length : lefts.length = rights.length) (differ : lefts ≠ rights) :
    joined mark lefts = joined mark rights ↔ Recut mark lefts rights := by
  induction lefts generalizing rights with
  | nil =>
    obtain rfl := List.length_eq_zero_iff.mp length.symm
    exact absurd rfl differ
  | cons left lefts ih =>
    cases rights with
    | nil => cases length
    | cons right rights =>
      cases lefts with
      | nil =>
        obtain rfl : rights = [] := List.length_eq_zero_iff.mp (by simpa using length.symm)
        have parts : left ≠ right := fun same => differ (by rw [same])
        simpa [joined, Recut] using parts
      | cons leftNext lefts =>
        cases rights with
        | nil => simp at length
        | cons rightNext rights =>
          rw [joined, joined, cut_eq_iff, Recut]
          refine or_congr_left (and_congr_right fun same => ?_)
          refine ih (by simpa using length) fun rest => differ ?_
          rw [same, rest]

theorem toList_separated (left right : String) :
    (left ++ ":" ++ right).toList = left.toList ++ ':' :: right.toList := by
  simp [String.toList_append]

variable {left leftRest right rightRest : String}

theorem separated_eq_iff :
    left ++ ":" ++ leftRest = right ++ ":" ++ rightRest ↔
      left = right ∧ leftRest = rightRest ∨
      (∃ part, right = left ++ ":" ++ part ∧ leftRest = part ++ ":" ++ rightRest) ∨
      ∃ part, left = right ++ ":" ++ part ∧ rightRest = part ++ ":" ++ leftRest := by
  have text : ∀ {first second : String}, first = second ↔ first.toList = second.toList :=
    fun {_ _} => String.toList_inj.symm
  have inner : ∀ long short whole rest : String,
      (∃ between, long.toList = short.toList ++ ':' :: between ∧
        whole.toList = between ++ ':' :: rest.toList) ↔
        ∃ part, long = short ++ ":" ++ part ∧ whole = part ++ ":" ++ rest := by
    intro long short whole rest
    constructor
    · rintro ⟨between, cut, tail⟩
      refine ⟨String.ofList between, text.mpr ?_, text.mpr ?_⟩
      · rw [toList_separated, String.toList_ofList, cut]
      · rw [toList_separated, String.toList_ofList, tail]
    · rintro ⟨part, rfl, rfl⟩
      exact ⟨part.toList, toList_separated _ _, toList_separated _ _⟩
  rw [text, toList_separated, toList_separated, cut_eq_iff]
  exact or_congr (and_congr text.symm text.symm) (or_congr (inner ..) (inner ..))

theorem separated_cancel {left first second : String} :
    left ++ ":" ++ first = left ++ ":" ++ second ↔ first = second := by
  constructor
  · intro same
    have texts := congrArg String.toList same
    rw [toList_separated, toList_separated, List.append_cancel_left_eq, List.cons.injEq] at texts
    exact String.toList_inj.mp texts.2
  · rintro rfl
    rfl

theorem separated_assoc (first second third : String) :
    first ++ ":" ++ second ++ ":" ++ third = first ++ ":" ++ (second ++ ":" ++ third) := by
  simp only [String.append_assoc]

theorem separated_inj_of_length (length : left.toList.length = right.toList.length)
    (same : left ++ ":" ++ leftRest = right ++ ":" ++ rightRest) :
    left = right ∧ leftRest = rightRest := by
  have texts := congrArg String.toList same
  rw [toList_separated, toList_separated] at texts
  obtain ⟨first, second⟩ := List.append_inj texts length
  rw [List.cons.injEq] at second
  exact ⟨String.toList_inj.mp first, String.toList_inj.mp second.2⟩

end Mdbase.Library
