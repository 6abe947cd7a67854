import Mathlib

/-!
# Three-valued answers about partial conditions

A condition may fail to have a value: its outcome is an `Option Bool`, and the
connectives absorb a missing operand when the other one decides. A `Truth` is an
answer about such a condition that may be left open. A definite answer is sound in
the weak sense that suits partial conditions: the outcome is not the opposite one.
This relation is kept by every connective at every polarity.
-/

namespace Mdbase.Library

/-- A definite answer, or none. -/
inductive Truth where
  | holds
  | fails
  | unknown
  deriving DecidableEq

namespace Truth

/-- The definite answer of a decided condition. -/
def ofBool (value : Bool) : Truth := if value then .holds else .fails

/-- The answer about a negation. -/
def not : Truth → Truth
  | .holds => .fails
  | .fails => .holds
  | .unknown => .unknown

/-- The answer about a conjunction: one failing term decides it. -/
def all : List Truth → Truth
  | [] => .holds
  | .fails :: _ => .fails
  | .holds :: rest => all rest
  | .unknown :: rest => if all rest = .fails then .fails else .unknown

/-- The answer about a disjunction: one term that holds decides it. -/
def any : List Truth → Truth
  | [] => .fails
  | .holds :: _ => .holds
  | .fails :: rest => any rest
  | .unknown :: rest => if any rest = .holds then .holds else .unknown

end Truth

/-- A conjunction of partial conditions; a false operand absorbs a missing one. -/
def absorbingAnd : Option Bool → Option Bool → Option Bool
  | some false, _ => some false
  | _, some false => some false
  | some true, some true => some true
  | _, _ => none

/-- A disjunction of partial conditions; a true operand absorbs a missing one. -/
def absorbingOr : Option Bool → Option Bool → Option Bool
  | some true, _ => some true
  | _, some true => some true
  | some false, some false => some false
  | _, _ => none

namespace Truth

variable {answer left right : Truth} {outcome first second : Option Bool}

/-- The answer rules the condition out only when it is not met. -/
def Excludes (answer : Truth) (outcome : Option Bool) : Prop :=
  answer = .fails → outcome ≠ some true

/-- A definite answer is not contradicted by the outcome. -/
structure Describes (answer : Truth) (outcome : Option Bool) : Prop where
  fails : answer = .fails → outcome ≠ some true
  holds : answer = .holds → outcome ≠ some false

theorem Describes.excludes (describes : Describes answer outcome) : Excludes answer outcome :=
  describes.fails

@[simp] theorem describes_unknown : Describes .unknown outcome where
  fails := fun impossible => by cases impossible
  holds := fun impossible => by cases impossible

@[simp] theorem describes_none : Describes answer none where
  fails := fun _ => by simp
  holds := fun _ => by simp

@[simp] theorem describes_ofBool (value : Bool) : Describes (ofBool value) (some value) where
  fails := fun answer => by cases value <;> simp_all [ofBool]
  holds := fun answer => by cases value <;> simp_all [ofBool]

theorem Describes.not (describes : Describes answer outcome) :
    Describes answer.not (outcome.map Bool.not) where
  fails := by
    intro opposite
    have holds : answer = .holds := by cases answer <;> simp_all [Truth.not]
    have kept := describes.holds holds
    cases outcome with
    | none => simp
    | some value => cases value <;> simp_all
  holds := by
    intro opposite
    have fails : answer = .fails := by cases answer <;> simp_all [Truth.not]
    have kept := describes.fails fails
    cases outcome with
    | none => simp
    | some value => cases value <;> simp_all

/-- An answer about a conjunction reads its second operand only if the first one does not fail. -/
theorem Describes.and (leftSound : Describes left first)
    (rightSound : left ≠ .fails → Describes right second) :
    Describes (all [left, right]) (absorbingAnd first second) := by
  by_cases decided : left = .fails
  · subst decided
    have kept := leftSound.fails rfl
    exact ⟨fun _ => by rcases first with _ | _ | _ <;> rcases second with _ | _ | _ <;>
      simp_all [absorbingAnd], fun impossible => by cases impossible⟩
  · obtain ⟨leftFails, leftHolds⟩ := leftSound
    obtain ⟨rightFails, rightHolds⟩ := rightSound decided
    constructor <;> cases left <;> cases right <;> rcases first with _ | _ | _ <;>
      rcases second with _ | _ | _ <;> simp_all [all, absorbingAnd]

/-- An answer about a disjunction reads its second operand only if the first one does not hold. -/
theorem Describes.or (leftSound : Describes left first)
    (rightSound : left ≠ .holds → Describes right second) :
    Describes (any [left, right]) (absorbingOr first second) := by
  by_cases decided : left = .holds
  · subst decided
    have kept := leftSound.holds rfl
    exact ⟨fun impossible => (by cases impossible), fun _ => by
      rcases first with _ | _ | _ <;> rcases second with _ | _ | _ <;> simp_all [absorbingOr]⟩
  · obtain ⟨leftFails, leftHolds⟩ := leftSound
    obtain ⟨rightFails, rightHolds⟩ := rightSound decided
    constructor <;> cases left <;> cases right <;> rcases first with _ | _ | _ <;>
      rcases second with _ | _ | _ <;> simp_all [any, absorbingOr]

theorem Excludes.and (leftSound : Excludes left first)
    (rightSound : left ≠ .fails → Excludes right second) :
    Excludes (all [left, right]) (absorbingAnd first second) := by
  by_cases decided : left = .fails
  · have kept := leftSound decided
    intro _
    rcases first with _ | _ | _ <;> rcases second with _ | _ | _ <;> simp_all [absorbingAnd]
  · have rightSound := rightSound decided
    intro fails
    cases left <;> cases right <;> rcases first with _ | _ | _ <;>
      rcases second with _ | _ | _ <;> simp_all [all, absorbingAnd, Excludes]

/-- What rules out one side of a conjunction rules out the conjunction. -/
theorem Excludes.and_left (sound : Excludes answer first) :
    Excludes answer (absorbingAnd first second) := by
  intro fails
  have kept := sound fails
  rcases first with _ | _ | _ <;> rcases second with _ | _ | _ <;> simp_all [absorbingAnd]

theorem Excludes.and_right (sound : Excludes answer second) :
    Excludes answer (absorbingAnd first second) := by
  intro fails
  have kept := sound fails
  rcases first with _ | _ | _ <;> rcases second with _ | _ | _ <;> simp_all [absorbingAnd]

/-- A failing term rules out the conjunction that contains it, and only that does. -/
theorem all_eq_fails_iff {answers : List Truth} : all answers = .fails ↔ .fails ∈ answers := by
  induction answers with
  | nil => simp [all]
  | cons answer rest ih =>
    cases answer with
    | holds => simp [all, ih]
    | fails => simp [all]
    | unknown =>
      rw [all]
      split
      next found => simp [ih.mp found]
      next missing => simp [mt ih.mpr missing]

theorem any_eq_fails_iff {answers : List Truth} :
    any answers = .fails ↔ ∀ answer ∈ answers, answer = .fails := by
  induction answers with
  | nil => simp [any]
  | cons answer rest ih =>
    cases answer with
    | holds => simp [any]
    | fails => simp [any, ih]
    | unknown =>
      rw [any]
      split <;> simp

end Truth
end Mdbase.Library
