import Mdbase.Library.Comparison
import Mdbase.Library.Rounding
import Mdbase.Runtime.Value

/-!
# Comparing values for ordering and grouping

`compare_values` orders numbers by their floating-point value, texts and truth
values in their own order, arrays and objects by their length, and puts null
after everything else. Values of two different kinds compare as equal, so the
comparison is a total preorder only on values that do not mix kinds in a way
that matters.
-/

namespace Mdbase.Runtime

/-- `Number::as_f64`: integers are rounded to the 53 bits of a double. -/
def Number.asF64 : Number → Rat
  | .posInt value => Library.roundBits 53 value
  | .negInt value => -Library.roundBits 53 value.natAbs
  | .float value => value

end Mdbase.Runtime

namespace Mdbase.Query

open Library Mdbase.Runtime

/-- The direction of an ordering clause. -/
inductive Direction where
  | asc
  | desc
  deriving DecidableEq

/-- One clause of `order_by` or `group_by`. -/
structure OrderBy where
  field : String
  direction : Direction := .asc
  deriving DecidableEq

/-- The ascending part of `compare_values`. -/
def compareAscending : (left right : Value) → Ordering
  | .null, .null => .eq
  | .null, _ => .gt
  | _, .null => .lt
  | .number left, .number right => compare left.asF64 right.asF64
  | .string left, .string right => compare left right
  | .bool left, .bool right => compare left right
  | .array left, .array right => compare left.length right.length
  | .object left, .object right => compare left.length right.length
  | _, _ => .eq

/-- An ascending answer, turned around for a descending clause. -/
def Direction.apply : Direction → Ordering → Ordering
  | .asc, ascending => ascending
  | .desc, ascending => ascending.swap

/-- `compare_values`. -/
def compareValues (left right : Value) (direction : Direction) : Ordering :=
  direction.apply (compareAscending left right)

/-- The kinds of JSON values. -/
inductive Kind where
  | null
  | bool
  | number
  | string
  | array
  | object
  deriving DecidableEq

/-- The kind of a value. -/
def kind : Value → Kind
  | .null => .null
  | .bool _ => .bool
  | .number _ => .number
  | .string _ => .string
  | .array _ => .array
  | .object _ => .object

theorem compareAscending_swap (left right : Value) :
    compareAscending left right = (compareAscending right left).swap := by
  cases left <;> cases right <;> simp only [compareAscending, Ordering.swap_eq, Ordering.swap_gt,
    Ordering.swap_lt] <;> exact Std.OrientedCmp.eq_swap

theorem compareAscending_of_kind_ne {left right : Value} (leftPresent : kind left ≠ .null)
    (rightPresent : kind right ≠ .null) (different : kind left ≠ kind right) :
    compareAscending left right = .eq := by
  cases left <;> cases right <;> simp_all [kind, compareAscending]

theorem compareAscending_trans_of_kind {first second third : Value}
    (same : kind first = kind second) (also : kind second = kind third)
    (below : (compareAscending first second).isLE) (above : (compareAscending second third).isLE) :
    (compareAscending first third).isLE := by
  cases first <;> cases second <;> simp only [kind, reduceCtorEq] at same <;>
    cases third <;> simp only [kind, reduceCtorEq] at also <;>
    simp only [compareAscending] at below above ⊢ <;>
    first | exact above | exact Std.TransCmp.isLE_trans below above

theorem compareAscending_null_right (value : Value) : (compareAscending value .null).isLE := by
  cases value <;> rfl

theorem null_of_compareAscending_null_isLE {value : Value}
    (below : (compareAscending .null value).isLE) : value = .null := by
  cases value <;> simp_all [compareAscending]

/-- Among the values that are not null, no two of one kind are told apart while a
value of another kind is present. -/
def Comparable (values : List Value) : Prop :=
  ∀ left ∈ values, ∀ right ∈ values, ∀ other ∈ values, kind left ≠ .null →
    kind other ≠ .null → kind left = kind right → kind other ≠ kind left →
      compareAscending left right = .eq

instance (values : List Value) : Decidable (Comparable values) :=
  inferInstanceAs (Decidable (∀ left ∈ values, ∀ right ∈ values, ∀ other ∈ values,
    kind left ≠ .null → kind other ≠ .null → kind left = kind right →
      kind other ≠ kind left → compareAscending left right = .eq))

namespace Comparable

variable {values : List Value}

theorem eq_of_mixed (comparable : Comparable values) {left right other : Value}
    (leftMember : left ∈ values) (rightMember : right ∈ values) (otherMember : other ∈ values)
    (leftPresent : kind left ≠ .null) (rightPresent : kind right ≠ .null)
    (otherPresent : kind other ≠ .null) (mixed : kind other ≠ kind left) :
    compareAscending left right = .eq := by
  by_cases same : kind left = kind right
  · exact comparable left leftMember right rightMember other otherMember leftPresent otherPresent
      same mixed
  · exact compareAscending_of_kind_ne leftPresent rightPresent same

theorem isLE_trans (comparable : Comparable values) {first second third : Value}
    (firstMember : first ∈ values) (secondMember : second ∈ values) (thirdMember : third ∈ values)
    (below : (compareAscending first second).isLE) (above : (compareAscending second third).isLE) :
    (compareAscending first third).isLE := by
  by_cases thirdPresent : kind third = .null
  · cases third <;> first | exact compareAscending_null_right first | simp [kind] at thirdPresent
  · have secondPresent : kind second ≠ .null := by
      intro absent
      cases second <;> simp only [kind, reduceCtorEq] at absent
      exact thirdPresent (by rw [null_of_compareAscending_null_isLE above]; rfl)
    have firstPresent : kind first ≠ .null := by
      intro absent
      cases first <;> simp only [kind, reduceCtorEq] at absent
      exact secondPresent (by rw [null_of_compareAscending_null_isLE below]; rfl)
    by_cases same : kind second = kind first
    · by_cases also : kind third = kind second
      · exact compareAscending_trans_of_kind same.symm also.symm below above
      · rw [compareAscending_of_kind_ne firstPresent thirdPresent
          (fun equal => also (equal.symm.trans same.symm))]
        rfl
    · rw [comparable.eq_of_mixed firstMember thirdMember secondMember firstPresent thirdPresent
        secondPresent same]
      rfl

theorem ordersOn (comparable : Comparable values) (direction : Direction) :
    OrdersOn (fun left right => compareValues left right direction) values := by
  have ascending : OrdersOn compareAscending values :=
    OrdersOn.intro (fun left _ right _ => compareAscending_swap left right)
      (fun _ firstMember _ secondMember _ thirdMember =>
        comparable.isLE_trans firstMember secondMember thirdMember)
  cases direction with
  | asc => exact ascending
  | desc => exact ascending.swap

end Comparable

end Mdbase.Query
