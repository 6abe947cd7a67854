import Mdbase.Runtime.Value

/-!
# Members of objects

The members of an object come in the order of their names, so that an object is known by what its
lookups find. An assignment keeps the order.
-/

namespace Mdbase.Runtime

/-- The members of an object in the order of their names. -/
def Sorted (result : List (String × Value)) : Prop := (result.map Prod.fst).Pairwise (· < ·)

theorem sorted_set {result : List (String × Value)} (sorted : Sorted result) (name : String)
    (item : Value) {after : List (String × Value)}
    (same : (Value.object result).set name item = .object after) : Sorted after := by
  cases same
  unfold Sorted at *
  rw [List.pairwise_map] at *
  refine List.pairwise_append.mpr ⟨sorted.filter _, ?_, ?_⟩
  · refine List.pairwise_cons.mpr ⟨fun member later => ?_, sorted.filter _⟩
    exact of_decide_eq_true (List.mem_filter.mp later).2
  · intro left before right member
    have below : left.1 < name := of_decide_eq_true (List.mem_filter.mp before).2
    rcases List.mem_cons.mp member with rfl | after
    · exact below
    · exact below.trans (of_decide_eq_true (List.mem_filter.mp after).2)

variable {members : List (String × Value)}

/-- In sorted members a lookup finds exactly what is there. -/
theorem mem_iff_get (sorted : Sorted members) {name : String} {value : Value} :
    (name, value) ∈ members ↔ (Value.object members).get name = some value := by
  have distinct : (members.map Prod.fst).Nodup := sorted.imp ne_of_lt
  constructor
  · intro here
    cases found : members.find? fun member => member.1 = name with
    | none =>
      have absent := List.find?_eq_none.mp found _ here
      simp at absent
    | some member =>
      have same : member.1 = name := by simpa using List.find?_some found
      obtain rfl : member = (name, value) :=
        List.inj_on_of_nodup_map distinct (List.mem_of_find?_eq_some found) here same
      rw [Value.get, found]
      rfl
  · intro found
    obtain ⟨member, here, same⟩ := Option.map_eq_some_iff.mp found
    have named : member.1 = name := by simpa using List.find?_some here
    rw [← named, ← same]
    exact List.mem_of_find?_eq_some here

theorem eq_of_get_eq {left right : List (String × Value)} (leftSorted : Sorted left)
    (rightSorted : Sorted right)
    (same : ∀ name, (Value.object left).get name = (Value.object right).get name) :
    left = right := by
  have leftPairs : left.Pairwise fun first second => first.1 < second.1 :=
    List.pairwise_map.mp leftSorted
  have rightPairs : right.Pairwise fun first second => first.1 < second.1 :=
    List.pairwise_map.mp rightSorted
  refine List.Perm.eq_of_pairwise (fun _ _ _ _ below above => absurd below (lt_asymm above))
    leftPairs rightPairs ?_
  refine (List.perm_ext_iff_of_nodup (leftPairs.imp fun below same => below.ne (by rw [same]))
    (rightPairs.imp fun below same => below.ne (by rw [same]))).mpr fun member => ?_
  rw [mem_iff_get leftSorted, mem_iff_get rightSorted, same]

/-- A member is assigned, or removed when there is no value. -/
def assign (members : List (String × Value)) (name : String) :
    Option Value → List (String × Value)
  | some value =>
    members.filter (fun member => member.1 < name) ++
      (name, value) :: members.filter fun member => name < member.1
  | none => members.filter fun member => member.1 ≠ name

theorem sorted_assign (sorted : Sorted members) (name : String)
    (value : Option Value) : Sorted (assign members name value) := by
  cases value with
  | none => exact sorted.sublist (List.filter_sublist.map _)
  | some value => exact sorted_set sorted name value rfl

/-- Assigning a member changes that member only. -/
theorem get_assign (members : List (String × Value)) (name : String) (value : Option Value)
    (key : String) :
    (Value.object (assign members name value)).get key =
      if key = name then value else (Value.object members).get key := by
  cases value with
  | none =>
    simp only [Value.get, assign, List.find?_filter]
    split
    next same =>
      rw [List.find?_eq_none.mpr fun member _ => by simp [same]]
      rfl
    rename_i different
    refine congrArg (Option.map _) (congrArg (fun test => members.find? test) ?_)
    funext member
    by_cases here : member.1 = key
    · simp [here, different]
    · simp [here]
  | some value =>
    split
    next same => exact same ▸ Value.get_set_self members name value
    next different => exact Value.get_set_of_ne value different

/-- The objects in a value have their members in order, at every depth. -/
inductive Value.Ordered : Value → Prop where
  | null : Ordered .null
  | bool (value : Bool) : Ordered (.bool value)
  | number (value : Number) : Ordered (.number value)
  | string (value : String) : Ordered (.string value)
  | array {items : List Value} (all : ∀ item ∈ items, Ordered item) : Ordered (.array items)
  | object {members : List (String × Value)} (sorted : Sorted members)
      (all : ∀ member ∈ members, Ordered member.2) : Ordered (.object members)

theorem Value.Ordered.sorted {members : List (String × Value)}
    (ordered : (Value.object members).Ordered) : Sorted members := by
  cases ordered with
  | object sorted all => exact sorted

theorem Value.Ordered.get (ordered : (Value.object members).Ordered) {name : String} {value : Value}
    (found : (Value.object members).get name = some value) : value.Ordered := by
  cases ordered with
  | object sorted all => exact all (name, value) ((mem_iff_get sorted).mpr found)

end Mdbase.Runtime
