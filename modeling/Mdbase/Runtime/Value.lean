import Mathlib

/-!
# JSON values and instants

The runtime carries event envelopes, workflow variables, action inputs and
outputs as `serde_json::Value`, and instants as `chrono::DateTime<Utc>`. Both
are libraries of the source; this module fixes the part of them the runtime
reads.
-/

namespace Mdbase.Runtime

/-- A JSON number: an unsigned or negative integer, or a finite float by its
value, so that equality identifies the two zeros as IEEE comparison does. -/
inductive Number where
  | posInt (value : Nat)
  | negInt (value : Int)
  | float (value : Rat)
  deriving DecidableEq

/-- A JSON value. Object members are kept in key order, as in `serde_json::Map`. -/
inductive Value where
  | null
  | bool (value : Bool)
  | number (value : Number)
  | string (value : String)
  | array (items : List Value)
  | object (members : List (String × Value))
  deriving Inhabited

namespace Value

mutual

/-- Equality of JSON values is decided by structural comparison. -/
def decEq : (left right : Value) → Decidable (left = right)
  | .null, .null => isTrue rfl
  | .bool left, .bool right =>
    if same : left = right then isTrue (by rw [same]) else isFalse (by simp [same])
  | .number left, .number right =>
    if same : left = right then isTrue (by rw [same]) else isFalse (by simp [same])
  | .string left, .string right =>
    if same : left = right then isTrue (by rw [same]) else isFalse (by simp [same])
  | .array left, .array right =>
    match decEqItems left right with
    | isTrue same => isTrue (by rw [same])
    | isFalse different => isFalse (by simp [different])
  | .object left, .object right =>
    match decEqMembers left right with
    | isTrue same => isTrue (by rw [same])
    | isFalse different => isFalse (by simp [different])
  | .null, .bool _ | .null, .number _ | .null, .string _ | .null, .array _ | .null, .object _
  | .bool _, .null | .bool _, .number _ | .bool _, .string _ | .bool _, .array _
  | .bool _, .object _ | .number _, .null | .number _, .bool _ | .number _, .string _
  | .number _, .array _ | .number _, .object _ | .string _, .null | .string _, .bool _
  | .string _, .number _ | .string _, .array _ | .string _, .object _ | .array _, .null
  | .array _, .bool _ | .array _, .number _ | .array _, .string _ | .array _, .object _
  | .object _, .null | .object _, .bool _ | .object _, .number _ | .object _, .string _
  | .object _, .array _ => isFalse (by simp)

/-- Equality of the items of two arrays. -/
def decEqItems : (left right : List Value) → Decidable (left = right)
  | [], [] => isTrue rfl
  | [], _ :: _ => isFalse (by simp)
  | _ :: _, [] => isFalse (by simp)
  | left :: lefts, right :: rights =>
    match decEq left right, decEqItems lefts rights with
    | isTrue same, isTrue rest => isTrue (by rw [same, rest])
    | isFalse different, _ => isFalse (by simp [different])
    | _, isFalse different => isFalse (by simp [different])

/-- Equality of the members of two objects. -/
def decEqMembers : (left right : List (String × Value)) → Decidable (left = right)
  | [], [] => isTrue rfl
  | [], _ :: _ => isFalse (by simp)
  | _ :: _, [] => isFalse (by simp)
  | (name, left) :: lefts, (other, right) :: rights =>
    if names : name = other then
      match decEq left right, decEqMembers lefts rights with
      | isTrue same, isTrue rest => isTrue (by rw [names, same, rest])
      | isFalse different, _ => isFalse (by simp [different])
      | _, isFalse different => isFalse (by simp [different])
    else isFalse (by simp [names])

end

instance : DecidableEq Value := decEq

/-- Member lookup, `Value::get` with a string key. -/
def get : Value → String → Option Value
  | .object members, name => (members.find? fun member => member.1 = name).map Prod.snd
  | _, _ => none

/-- `Value::as_str`. -/
def asStr : Value → Option String
  | .string value => some value
  | _ => none

/-- `Value::as_array`. -/
def asArray : Value → Option (List Value)
  | .array items => some items
  | _ => none

/-- Assignment of an object member, `value[name] = item`. -/
def set : Value → String → Value → Value
  | .object members, name, item =>
    .object (members.filter (fun member => member.1 < name) ++
      (name, item) :: members.filter (fun member => name < member.1))
  | other, _, _ => other

theorem exists_set_eq_object (members : List (String × Value)) (name : String) (item : Value) :
    ∃ after, (Value.object members).set name item = .object after :=
  ⟨_, rfl⟩

/-- An assignment leaves the other members alone. -/
theorem get_set_of_ne {members : List (String × Value)} {name key : String} (item : Value)
    (different : key ≠ name) :
    ((Value.object members).set name item).get key = (Value.object members).get key := by
  -- the members on either side of the new one are found as before
  have side : ∀ test : String × Value → Bool,
      (∀ member : String × Value, member.1 = key → test member = true) →
      (members.filter test).find? (fun member => member.1 = key) =
        members.find? fun member => member.1 = key := by
    intro test passes
    rw [List.find?_filter]
    refine congrArg (fun search => members.find? search) (funext fun member => ?_)
    by_cases here : member.1 = key
    · simp [here, passes member here]
    · simp [here]
  have none : ∀ test : String × Value → Bool,
      (∀ member : String × Value, member.1 = key → test member = false) →
      (members.filter test).find? (fun member => member.1 = key) = none := by
    intro test fails
    refine List.find?_eq_none.mpr fun member found here => ?_
    have passed := (List.mem_filter.mp found).2
    rw [fails member (by simpa using here)] at passed
    cases passed
  simp only [set, get, List.find?_append]
  rcases lt_trichotomy key name with before | same | after
  · rw [side _ (fun member here => by simp [here, before])]
    rw [List.find?_cons_of_neg (by simpa using different.symm),
      none _ (fun member here => by simp [here, not_lt_of_gt before]), Option.or_none]
  · exact absurd same different
  · rw [none _ (fun member here => by simp [here, not_lt_of_gt after]), Option.none_or]
    rw [List.find?_cons_of_neg (by simpa using different.symm),
      side _ (fun member here => by simp [here, after])]

theorem get_set_self (members : List (String × Value)) (name : String) (item : Value) :
    ((Value.object members).set name item).get name = some item := by
  have absent : (members.filter fun member => member.1 < name).find?
      (fun member => member.1 = name) = none := by
    refine List.find?_eq_none.mpr fun member found here => ?_
    have below := (List.mem_filter.mp found).2
    simp only [decide_eq_true_eq] at below here
    exact absurd here below.ne
  simp only [set, get, List.find?_append, absent, Option.none_or]
  simp

example : Value.array [.null, .bool true] ≠ .array [.null, .bool false] := by decide

end Value

/-- An instant of `chrono::DateTime<Utc>`, in nanoseconds since the Unix epoch. -/
abbrev DateTime := Int

/-- The computable order of instants, found before the noncomputable one that
Mathlib derives from completeness. -/
instance (priority := high) : Preorder DateTime := Int.instLinearOrder.toPartialOrder.toPreorder

/-- A `std::time::Duration`, in nanoseconds. -/
abbrev Duration := Nat

namespace DateTime

/-- `DateTime::<Utc>::MIN_UTC`, the first instant of the year -262143. -/
def minUtc : DateTime := -8334601228800 * 1000000000

/-- `DateTime::<Utc>::MAX_UTC`, the last nanosecond of the year 262142. -/
def maxUtc : DateTime := 8210266876799 * 1000000000 + 999999999

/-- `DateTime + TimeDelta`. The source's operator panics outside the range of
`DateTime`; that outcome is `none`. -/
def checkedAdd (at_ : DateTime) (delta : Int) : Option DateTime :=
  if minUtc ≤ at_ + delta ∧ at_ + delta ≤ maxUtc then some (at_ + delta) else none

/-- `TimeDelta::milliseconds`, in nanoseconds. -/
def milliseconds (count : Nat) : Int := count * 1000000

theorem checkedAdd_eq_some_iff {at_ sum : DateTime} {delta : Int} :
    checkedAdd at_ delta = some sum ↔
      sum = at_ + delta ∧ minUtc ≤ at_ + delta ∧ at_ + delta ≤ maxUtc := by
  unfold checkedAdd
  split <;> simp_all [eq_comm]

end DateTime

/-- The largest value of `i64`. -/
def i64Max : Nat := 2 ^ 63 - 1

/-- The largest value of `u64`. -/
def u64Max : Nat := 2 ^ 64 - 1

end Mdbase.Runtime
