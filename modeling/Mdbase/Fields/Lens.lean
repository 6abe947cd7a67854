import Mdbase.Fields.References

/-!
# The laws of field references

A location in a value is a path of keys; the keys of arrays are their indices. A write through a
reference is read back through it and leaves every location beside the path alone. A failed write
leaves everything alone, unless it has created a container first: that happens if and only if an
array is created on the path that the rest of the reference cannot fill.
-/

namespace Mdbase.Fields

open Library
open Mdbase.Runtime (Value assign get_assign)
open Mdbase.Provider (validPointer escaped escaped_cons validPointer_escaped_append
  slash_notMem_escaped)

theorem digitChar_value {one : Char} (digit : one.isDigit = true) :
    one.toNat - '0'.toNat < 10 ∧ (one.toNat - '0'.toNat).digitChar = one := by
  obtain ⟨low, high⟩ := Char.isDigit_iff_toNat.mp digit
  have bounds : 48 ≤ one.toNat ∧ one.toNat ≤ 57 := ⟨low, high⟩
  have small : one.toNat - 48 < 10 := by omega
  refine ⟨small, Char.toNat_inj.mp ?_⟩
  change ((one.toNat - 48).digitChar).toNat = one.toNat
  rw [Nat.toNat_digitChar_of_lt_ten small]
  omega

theorem toDigits_ofDigitChars {digits : List Char} (digit : ∀ one ∈ digits, one.isDigit = true)
    {first : Char} (starts : digits.head? = some first) (nonzero : first ≠ '0') :
    0 < Nat.ofDigitChars 10 digits 0 ∧ Nat.toDigits 10 (Nat.ofDigitChars 10 digits 0) = digits := by
  induction digits using List.reverseRecOn with
  | nil => cases starts
  | append_singleton front last ih =>
    obtain ⟨small, same⟩ := digitChar_value (digit last (by simp))
    have value : Nat.ofDigitChars 10 (front ++ [last]) 0 =
        10 * Nat.ofDigitChars 10 front 0 + (last.toNat - '0'.toNat) := by
      rw [Nat.ofDigitChars_append, Nat.ofDigitChars_cons, Nat.ofDigitChars_nil]
    rw [value]
    cases front with
    | nil =>
      obtain rfl : last = first := Option.some.inj starts
      have positive : last.toNat - '0'.toNat ≠ 0 := fun zero =>
        nonzero (by rw [← same, zero]; rfl)
      rw [Nat.ofDigitChars_nil, Nat.mul_zero, Nat.zero_add, Nat.toDigits_of_lt_base small, same]
      exact ⟨Nat.pos_of_ne_zero positive, rfl⟩
    | cons other rest =>
      obtain ⟨positive, written⟩ := ih
        (fun one member => digit one (List.mem_append_left _ member)) starts
      refine ⟨by omega, ?_⟩
      rw [← Nat.toDigits_append_toDigits (by decide) positive small, written,
        Nat.toDigits_of_lt_base small, same]

variable {index : Nat}

theorem toList_of_arrayIndex {token : String}
    (found : arrayIndex token = some index) : token.toList = Nat.toDigits 10 index := by
  rw [arrayIndex] at found
  split_ifs at found with zero bad
  · cases found
    rw [zero]
    rfl
  · push Not at bad
    obtain ⟨nonzero, nonempty, digits⟩ := bad
    dsimp only at found
    split_ifs at found
    cases found
    obtain ⟨first, rest, starts⟩ := List.exists_cons_of_ne_nil nonempty
    have head : token.toList.head? = some first := by rw [starts]; rfl
    refine (toDigits_ofDigitChars (List.all_eq_true.mp digits) head ?_).2.symm
    rintro rfl
    exact nonzero head

theorem arrayIndex_inj {left right : String} (first : arrayIndex left = some index)
    (second : arrayIndex right = some index) : left = right :=
  String.toList_inj.mp ((toList_of_arrayIndex first).trans (toList_of_arrayIndex second).symm)

theorem arrayIndex_eq_zero_iff {token : String} : arrayIndex token = some 0 ↔ token = "0" := by
  constructor
  · intro found
    exact String.toList_inj.mp (toList_of_arrayIndex found)
  · rintro rfl
    rfl

variable {members : List (String × Value)} {key : String}

@[simp] theorem get_replaceMember {old : Value}
    (present : (Value.object members).get key = some old) (value : Value) (name : String) :
    (Value.object (replaceMember key value members)).get name =
      if name = key then some value else (Value.object members).get name := by
  induction members with
  | nil => cases present
  | cons member rest ih =>
    by_cases here : member.1 = key
    · by_cases same : name = key
      · simp [replaceMember, Value.get, here, same]
      · have other : ¬key = name := Ne.symm same
        simp [replaceMember, Value.get, here, same, other]
    · have later : (Value.object rest).get key = some old := by
        simpa [Value.get, here] using present
      have rest_ := ih later
      by_cases same : member.1 = name
      · have other : ¬name = key := fun equal => here (same.trans equal)
        simp [replaceMember, Value.get, same, other]
      · simpa [replaceMember, Value.get, here, same] using rest_

theorem replaceMember_self {value : Value} (present : (Value.object members).get key = some value) :
    replaceMember key value members = members := by
  induction members with
  | nil => rfl
  | cons member rest ih =>
    by_cases here : member.1 = key
    · have same : member.2 = value := by simpa [Value.get, here] using present
      rw [replaceMember, if_pos here, ← here, ← same]
    · rw [replaceMember, if_neg here, ih (by simpa [Value.get, here] using present)]

theorem get_withContainer (members : List (String × Value)) (key : String) (container : Value)
    (name : String) :
    (Value.object (withContainer members key container).1).get name =
      if name = key then some (withContainer members key container).2
      else (Value.object members).get name := by
  unfold withContainer
  split
  next child found =>
      split_ifs with same
      · rw [same, found]
      · rfl
  next missing => exact get_assign members key (some container) name

/-- The value at a path of keys. -/
def locate : List String → Value → Option Value
  | [], value => some value
  | key :: path, value => (select true key value).bind (locate path)

/-- Neither path is a beginning of the other. -/
def Apart (path other : List String) : Prop := ¬path <+: other ∧ ¬other <+: path

theorem apart_cons {key other : String} {path rest : List String} :
    Apart (key :: path) (other :: rest) ↔ other ≠ key ∨ Apart path rest := by
  unfold Apart
  rw [List.cons_prefix_cons, List.cons_prefix_cons]
  constructor
  · rintro ⟨first, second⟩
    by_cases same : other = key
    · exact .inr ⟨fun within => first ⟨same.symm, within⟩, fun within => second ⟨same, within⟩⟩
    · exact .inl same
  · rintro (different | ⟨first, second⟩)
    · exact ⟨fun within => different within.1.symm, fun within => different within.1⟩
    · exact ⟨fun within => first within.2, fun within => second within.2⟩

theorem Apart.cases {path other : List String} (apart : Apart path other) :
    ∃ key rest otherKey otherRest, path = key :: rest ∧ other = otherKey :: otherRest ∧
      (otherKey ≠ key ∨ Apart rest otherRest) := by
  cases path with
  | nil => exact absurd (List.nil_prefix) apart.1
  | cons key rest =>
    cases other with
    | nil => exact absurd (List.nil_prefix) apart.2
    | cons otherKey otherRest =>
      exact ⟨key, rest, otherKey, otherRest, rfl, rfl, apart_cons.mp apart⟩

theorem select_newContainer (pointer : Bool) (schema : Option Value) (key : String) :
    select pointer key (newContainer schema) = none := by
  unfold newContainer
  split_ifs
  · cases pointer <;> cases found : arrayIndex key <;> simp [select, found]
  · rfl

theorem locate_congr {before after : Value}
    (same : select true key after = select true key before) (rest : List String) :
    locate (key :: rest) after = locate (key :: rest) before := by
  rw [locate, locate, same]

theorem select_object (pointer : Bool) (key : String) (members : List (String × Value)) :
    select pointer key (.object members) = (Value.object members).get key := rfl

theorem select_array (key : String) (items : List Value) :
    select true key (.array items) = (arrayIndex key).bind fun index => items[index]? := rfl

theorem select_set {key name : String} (found : arrayIndex key = some index)
    (different : name ≠ key) (items : List Value) (value : Value) :
    select true name (.array (items.set index value)) = select true name (.array items) := by
  rw [select_array, select_array]
  cases other : arrayIndex name with
  | none => rfl
  | some place =>
    have apart : index ≠ place := fun same =>
      different (arrayIndex_inj other (same ▸ found))
    exact List.getElem?_set_ne apart

theorem select_append {key name : String} {items : List Value}
    (found : arrayIndex key = some items.length) (different : name ≠ key) (value : Value) :
    select true name (.array (items ++ [value])) = select true name (.array items) := by
  rw [select_array, select_array]
  cases other : arrayIndex name with
  | none => rfl
  | some place =>
    have apart : place ≠ items.length := fun same =>
      different (arrayIndex_inj other (same ▸ found))
    simp only [Option.bind_some]
    rcases Nat.lt_or_gt_of_ne apart with below | above
    · exact List.getElem?_append_left below
    · rw [List.getElem?_eq_none (by simpa using above), List.getElem?_eq_none above.le]

theorem select_replaceMember {old : Value}
    (present : (Value.object members).get key = some old) (value : Value) (pointer : Bool) :
    select pointer key (.object (replaceMember key value members)) = some value := by
  rw [select_object, get_replaceMember present, if_pos rfl]

section Writing

attribute [local simp] setSegments

variable (reference : Text) (value : Value) (append : Bool)

theorem select_setItem {segment : Segment} (schema : Option Value) (items : List Value)
    {name : String} (different : name ≠ segment.key) :
    select true name (setSegments reference value append [segment] schema (.array items)).1 =
      select true name (.array items) := by
  rw [setSegments]
  cases found : arrayIndex segment.key with
  | none => rfl
  | some index =>
    dsimp only
    split_ifs with inside appends
    · exact select_set found different items value
    · have last : index = items.length := by
        simp only [Bool.and_eq_true, beq_iff_eq] at appends
        exact appends.2
      exact select_append (last ▸ found) different value
    · rfl

/-- The value that a write through an object goes on with. -/
def childOf (members : List (String × Value)) (schema : Option Value) (key : String) : Value :=
  (withContainer members key (newContainer (schemaProperty schema key))).2

theorem setSegments_of_not_container {current : Value} (scalar : isContainer current = false)
    (segment : Segment) (remaining : List Segment) (schema : Option Value) :
    setSegments reference value append (segment :: remaining) schema current =
      (current, .error (.nonObject reference)) := by
  cases current with
  | object | array => cases scalar
  | _ => cases remaining <;> rfl

/-- A write through an object changes the member of its first key, which is created if it is
missing. -/
theorem select_setMember (segment next : Segment) (remaining : List Segment)
    (schema : Option Value) (members : List (String × Value)) (pointer : Bool) (name : String) :
    select pointer name (setSegments reference value append (segment :: next :: remaining) schema
        (.object members)).1 =
      if name = segment.key then
        some (setSegments reference value append (next :: remaining)
          (schemaProperty schema segment.key) (childOf members schema segment.key)).1
      else (Value.object members).get name := by
  have created := get_withContainer members segment.key
    (newContainer (schemaProperty schema segment.key))
  have present := created segment.key
  rw [if_pos rfl] at present
  rw [setSegments]
  dsimp only
  split_ifs with container same same
  · subst same
    rw [select_replaceMember present]
    rfl
  · rw [select_object, get_replaceMember present, if_neg same, created, if_neg same]
  · subst same
    rw [select_object, present, childOf,
      setSegments_of_not_container _ _ _ (by simpa using container)]
  · rw [select_object, created, if_neg same]

/-- Setting behind an element of an array changes that element only. -/
theorem select_setElement (segment next : Segment) (remaining : List Segment)
    (schema : Option Value) (items : List Value) (name : String) :
    select true name (setSegments reference value append (segment :: next :: remaining) schema
        (.array items)).1 =
      if name = segment.key then (select true segment.key (.array items)).map fun child =>
          (setSegments reference value append (next :: remaining) (schemaItems schema) child).1
      else select true name (.array items) := by
  rw [setSegments]
  cases found : arrayIndex segment.key with
  | none =>
    split_ifs with same
    · simp [select_array, same, found]
    · rfl
  | some index =>
    dsimp only
    cases item : items[index]? with
    | none =>
      split_ifs with same
      · simp [select_array, same, found, item]
      · rfl
    | some child =>
      dsimp only
      split_ifs with same
      · obtain ⟨inside, rfl⟩ := List.getElem?_eq_some_iff.mp item
        simp [select_array, same, found, inside]
      · exact select_set found same items _

variable {segments : List Segment}

/-- An assignment leaves alone what lies at a path that parts from its own. -/
theorem locate_setSegments {other : List String}
    (apart : Apart (segments.map Segment.key) other) (schema : Option Value) (current : Value) :
    locate other (setSegments reference value append segments schema current).1 =
      locate other current := by
  induction segments generalizing other schema current with
  | nil => rfl
  | cons segment remaining ih =>
    obtain ⟨_, _, key, rest, same, rfl, apart⟩ := apart.cases
    cases same
    cases remaining with
    | nil =>
      have different : key ≠ segment.key :=
        apart.resolve_right fun nothing => nothing.1 List.nil_prefix
      refine locate_congr ?_ rest
      cases current with
      | object members => simp [setSegments, select_object, get_assign, different]
      | array items => exact select_setItem reference value append schema items different
      | _ => rfl
    | cons next remaining =>
      cases current with
      | object members =>
        rw [locate, locate, select_setMember]
        split_ifs with same
        · have within := apart.resolve_left fun different => different same
          rw [Option.bind_some, ih within, select_object, same, childOf, withContainer]
          cases found : (Value.object members).get segment.key with
          | some child => rfl
          | none =>
            -- below a new container there is nothing, and there was nothing before
            obtain ⟨_, _, later, others, -, rfl, -⟩ := within.cases
            rw [locate, select_newContainer]
            rfl
        · rfl
      | array items =>
        rw [locate, locate, select_setElement]
        split_ifs with same
        · have within := apart.resolve_left fun different => different same
          rw [same]
          cases select true segment.key (.array items) with
          | none => rfl
          | some child => exact ih within _ child
        · rfl
      | _ => rfl

/-- The value at the end of some segments without array selectors. -/
def fetch (pointer : Bool) : List Segment → Value → Option Value
  | [], current => some current
  | segment :: rest, current => (select pointer segment.key current).bind (fetch pointer rest)

/-- What was assigned is read back. -/
theorem fetch_setSegments {pointer : Bool}
    (named : pointer = true ∨ ∀ segment ∈ segments, arrayIndex segment.key = none)
    {schema : Option Value} {current : Value}
    (written : (setSegments reference value append segments schema current).2 = .ok ()) :
    fetch pointer segments (setSegments reference value append segments schema current).1 =
      some value := by
  induction segments generalizing schema current with
  | nil => cases written
  | cons segment remaining ih =>
    have rest : pointer = true ∨ ∀ segment ∈ remaining, arrayIndex segment.key = none :=
      named.imp_right fun each one member => each one (List.mem_cons_of_mem _ member)
    cases current with
    | object members =>
      cases remaining with
      | nil => simp [fetch, setSegments, select_object, get_assign]
      | cons next remaining =>
        have below : (setSegments reference value append (next :: remaining)
            (schemaProperty schema segment.key) (childOf members schema segment.key)).2 =
            .ok () := by
          rw [setSegments] at written
          dsimp only at written
          split_ifs at written
          exact written
        rw [fetch, select_setMember, if_pos rfl]
        exact ih rest below
    | array items =>
      cases found : arrayIndex segment.key with
      | none => cases remaining <;> simp [setSegments, found] at written
      | some index =>
        have isPointer : pointer = true := named.resolve_right fun each => by
          rw [each segment List.mem_cons_self] at found
          cases found
        subst isPointer
        cases remaining with
        | nil =>
          simp only [setSegments, found] at written ⊢
          split_ifs at written ⊢ with inside appends
          · simp [fetch, select_array, found, inside]
          · simp only [Bool.and_eq_true, beq_iff_eq] at appends
            simp [fetch, select_array, found, appends.2]
        | cons next remaining =>
          rw [fetch, select_setElement, if_pos rfl]
          cases item : items[index]? with
          | none => simp [setSegments, found, item] at written
          | some child =>
            simp only [setSegments, found, item] at written
            simp only [select_array, found, item, Option.bind_some, Option.map_some]
            exact ih rest written
    | _ => cases remaining <;> cases written

end Writing

/-- The keys behind a new container can be written. -/
def Fillable (append : Bool) : List Segment → Option Value → Prop
  | [], _ => True
  | [segment], schema => isArraySchema schema = true → segment.key = "0" ∧ append = true
  | segment :: next :: remaining, schema =>
    isArraySchema schema = false ∧
      Fillable append (next :: remaining) (schemaProperty schema segment.key)

/-- A write that has to create a container can write what is behind it: no array is created on the
path, but for one that the last key `0` appends to. -/
def Creates (append : Bool) : List Segment → Option Value → Value → Prop
  | segment :: next :: remaining, schema, .object members =>
    match (Value.object members).get segment.key with
    | none => Fillable append (next :: remaining) (schemaProperty schema segment.key)
    | some child => Creates append (next :: remaining) (schemaProperty schema segment.key) child
  | segment :: next :: remaining, schema, .array items =>
    match (arrayIndex segment.key).bind fun index => items[index]? with
    | none => True
    | some child => Creates append (next :: remaining) (schemaItems schema) child
  | _, _, _ => True

section Failing

variable (reference : Text) (value : Value) (append : Bool)

theorem isContainer_newContainer (schema : Option Value) :
    isContainer (newContainer schema) = true := by
  unfold newContainer
  split_ifs <;> rfl

variable {schema : Option Value} {remaining : List Segment}

theorem setMember_result {segment next : Segment} {members : List (String × Value)}
    (container : isContainer (childOf members schema segment.key) = true) :
    (setSegments reference value append (segment :: next :: remaining) schema (.object members)).2 =
      (setSegments reference value append (next :: remaining) (schemaProperty schema segment.key)
        (childOf members schema segment.key)).2 := by
  unfold childOf at container ⊢
  rw [setSegments]
  dsimp only
  rw [if_pos container]

theorem setSegments_newContainer_iff {segment : Segment} :
    (setSegments reference value append (segment :: remaining) schema (newContainer schema)).2 =
        .ok () ↔ Fillable append (segment :: remaining) schema := by
  induction remaining generalizing segment schema with
  | nil =>
    rw [Fillable, newContainer]
    by_cases array : isArraySchema schema = true
    · rw [if_pos array, setSegments, ← arrayIndex_eq_zero_iff]
      cases found : arrayIndex segment.key with
      | none => simp [array]
      | some index =>
        by_cases appends : append = true ∧ index = 0
        · simp [appends.1, appends.2]
        · have refused : (append && index == 0) = false := by
            simpa [imp_iff_not_or] using appends
          simp only [List.length_nil, Nat.not_lt_zero, if_false, refused, Bool.false_eq_true,
            reduceCtorEq, false_iff, array, true_imp_iff, Option.some.injEq]
          exact fun both => appends both.symm
    · rw [if_neg array]
      exact ⟨fun _ same => absurd same array, fun _ => rfl⟩
  | cons next remaining ih =>
    rw [Fillable]
    by_cases array : isArraySchema schema = true
    · rw [newContainer, if_pos array, setSegments, array]
      cases found : arrayIndex segment.key <;> simp
    · have empty : newContainer schema = .object [] := if_neg array
      have child : childOf [] schema segment.key =
        newContainer (schemaProperty schema segment.key) := rfl
      rw [empty, setMember_result _ _ _ (child ▸ isContainer_newContainer _), child, ih]
      simp [array]

variable {segments : List Segment} {current : Value}

/-- A write that fails leaves everything alone, if it can write what is behind the containers that
it creates. -/
theorem setSegments_of_creates
    (creates : Creates append segments schema current) {error : ReferenceError}
    (failed : (setSegments reference value append segments schema current).2 = .error error) :
    (setSegments reference value append segments schema current).1 = current := by
  induction segments generalizing schema current with
  | nil => rfl
  | cons segment remaining ih =>
    cases remaining with
    | nil =>
      cases current with
      | object members => cases failed
      | array items =>
        simp only [setSegments] at failed ⊢
        cases found : arrayIndex segment.key with
        | none => rfl
        | some index =>
          simp only [found] at failed ⊢
          split_ifs at failed ⊢
          rfl
      | _ => rfl
    | cons next remaining =>
      cases current with
      | object members =>
        rw [Creates] at creates
        cases found : (Value.object members).get segment.key with
        | none =>
          have child : childOf members schema segment.key =
              newContainer (schemaProperty schema segment.key) := by
            rw [childOf, withContainer, found]
          simp only [found] at creates
          rw [setMember_result _ _ _ (child ▸ isContainer_newContainer _), child,
            (setSegments_newContainer_iff reference value append).mpr creates] at failed
          cases failed
        | some child =>
          simp only [found] at creates
          have same : withContainer members segment.key
              (newContainer (schemaProperty schema segment.key)) = (members, child) := by
            rw [withContainer, found]
          rw [setSegments] at failed ⊢
          simp only [same] at failed ⊢
          split_ifs at failed ⊢ with container
          · rw [ih creates failed, replaceMember_self found]
          · rfl
      | array items =>
        rw [Creates] at creates
        simp only [setSegments] at failed ⊢
        cases found : arrayIndex segment.key with
        | none => rfl
        | some index =>
          simp only [found, Option.bind_some] at failed creates ⊢
          cases item : items[index]? with
          | none => rfl
          | some child =>
            simp only [item] at failed creates ⊢
            obtain ⟨inside, rfl⟩ := List.getElem?_eq_some_iff.mp item
            rw [ih creates failed, List.set_getElem_self]
      | _ => rfl

theorem exists_error_of_ne {result : Except ReferenceError Unit} (fails : result ≠ .ok ()) :
    ∃ error, result = .error error := by
  cases result with
  | ok => exact absurd rfl fails
  | error error => exact ⟨error, rfl⟩

theorem isContainer_of_not_creates {append : Bool}
    (creates : ¬Creates append segments schema current) :
    isContainer current = true := by
  cases current with
  | object | array => rfl
  | _ => exact absurd (by rcases segments with - | ⟨_, - | ⟨_, _⟩⟩ <;> trivial) creates

/-- A write that cannot write what is behind a container that it creates fails, and the container
stays. -/
theorem setSegments_of_not_creates (creates : ¬Creates append segments schema current) :
    (∃ error, (setSegments reference value append segments schema current).2 = .error error) ∧
      (setSegments reference value append segments schema current).1 ≠ current := by
  induction segments generalizing schema current with
  | nil => exact absurd trivial creates
  | cons segment remaining ih =>
    cases remaining with
    | nil => exact absurd (by cases current <;> trivial) creates
    | cons next remaining =>
      cases current with
      | object members =>
        have changed := select_setMember reference value append segment next remaining schema
          members true segment.key
        rw [if_pos rfl] at changed
        rw [Creates] at creates
        cases found : (Value.object members).get segment.key with
        | none =>
          have child : childOf members schema segment.key =
              newContainer (schemaProperty schema segment.key) := by
            rw [childOf, withContainer, found]
          simp only [found] at creates
          rw [setMember_result _ _ _ (child ▸ isContainer_newContainer _), child]
          refine ⟨?_, fun same => ?_⟩
          · exact exists_error_of_ne
              (mt (setSegments_newContainer_iff reference value append).mp creates)
          · rw [same, select_object, found] at changed
            cases changed
        | some child =>
          simp only [found] at creates
          obtain ⟨fails, different⟩ := ih creates
          have same : childOf members schema segment.key = child := by
            rw [childOf, withContainer, found]
          rw [setMember_result _ _ _ (same ▸ isContainer_of_not_creates creates), same]
          refine ⟨fails, fun unchanged => different ?_⟩
          rw [unchanged, select_object, found, same] at changed
          exact (Option.some.inj changed).symm
      | array items =>
        have changed := select_setElement reference value append segment next remaining schema
          items segment.key
        rw [if_pos rfl, select_array] at changed
        rw [Creates] at creates
        cases found : (arrayIndex segment.key).bind fun index => items[index]? with
        | none =>
          rw [found] at creates
          exact absurd trivial creates
        | some child =>
          simp only [found] at creates
          obtain ⟨fails, different⟩ := ih creates
          refine ⟨?_, fun unchanged => different ?_⟩
          · obtain ⟨index, isIndex, item⟩ := Option.bind_eq_some_iff.mp found
            rw [setSegments, isIndex]
            simp only [item]
            exact fails
          · rw [unchanged, select_array, found] at changed
            exact (Option.some.inj changed).symm
      | _ => exact absurd trivial creates

end Failing

end Mdbase.Fields
