import Mdbase.Provider.Change
import Mdbase.Provider.FieldChanges
import Mdbase.Runtime.Members

/-!
# What the changed fields of an object stand for

A pointer names a path of keys. The changed fields of two objects are the paths at which one of
them has no object, or both have different values, below objects in both. Writing the new values
at these paths makes the first object the second.
-/

namespace Mdbase.Provider

open Mdbase.Runtime (Value Sorted assign sorted_assign get_assign mem_iff_get eq_of_get_eq)

/-- `valid_pointer`. -/
def validPointer : List Char → Bool
  | [] => true
  | '~' :: '0' :: rest => validPointer rest
  | '~' :: '1' :: rest => validPointer rest
  | '~' :: _ => false
  | _ :: rest => validPointer rest

/-- `CanonicalFieldChangeSet::new`. -/
def fieldChangeSet (pointers : List String) : Except ProviderError (List String) :=
  match (canonicalFields pointers).find? fun pointer =>
      pointer.toList.head? ≠ some '/' ||
        (pointer.toList.contains '~' && !validPointer pointer.toList) with
  | some pointer =>
    .error (.invalidChangeSet ("'" ++ pointer ++ "' is not a canonical JSON Pointer"))
  | none => .ok (canonicalFields pointers)

/-- `canonical_field_changes`. -/
def canonicalFieldChanges (before after : List (String × Value)) :
    Except ProviderError (List String) :=
  fieldChangeSet (changedFields (.object before) (some (.object after)) "")

/-- The pointer of a path of keys. -/
def pointerOf (path : List String) : String := path.foldl childPointer ""

/-- The text of a key in a pointer. -/
def unescapePointer : List Char → List Char
  | '~' :: '0' :: rest => '~' :: unescapePointer rest
  | '~' :: '1' :: rest => '/' :: unescapePointer rest
  | character :: rest => character :: unescapePointer rest
  | [] => []

/-- The keys that a pointer names. -/
def pointerKeys (pointer : String) : List String :=
  ((pointer.toList.splitOn '/').drop 1).map fun key => String.ofList (unescapePointer key)

/-- The escaped text of a key. -/
def escaped (key : List Char) : List Char :=
  key.flatMap fun character =>
    if character = '~' then ['~', '0']
    else if character = '/' then ['~', '1']
    else [character]

@[simp] theorem escaped_nil : escaped [] = [] := rfl

theorem escaped_cons (first : Char) (rest : List Char) :
    (first = '~' ∧ escaped (first :: rest) = '~' :: '0' :: escaped rest) ∨
      (first = '/' ∧ escaped (first :: rest) = '~' :: '1' :: escaped rest) ∨
      first ≠ '~' ∧ first ≠ '/' ∧ escaped (first :: rest) = first :: escaped rest := by
  unfold escaped
  rw [List.flatMap_cons]
  split_ifs with tilde slash
  · exact .inl ⟨tilde, rfl⟩
  · exact .inr (.inl ⟨slash, rfl⟩)
  · exact .inr (.inr ⟨tilde, slash, rfl⟩)

theorem unescapePointer_cons {first : Char} (plain : first ≠ '~') (rest : List Char) :
    unescapePointer (first :: rest) = first :: unescapePointer rest := by
  rw [unescapePointer]
  · exact fun _ same => absurd same plain
  · exact fun _ same => absurd same plain

theorem unescapePointer_escaped (key : List Char) : unescapePointer (escaped key) = key := by
  induction key with
  | nil => rfl
  | cons first rest ih =>
    rcases escaped_cons first rest with ⟨rfl, same⟩ | ⟨rfl, same⟩ | ⟨plain, -, same⟩
    · rw [same, unescapePointer, ih]
    · rw [same, unescapePointer, ih]
    · rw [same, unescapePointer_cons plain, ih]

theorem slash_notMem_escaped (key : List Char) : '/' ∉ escaped key := by
  intro member
  obtain ⟨character, -, here⟩ := List.mem_flatMap.mp member
  split_ifs at here with tilde slash
  · simp at here
  · simp at here
  · exact slash (List.mem_singleton.mp here).symm

theorem validPointer_cons {first : Char} (plain : first ≠ '~') (rest : List Char) :
    validPointer (first :: rest) = validPointer rest := by
  rw [validPointer]
  · exact fun _ same => absurd same plain
  · exact fun _ same => absurd same plain
  · exact plain

theorem validPointer_escaped_append (key rest : List Char) :
    validPointer (escaped key ++ rest) = validPointer rest := by
  induction key with
  | nil => rfl
  | cons first keys ih =>
    rcases escaped_cons first keys with ⟨rfl, same⟩ | ⟨rfl, same⟩ | ⟨plain, -, same⟩
    · rw [same, List.cons_append, List.cons_append, validPointer, ih]
    · rw [same, List.cons_append, List.cons_append, validPointer, ih]
    · rw [same, List.cons_append, validPointer_cons plain, ih]

theorem toList_childPointer (parent key : String) :
    (childPointer parent key).toList = parent.toList ++ '/' :: escaped key.toList := by
  simp [childPointer, escapePointer, escaped]

theorem toList_foldl_childPointer (path : List String) (parent : String) :
    (path.foldl childPointer parent).toList =
      parent.toList ++ path.flatMap fun key => '/' :: escaped key.toList := by
  induction path generalizing parent with
  | nil => simp
  | cons key path ih =>
    rw [List.foldl_cons, ih, toList_childPointer, List.flatMap_cons, List.append_assoc]

theorem childPointer_ne_empty (parent key : String) : childPointer parent key ≠ "" := by
  intro empty
  have text := toList_childPointer parent key
  rw [empty] at text
  simp at text

theorem pointerKeys_pointerOf (path : List String) : pointerKeys (pointerOf path) = path := by
  have text : (pointerOf path).toList =
      ['/'].intercalate ([] :: path.map fun key => escaped key.toList) := by
    rw [pointerOf, toList_foldl_childPointer]
    induction path with
    | nil => rfl
    | cons key path ih =>
      cases path with
      | nil => simp [List.intercalate]
      | cons other path =>
        rw [List.flatMap_cons] at *
        simp_all [List.intercalate]
  have parts : (pointerOf path).toList.splitOn '/' =
      [] :: path.map fun key => escaped key.toList := by
    rw [text, List.splitOn_intercalate]
    · intro part member
      rcases List.mem_cons.mp member with rfl | member
      · exact List.not_mem_nil
      · obtain ⟨key, -, rfl⟩ := List.mem_map.mp member
        exact slash_notMem_escaped _
    · exact List.cons_ne_nil _ _
  rw [pointerKeys, parts, List.drop_one, List.tail_cons, List.map_map]
  refine (List.map_congr_left fun key _ => ?_).trans (List.map_id _)
  simp [unescapePointer_escaped]

theorem validPointer_pointerOf (path : List String) :
    validPointer (pointerOf path).toList = true := by
  rw [pointerOf, toList_foldl_childPointer, String.toList_empty, List.nil_append]
  induction path with
  | nil => rfl
  | cons key path ih =>
    rw [List.flatMap_cons, List.cons_append]
    exact (validPointer_escaped_append _ _).trans ih

/-- The value at a path of keys. -/
def valueAt : List String → Option Value → Option Value
  | [], value => value
  | key :: path, value => valueAt path (value.bind fun value => value.get key)

/-- Write a value at a path of keys, or delete what is there. There is no place for it below what
is not an object. -/
def writeAt (new : Option Value) : List String → Option Value → Option Value
  | [], _ => new
  | key :: path, some (.object members) =>
    some (.object (assign members key (writeAt new path ((Value.object members).get key))))
  | _ :: _, value => value

/-- The value is there and is an object. -/
def IsObject (value : Option Value) : Prop := ∃ members, value = some (.object members)

/-- The values at the path are not both objects and differ, below objects on both sides. -/
def ChangedAt : List String → Option Value → Option Value → Prop
  | [], before, after => before ≠ after ∧ ¬(IsObject before ∧ IsObject after)
  | key :: path, before, after => (IsObject before ∧ IsObject after) ∧
      ChangedAt path (before.bind fun value => value.get key)
        (after.bind fun value => value.get key)

variable {before after : Option Value} {path : List String}

theorem changedAt_comm : ChangedAt path before after ↔ ChangedAt path after before := by
  induction path generalizing before after with
  | nil => exact and_congr ne_comm (not_congr and_comm)
  | cons key path ih => exact and_congr and_comm ih

theorem ChangedAt.differ
    (changed : ChangedAt path before after) : valueAt path before ≠ valueAt path after := by
  induction path generalizing before after with
  | nil => exact changed.1
  | cons key path ih => exact ih changed.2

variable {path other : List String}

theorem ChangedAt.eq_of_prefix (changed : ChangedAt path before after)
    (further : ChangedAt other before after) (through : path <+: other) : path = other := by
  induction path generalizing other before after with
  | nil =>
    cases other with
    | nil => rfl
    | cons key other => exact absurd further.1 changed.2
  | cons key path ih =>
    cases other with
    | nil => exact absurd changed.1 further.2
    | cons head other =>
      obtain ⟨rfl, below⟩ := List.cons_prefix_cons.mp through
      rw [ih changed.2 further.2 below]

variable {key : String}

theorem not_changedAt_none {after : Option Value} : ¬ChangedAt (key :: path) none after := by
  rintro ⟨⟨⟨members, same⟩, -⟩, -⟩
  cases same

theorem not_changedAt_self {value : Option Value} : ¬ChangedAt path value value := by
  induction path generalizing value with
  | nil => exact fun changed => changed.1 rfl
  | cons key path ih => exact fun changed => ih changed.2

theorem changedFields_of_objects (members others : List (String × Value)) (pointer : String) :
    changedFields (.object members) (some (.object others)) pointer =
      changedMembers members others pointer ++
        (others.filter fun other => members.all fun member => member.1 ≠ other.1).map
          fun other => childPointer pointer other.1 := by
  rw [changedFields]

variable {pointer : String} {value : Value}

theorem changedFields_of_not_objects {other : Option Value}
    (whole : ¬(IsObject (some value) ∧ IsObject other)) (named : pointer ≠ "") :
    changedFields value other pointer = if other = some value then [] else [pointer] := by
  rw [changedFields]
  · simp [named]
  · rintro members others rfl rfl
    exact whole ⟨⟨members, rfl⟩, ⟨others, rfl⟩⟩

variable {members : List (String × Value)}

theorem get_eq_none_iff :
    (Value.object members).get key = none ↔ ∀ member ∈ members, member.1 ≠ key := by
  simp [Value.get]

variable {pointer field : String}

/-- The changed members of two objects, and the members of the second alone, are the changed paths
of the objects. -/
theorem mem_objectChanges {members others : List (String × Value)}
    (both : IsObject (some (.object members)) ∧ IsObject (some (.object others)))
    (sorted : Sorted members) :
    (∃ member ∈ members, ∃ path,
        ChangedAt path (some member.2) ((Value.object others).get member.1) ∧
          field = path.foldl childPointer (childPointer pointer member.1)) ∨
      field ∈ ((others.filter fun other => members.all fun member => member.1 ≠ other.1).map
        fun other => childPointer pointer other.1) ↔
      ∃ path, ChangedAt path (some (.object members)) (some (.object others)) ∧
        field = path.foldl childPointer pointer := by
  constructor
  · rintro (⟨member, here, path, changed, rfl⟩ | added)
    · refine ⟨member.1 :: path, ⟨both, ?_⟩, rfl⟩
      rwa [Option.bind_some, Option.bind_some, (mem_iff_get sorted).mp here]
    · obtain ⟨other, here, rfl⟩ := List.mem_map.mp added
      obtain ⟨here, alone⟩ := List.mem_filter.mp here
      have absent : (Value.object members).get other.1 = none :=
        get_eq_none_iff.mpr (by simpa using alone)
      refine ⟨[other.1], ⟨both, ?_, ?_⟩, rfl⟩
      · rw [Option.bind_some, Option.bind_some, absent]
        exact fun none => get_eq_none_iff.mp none.symm other here rfl
      · rw [Option.bind_some, absent]
        rintro ⟨⟨_, ⟨⟩⟩, -⟩
  · rintro ⟨path, changed, rfl⟩
    cases path with
    | nil => exact absurd both changed.2
    | cons key path =>
      have below := changed.2
      rw [Option.bind_some, Option.bind_some] at below
      cases found : (Value.object members).get key with
      | some value =>
        rw [found] at below
        exact .inl ⟨(key, value), (mem_iff_get sorted).mpr found, path, below, rfl⟩
      | none =>
        rw [found] at below
        cases path with
        | cons head path => exact absurd below not_changedAt_none
        | nil =>
          have there : ∃ other ∈ others, other.1 = key := by
            by_contra absent
            refine below.1 (get_eq_none_iff.mpr fun other here same => ?_).symm
            exact absent ⟨other, here, same⟩
          obtain ⟨other, here, rfl⟩ := there
          refine .inr (List.mem_map.mpr ⟨other, List.mem_filter.mpr ⟨here, ?_⟩, rfl⟩)
          simpa using get_eq_none_iff.mp found

mutual

theorem mem_changedFields (value : Value) {other : Option Value} {pointer : String}
    (ordered : value.Ordered) (named : pointer ≠ "" ∨ (IsObject (some value) ∧ IsObject other))
    {field : String} :
    field ∈ changedFields value other pointer ↔
      ∃ path, ChangedAt path (some value) other ∧ field = path.foldl childPointer pointer := by
  by_cases both : IsObject (some value) ∧ IsObject other
  · match value, ordered with
    | .object members, .object sorted all =>
      obtain ⟨others, rfl⟩ := both.2
      rw [changedFields_of_objects, List.mem_append, mem_changedMembers members all]
      exact mem_objectChanges both sorted
    | .null, _ | .bool _, _ | .number _, _ | .string _, _ | .array _, _ => obtain ⟨_, ⟨⟩⟩ := both.1
  · rw [changedFields_of_not_objects both (named.resolve_right both)]
    constructor
    · intro member
      split_ifs at member with same
      · cases member
      · exact ⟨[], ⟨Ne.symm same, both⟩, List.mem_singleton.mp member⟩
    · rintro ⟨path, changed, rfl⟩
      cases path with
      | nil => rw [if_neg (Ne.symm changed.1)]; exact List.mem_singleton.mpr rfl
      | cons key path => exact absurd changed.1 both

theorem mem_changedMembers (members : List (String × Value)) {others : List (String × Value)}
    {pointer : String} (ordered : ∀ member ∈ members, member.2.Ordered) {field : String} :
    field ∈ changedMembers members others pointer ↔
      ∃ member ∈ members, ∃ path,
        ChangedAt path (some member.2) ((Value.object others).get member.1) ∧
          field = path.foldl childPointer (childPointer pointer member.1) := by
  match members, ordered with
  | [], _ => simp [changedMembers]
  | (key, value) :: members, ordered =>
    have first := ordered _ List.mem_cons_self
    have rest := fun member here => ordered member (List.mem_cons_of_mem _ here)
    rw [changedMembers, List.mem_append, mem_changedMembers members rest, List.exists_mem_cons_iff]
    exact or_congr (mem_changedFields value first (.inl (childPointer_ne_empty _ _))) Iff.rfl

end

/-- Write the new values at paths, one after the other. -/
def writeAll (after : Option Value) (paths : List (List String)) (before : Option Value) :
    Option Value :=
  paths.foldl (fun value path => writeAt (valueAt path after) path value) before

/-- What is left below a key of the paths through it. -/
def below (key : String) (paths : List (List String)) : List (List String) :=
  paths.filterMap fun path => if path.head? = some key then some path.tail else none

variable {paths : List (List String)}

theorem mem_below : path ∈ below key paths ↔ key :: path ∈ paths := by
  rw [below, List.mem_filterMap]
  constructor
  · rintro ⟨whole, here, found⟩
    split_ifs at found with head
    cases whole with
    | nil => cases head
    | cons first rest =>
      cases head
      cases found
      exact here
  · exact fun here => ⟨_, here, by simp⟩

theorem writeAll_object (after : Option Value) (inner : [] ∉ paths) (sorted : Sorted members) :
    ∃ written, Sorted written ∧
      writeAll after paths (some (.object members)) = some (.object written) ∧
        ∀ key, (Value.object written).get key =
          writeAll (after.bind fun value => value.get key) (below key paths)
            ((Value.object members).get key) := by
  induction paths generalizing members with
  | nil => exact ⟨members, sorted, rfl, fun _ => rfl⟩
  | cons path paths ih =>
    rw [List.mem_cons, not_or] at inner
    cases path with
    | nil => exact absurd rfl inner.1
    | cons first rest =>
      obtain ⟨written, writtenSorted, same, gets⟩ := ih inner.2
        (sorted_assign sorted first
          (writeAt (valueAt (first :: rest) after) rest ((Value.object members).get first)))
      refine ⟨written, writtenSorted, same, fun key => ?_⟩
      rw [gets, get_assign]
      by_cases here : key = first
      · subst here
        simp [below, writeAll, valueAt]
      · simp [below, here, Ne.symm here]

theorem ordered_bind {value : Option Value} (ordered : ∀ found ∈ value, found.Ordered)
    (object : IsObject value) (key : String) :
    ∀ found ∈ value.bind fun value => value.get key, found.Ordered := by
  obtain ⟨members, rfl⟩ := object
  exact fun found here => (ordered _ rfl).get here

theorem sizeOf_get_lt (found : (Value.object members).get key = some value) :
    sizeOf value < sizeOf (Value.object members) := by
  obtain ⟨member, here, rfl⟩ := Option.map_eq_some_iff.mp found
  have smaller := List.sizeOf_lt_of_mem (List.mem_of_find?_eq_some here)
  have part : sizeOf member.2 < sizeOf member := by cases member; simp
  simp only [Value.object.sizeOf_spec]
  omega

theorem writeAll_whole (whole : ¬(IsObject before ∧ IsObject after))
    (exactly : ∀ path, path ∈ paths ↔ ChangedAt path before after) :
    writeAll after paths before = after := by
  have empty : ∀ path ∈ paths, path = [] := by
    intro path here
    cases path with
    | nil => rfl
    | cons key path => exact absurd ((exactly _).mp here).1 whole
  by_cases same : before = after
  · cases paths with
    | nil => exact same
    | cons path paths =>
      exact absurd (same ▸ (exactly path).mp List.mem_cons_self) not_changedAt_self
  · obtain ⟨init, rfl⟩ : ∃ init, paths = init ++ [[]] := by
      have there := (exactly []).mpr ⟨same, whole⟩
      obtain ⟨init, last, rfl⟩ :=
        (List.eq_nil_or_concat' paths).resolve_left (List.ne_nil_of_mem there)
      exact ⟨init, by rw [empty last (by simp)]⟩
    rw [writeAll, List.foldl_append]
    rfl

theorem writeAll_changed {size : Nat} (small : ∀ value ∈ before, sizeOf value < size)
    (beforeOrdered : ∀ value ∈ before, value.Ordered)
    (afterOrdered : ∀ value ∈ after, value.Ordered)
    (exactly : ∀ path, path ∈ paths ↔ ChangedAt path before after) :
    writeAll after paths before = after := by
  by_cases both : IsObject before ∧ IsObject after
  · induction size generalizing before after paths with
    | zero =>
      obtain ⟨members, rfl⟩ := both.1
      exact absurd (small _ rfl) (Nat.not_lt_zero _)
    | succ size ih =>
      have beforeBelow := ordered_bind beforeOrdered both.1
      have afterBelow := ordered_bind afterOrdered both.2
      obtain ⟨⟨members, rfl⟩, ⟨others, rfl⟩⟩ := both
      have inner : [] ∉ paths := fun here => ((exactly _).mp here).2 ⟨⟨_, rfl⟩, ⟨_, rfl⟩⟩
      obtain ⟨written, writtenSorted, same, gets⟩ :=
        writeAll_object (some (.object others)) inner (beforeOrdered _ rfl).sorted
      rw [same, eq_of_get_eq writtenSorted (afterOrdered _ rfl).sorted fun key => ?_]
      have exactlyBelow : ∀ path, path ∈ below key paths ↔
          ChangedAt path ((Value.object members).get key) ((Value.object others).get key) :=
        fun path => mem_below.trans ((exactly _).trans
          (and_iff_right ⟨⟨_, rfl⟩, ⟨_, rfl⟩⟩))
      rw [gets, Option.bind_some]
      by_cases bothBelow : IsObject ((Value.object members).get key) ∧
          IsObject ((Value.object others).get key)
      · refine ih (fun value found => ?_) (beforeBelow key) (afterBelow key) exactlyBelow
          bothBelow
        have smaller := sizeOf_get_lt found
        have bound := small _ rfl
        omega
      · exact writeAll_whole bothBelow exactlyBelow
  · exact writeAll_whole both exactly

/-- The pointers tell how two objects differ: writing the new values at them makes the first the
second, none is on the way to another, and each has different values. -/
structure ExactPointers (before after : List (String × Value)) (pointers : List String) : Prop where
  restores : ∀ order : List String, order.Perm pointers →
    order.foldl (fun value pointer =>
        writeAt (valueAt (pointerKeys pointer) (some (.object after))) (pointerKeys pointer) value)
      (some (.object before)) = some (.object after)
  incomparable : ∀ pointer ∈ pointers, ∀ other ∈ pointers,
    pointerKeys pointer <+: pointerKeys other → pointer = other
  differ : ∀ pointer ∈ pointers,
    valueAt (pointerKeys pointer) (some (.object before)) ≠
      valueAt (pointerKeys pointer) (some (.object after))
  empty_iff : pointers = [] ↔ before = after

variable {pointers : List String}

theorem mem_canonicalFields : pointer ∈ canonicalFields pointers ↔ pointer ∈ pointers := by
  rw [canonicalFields, List.mem_insertionSort, List.mem_dedup]

theorem canonicalFields_congr {pointers others : List String}
    (same : ∀ pointer, pointer ∈ pointers ↔ pointer ∈ others) :
    canonicalFields pointers = canonicalFields others := by
  have perm : pointers.dedup.Perm others.dedup :=
    (List.perm_ext_iff_of_nodup (List.nodup_dedup _) (List.nodup_dedup _)).mpr fun pointer => by
      rw [List.mem_dedup, List.mem_dedup, same]
  exact List.Perm.eq_of_pairwise' (List.pairwise_insertionSort _ _)
    (List.pairwise_insertionSort _ _) ((List.perm_insertionSort _ _).trans
      (perm.trans (List.perm_insertionSort _ _).symm))

theorem isObject_object (members : List (String × Value)) : IsObject (some (.object members)) :=
  ⟨members, rfl⟩

variable {before after : List (String × Value)}

theorem mem_changedFields_object (ordered : (Value.object before).Ordered) :
    pointer ∈ changedFields (.object before) (some (.object after)) "" ↔
      ∃ path, ChangedAt path (some (.object before)) (some (.object after)) ∧
        pointer = pointerOf path :=
  mem_changedFields _ ordered (.inr ⟨isObject_object _, isObject_object _⟩)

/-- The text is a pointer to something below the root. -/
def IsPointer (text : String) : Prop := ∃ key path, text = pointerOf (key :: path)

theorem isPointer_childPointer (place : pointer = "" ∨ IsPointer pointer)
    (key : String) : IsPointer (childPointer pointer key) := by
  rcases place with rfl | ⟨first, path, rfl⟩
  · exact ⟨key, [], rfl⟩
  · exact ⟨first, path ++ [key], by simp [pointerOf]⟩

mutual

theorem isPointer_of_visible (value : Value) {pointer field : String}
    (place : pointer = "" ∨ IsPointer pointer) (member : field ∈ visibleFields value pointer) :
    IsPointer field := by
  match value with
  | .object (first :: members) =>
    rw [visibleFields] at member
    exact isPointer_of_visibleMembers (first :: members) place member
  | .object [] | .null | .bool _ | .number _ | .string _ | .array _ =>
    unfold visibleFields at member
    split_ifs at member with empty
    · cases member
    · exact List.mem_singleton.mp member ▸ place.resolve_left (by simpa using empty)

theorem isPointer_of_visibleMembers (members : List (String × Value)) {pointer field : String}
    (place : pointer = "" ∨ IsPointer pointer) (member : field ∈ visibleMembers members pointer) :
    IsPointer field := by
  match members with
  | [] => cases member
  | (key, value) :: members =>
      rw [visibleMembers, List.mem_append] at member
      rcases member with here | later
      · exact isPointer_of_visible value (.inr (isPointer_childPointer place key)) here
      · exact isPointer_of_visibleMembers members place later

end

theorem isPointer_of_whole {other : Option Value} (place : pointer = "" ∨ IsPointer pointer)
    (member : field ∈ if other = some value then []
      else if pointer.isEmpty then visibleFields (other.getD value) pointer else [pointer]) :
    IsPointer field := by
  split_ifs at member with same empty
  · cases member
  · exact isPointer_of_visible _ place member
  · exact List.mem_singleton.mp member ▸ place.resolve_left (by simpa using empty)

mutual

theorem isPointer_of_changed (value : Value) {other : Option Value} {pointer field : String}
    (place : pointer = "" ∨ IsPointer pointer)
    (member : field ∈ changedFields value other pointer) : IsPointer field := by
  match value, other with
  | .object members, some (.object others) =>
    rw [changedFields, List.mem_append, List.mem_map] at member
    rcases member with changed | ⟨added, -, rfl⟩
    · exact isPointer_of_changedMembers members place changed
    · exact isPointer_childPointer place _
  | .object _, none | .object _, some .null | .object _, some (.bool _)
  | .object _, some (.number _) | .object _, some (.string _) | .object _, some (.array _)
  | .null, _ | .bool _, _ | .number _, _ | .string _, _ | .array _, _ =>
    exact isPointer_of_whole place (by simpa only [changedFields] using member)

theorem isPointer_of_changedMembers (members : List (String × Value))
    {others : List (String × Value)} {pointer field : String}
    (place : pointer = "" ∨ IsPointer pointer)
    (member : field ∈ changedMembers members others pointer) : IsPointer field := by
  match members with
  | [] => cases member
  | (key, value) :: members =>
      rw [changedMembers, List.mem_append] at member
      rcases member with here | later
      · exact isPointer_of_changed value (.inr (isPointer_childPointer place key)) here
      · exact isPointer_of_changedMembers members place later

end

theorem fieldChangeSet_eq (all : ∀ pointer ∈ pointers, IsPointer pointer) :
    fieldChangeSet pointers = .ok (canonicalFields pointers) := by
  have passes : (canonicalFields pointers).find? (fun pointer =>
      pointer.toList.head? ≠ some '/' ||
        (pointer.toList.contains '~' && !validPointer pointer.toList)) = none := by
    refine List.find?_eq_none.mpr fun pointer here => ?_
    obtain ⟨key, path, rfl⟩ := all pointer (mem_canonicalFields.mp here)
    have slash : (pointerOf (key :: path)).toList.head? = some '/' := by
      rw [pointerOf, toList_foldl_childPointer]
      rfl
    simp [slash, validPointer_pointerOf]
  rw [fieldChangeSet, passes]

theorem canonicalFieldChanges_eq (before after : List (String × Value)) :
    canonicalFieldChanges before after =
      .ok (canonicalFields (changedFields (.object before) (some (.object after)) "")) :=
  fieldChangeSet_eq fun _ member => isPointer_of_changed _ (.inl rfl) member

theorem pointerOf_injective (same : pointerOf path = pointerOf other) : path = other := by
  rw [← pointerKeys_pointerOf path, same, pointerKeys_pointerOf]

/-- Pointers to exactly the changed members are exact. -/
theorem exactPointers_of_changed
    (beforeOrdered : (Value.object before).Ordered) (afterOrdered : (Value.object after).Ordered)
    (exactly : ∀ pointer, pointer ∈ pointers ↔
      ∃ path, ChangedAt path (some (.object before)) (some (.object after)) ∧
        pointer = pointerOf path) :
    ExactPointers before after pointers := by
  have keys : ∀ order : List String, order.Perm pointers → ∀ path,
      path ∈ order.map pointerKeys ↔
        ChangedAt path (some (.object before)) (some (.object after)) := by
    intro order perm path
    rw [List.mem_map]
    constructor
    · rintro ⟨pointer, here, rfl⟩
      obtain ⟨path, changed, rfl⟩ := (exactly pointer).mp (perm.mem_iff.mp here)
      rwa [pointerKeys_pointerOf]
    · exact fun changed => ⟨_, perm.mem_iff.mpr ((exactly _).mpr ⟨path, changed, rfl⟩),
        pointerKeys_pointerOf path⟩
  have restores : ∀ order : List String, order.Perm pointers →
      order.foldl (fun value pointer =>
          writeAt (valueAt (pointerKeys pointer) (some (.object after))) (pointerKeys pointer)
            value)
        (some (.object before)) = some (.object after) := by
    intro order perm
    rw [← List.foldl_map (f := pointerKeys)
      (g := fun value path => writeAt (valueAt path (some (.object after))) path value)]
    exact writeAll_changed (fun value same => Nat.lt_succ_of_le (le_of_eq (by cases same; rfl)))
      (by rintro _ ⟨⟩; exact beforeOrdered) (by rintro _ ⟨⟩; exact afterOrdered) (keys order perm)
  refine ⟨restores, ?_, ?_, fun empty => ?_, ?_⟩
  · intro pointer here other there through
    obtain ⟨path, changed, rfl⟩ := (exactly pointer).mp here
    obtain ⟨further, alsoChanged, rfl⟩ := (exactly other).mp there
    rw [pointerKeys_pointerOf, pointerKeys_pointerOf] at through
    rw [changed.eq_of_prefix alsoChanged through]
  · intro pointer here
    obtain ⟨path, changed, rfl⟩ := (exactly pointer).mp here
    rw [pointerKeys_pointerOf]
    exact changed.differ
  · have unchanged := restores [] (empty ▸ List.Perm.refl _)
    exact Value.object.inj (Option.some.inj unchanged)
  · rintro rfl
    refine List.eq_nil_iff_forall_not_mem.mpr fun pointer here => ?_
    obtain ⟨path, changed, -⟩ := (exactly pointer).mp here
    exact not_changedAt_self changed

/-- The changed fields of two objects are found, are the same the other way around, and tell how the
objects differ; and distinct paths of keys have distinct pointers. -/
theorem canonicalFieldChanges_exact {before after : List (String × Value)}
    (beforeOrdered : (Value.object before).Ordered) (afterOrdered : (Value.object after).Ordered) :
    (∃ pointers, canonicalFieldChanges before after = .ok pointers ∧
      canonicalFieldChanges after before = .ok pointers ∧ ExactPointers before after pointers) ∧
    ∀ path other, pointerOf path = pointerOf other → path = other := by
  refine ⟨⟨_, canonicalFieldChanges_eq _ _, ?_, ?_⟩, fun _ _ => pointerOf_injective⟩
  · rw [canonicalFieldChanges_eq]
    refine congrArg Except.ok (canonicalFields_congr fun pointer => ?_)
    rw [mem_changedFields_object afterOrdered, mem_changedFields_object beforeOrdered]
    exact exists_congr fun path => and_congr_left' changedAt_comm
  · exact exactPointers_of_changed beforeOrdered afterOrdered fun pointer =>
      mem_canonicalFields.trans (mem_changedFields_object beforeOrdered)

/-- A key with a slash, members that appear and vanish, and an object that becomes a boolean. -/
theorem canonicalFieldChanges_sample :
    (∃ pointers,
      canonicalFieldChanges [("a", .object [("x/y", .null)]), ("b", .object [])]
        [("a", .object [("z", .null)]), ("b", .bool true)] = .ok pointers ∧
      canonicalFieldChanges [("a", .object [("z", .null)]), ("b", .bool true)]
        [("a", .object [("x/y", .null)]), ("b", .object [])] = .ok pointers ∧
      ExactPointers [("a", .object [("x/y", .null)]), ("b", .object [])]
        [("a", .object [("z", .null)]), ("b", .bool true)] pointers) ∧
    ∀ path other, pointerOf path = pointerOf other → path = other := by
  have nested : ∀ key, (Value.object [(key, .null)]).Ordered := fun key =>
    .object (List.pairwise_singleton _ _) (by simpa using .null)
  have inOrder : ∀ first second : Value, first.Ordered → second.Ordered →
      (Value.object [("a", first), ("b", second)]).Ordered := fun first second left right =>
    .object (by change ["a", "b"].Pairwise (· < ·); decide) (by simp [left, right])
  exact canonicalFieldChanges_exact (inOrder _ _ (nested _) (.object List.Pairwise.nil (by simp)))
    (inOrder _ _ (nested _) (.bool true))

end Mdbase.Provider
