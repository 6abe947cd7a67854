import Mdbase.Fields.Lens

/-!
# When field references obey the lens laws

Reading from an object and reading from the value are the same, a removed member is gone and nothing
else, and the pointer of a key names this key. Writes obey their laws as well, but for those that
fail behind an array that they have created.
-/

namespace Mdbase.Fields

open Library
open Mdbase.Runtime (Value assign get_assign)
open Mdbase.Provider (validPointer escaped escaped_cons validPointer_escaped_append
  slash_notMem_escaped)

theorem parse_ne_nil (reference : Text) : parse reference ≠ some [] := by
  intro empty
  unfold parse at empty
  split_ifs at empty
  split at empty
  · exact List.splitOn_ne_nil _ _ (List.map_eq_nil_iff.mp (Option.some.inj empty))
  · exact List.splitOn_ne_nil _ _ (List.map_eq_nil_iff.mp (Option.some.inj empty))

theorem arrayIndex_of_isFieldKey {key : Text} (named : isFieldKey key = true) :
    arrayIndex (String.ofList key) = none := by
  cases key with
  | nil => cases named
  | cons first rest =>
    simp only [isFieldKey, Bool.and_eq_true, Bool.or_eq_true, beq_iff_eq] at named
    have letter : first.isDigit = false := by
      rcases named.1 with alpha | rfl
      · simp only [Char.isAlpha, Char.isUpper, Char.isLower, Bool.or_eq_true, Bool.and_eq_true,
          decide_eq_true_eq, ge_iff_le, UInt32.le_iff_toNat_le] at alpha
        change (65 ≤ first.toNat ∧ first.toNat ≤ 90) ∨ (97 ≤ first.toNat ∧ first.toNat ≤ 122)
          at alpha
        by_contra digit
        obtain ⟨low, high⟩ := Char.isDigit_iff_toNat.mp (Bool.not_eq_false _ ▸ digit)
        change 48 ≤ first.toNat at low
        change first.toNat ≤ 57 at high
        omega
      · rfl
    have zero : first ≠ '0' := by
      rintro rfl
      cases letter
    rw [arrayIndex, String.toList_ofList, if_neg (by simp [zero]), if_pos (by simp [letter])]

variable {segments : List Segment} {reference : Text}

theorem arrayIndex_of_dotted
    (parsed : parse reference = some segments) (dotted : isPointer reference = false) :
    ∀ segment ∈ segments, arrayIndex segment.key = none := by
  unfold parse at parsed
  split_ifs at parsed with valid
  split at parsed
  next pointer => simp [isPointer] at dotted
  cases parsed
  intro segment member
  obtain ⟨token, isToken, rfl⟩ := List.mem_map.mp member
  have pattern : fieldPathPattern reference = true := by
    simp only [isValid, jsonPointerPattern, Bool.or_eq_true, Bool.and_eq_true] at valid
    exact valid.resolve_right fun pointer => by
      rw [isPointer, pointer.1] at dotted
      cases dotted
  have named := List.all_eq_true.mp pattern token isToken
  rw [dottedSegment]
  cases stripped : stripEach token with
  | none | some key =>
    rw [stripped] at named
    exact arrayIndex_of_isFieldKey named

theorem selectSegments_nil (pointer : Bool) (segments : List Segment) :
    selectSegments pointer segments [] = [] := by
  induction segments with
  | nil => rfl
  | cons segment rest ih => exact ih

theorem selectSegments_eq_fetch (pointer : Bool)
    (single : segments.any Segment.each = false) (value : Value) :
    selectSegments pointer segments [value] = (fetch pointer segments value).toList := by
  induction segments generalizing value with
  | nil => rfl
  | cons segment rest ih =>
    simp only [List.any_cons, Bool.or_eq_false_iff] at single
    rw [selectSegments, fetch, List.flatMap_singleton, selectSegment, single.1]
    cases select pointer segment.key value with
    | none => exact selectSegments_nil pointer rest
    | some selected => exact ih single.2 selected

theorem getValue_eq_fetch
    (parsed : parse reference = some segments) (single : segments.any Segment.each = false)
    (value : Value) : getValue value reference = fetch (isPointer reference) segments value := by
  rw [getValue, getValues, parsed]
  simp only [selectSegments_eq_fetch _ single]
  cases fetch (isPointer reference) segments value <;> rfl

theorem getValueFromObject_eq (members : List (String × Value)) (reference : Text) :
    getValueFromObject members reference = getValue (.object members) reference := by
  rw [getValueFromObject, getValue, getValues]
  cases parsed : parse reference with
  | none => rfl
  | some segments =>
    cases segments with
    | nil => exact absurd parsed (parse_ne_nil reference)
    | cons first remaining =>
      simp only [Option.bind_eq_bind, Option.bind_some, selectSegments,
        List.flatMap_singleton, selectSegment, select_object]
      cases found : (Value.object members).get first.key with
      | none => rw [selectSegments_nil]; rfl
      | some selected =>
        cases each : first.each with
        | false => rfl
        | true =>
          cases items : selected.asArray with
          | none => simp [items, selectSegments_nil]
          | some values => simp [items]

theorem replacePair_of_ne {first second replacement left : Char} (different : left ≠ first)
    (rest : Text) :
    replacePair first second replacement (left :: rest) =
      left :: replacePair first second replacement rest := by
  cases rest with
  | nil => rfl
  | cons right rest => rw [replacePair, if_neg fun both => different both.1]

theorem replacePair_pair {first second replacement : Char} (rest : Text) :
    replacePair first second replacement (first :: second :: rest) =
      replacement :: replacePair first second replacement rest := by
  rw [replacePair, if_pos ⟨rfl, rfl⟩]

theorem replacePair_other {first second replacement other : Char} (different : other ≠ second)
    (rest : Text) :
    replacePair first second replacement (first :: other :: rest) =
      first :: replacePair first second replacement (other :: rest) := by
  rw [replacePair, if_neg fun both => different both.2]

/-- The key with its tildes escaped. -/
def tildes (key : Text) : Text :=
  key.flatMap fun character => if character = '~' then ['~', '0'] else [character]

theorem replacePair_escaped (key : Text) : replacePair '~' '1' '/' (escaped key) = tildes key := by
  induction key with
  | nil => rfl
  | cons first rest ih =>
    rcases escaped_cons first rest with ⟨rfl, same⟩ | ⟨rfl, same⟩ | ⟨plain, -, same⟩
    · rw [same, replacePair_other (by decide), replacePair_of_ne (by decide), ih]
      rfl
    · rw [same, replacePair_pair, ih]
      rfl
    · rw [same, replacePair_of_ne plain, ih, tildes, tildes, List.flatMap_cons, if_neg plain]
      rfl

theorem replacePair_tildes (key : Text) : replacePair '~' '0' '~' (tildes key) = key := by
  induction key with
  | nil => rfl
  | cons first rest ih =>
    rw [tildes, List.flatMap_cons]
    split_ifs with tilde
    · subst tilde
      exact (replacePair_pair _).trans (congrArg _ ih)
    · exact (replacePair_of_ne tilde _).trans (congrArg _ ih)

theorem unescape_escaped (key : Text) : unescape (escaped key) = key := by
  rw [unescape, replacePair_escaped, replacePair_tildes]

theorem topLevelPointer_eq (key : String) : topLevelPointer key = '/' :: escaped key.toList := by
  rw [topLevelPointer]
  refine congrArg _ ?_
  induction key.toList with
  | nil => rfl
  | cons first rest ih =>
    rw [List.flatMap_cons, List.flatMap_append, ih]
    rcases escaped_cons first rest with ⟨rfl, same⟩ | ⟨rfl, same⟩ | ⟨plain, slash, same⟩
    · rw [same]; rfl
    · rw [same]; rfl
    · rw [same, if_neg plain, List.flatMap_singleton, if_neg slash]
      rfl

theorem parse_topLevelPointer (key : String) :
    parse (topLevelPointer key) = some [⟨key, false⟩] := by
  have valid : isValid (topLevelPointer key) = true := by
    rw [isValid, jsonPointerPattern, topLevelPointer_eq]
    have pointer : validPointer ('/' :: escaped key.toList) = true := by
      have whole := validPointer_escaped_append key.toList []
      rw [List.append_nil] at whole
      exact (Provider.validPointer_cons (by decide) _).trans whole
    simp [pointer]
  have parts : (escaped key.toList).splitOn '/' = [escaped key.toList] :=
    List.splitOn_eq_singleton (slash_notMem_escaped _)
  unfold parse
  rw [if_pos valid, topLevelPointer_eq]
  simp [parts, unescape_escaped]

variable {members : List (String × Value)}

theorem get_removed {key : String} {old : Value}
    (present : (Value.object members).get key = some old) (inner : Value) (name : String) :
    select true name (.object (replaceMember key inner members)) =
      if name = key then some inner else (Value.object members).get name :=
  get_replaceMember present inner name

theorem removeKeys_frame (reference : Text) (last : String) (parents : List String)
    (members : List (String × Value)) :
    (∀ other, Apart (parents ++ [last]) other →
      locate other (.object (removeKeys reference last parents members).1) =
        locate other (.object members)) ∧
    ((removeKeys reference last parents members).2 ≠ .ok () →
      (removeKeys reference last parents members).1 = members) := by
  induction parents generalizing members with
  | nil =>
    refine ⟨fun other apart => ?_, fun failed => absurd rfl failed⟩
    obtain ⟨_, _, key, rest, same, rfl, beside⟩ := apart.cases
    cases same
    have different : key ≠ last := beside.resolve_right fun nothing => nothing.1 List.nil_prefix
    refine locate_congr ?_ rest
    rw [select_object, select_object, removeKeys, get_assign, if_neg different]
  | cons key parents ih =>
    rw [removeKeys]
    split
    next inner found =>
        obtain ⟨frame, unchanged⟩ := ih inner
        refine ⟨fun other apart => ?_, fun failed => ?_⟩
        · obtain ⟨_, _, name, rest, same, rfl, beside⟩ := apart.cases
          cases same
          rw [locate, locate, get_removed found, select_object]
          split_ifs with equal
          · rw [equal, found]
            exact frame rest (beside.resolve_left fun different => different equal)
          · rfl
        · dsimp only at failed ⊢
          rw [unchanged failed, replaceMember_self found]
    all_goals exact ⟨fun _ _ => rfl, fun _ => rfl⟩

theorem fetch_removeKeys (reference : Text) (pointer : Bool) {last : Segment}
    {parents : List Segment}
    (removed : (removeKeys reference last.key (parents.map Segment.key) members).2 = .ok ()) :
    fetch pointer (parents ++ [last])
      (.object (removeKeys reference last.key (parents.map Segment.key) members).1) = none := by
  induction parents generalizing members with
  | nil =>
    rw [List.nil_append, fetch, List.map_nil, removeKeys, select_object, get_assign, if_pos rfl]
    rfl
  | cons parent parents ih =>
    rw [List.map_cons, removeKeys] at removed
    rw [List.cons_append, fetch, List.map_cons, removeKeys]
    cases found : (Value.object members).get parent.key with
    | none =>
      simp only [select_object, found]
      rfl
    | some child =>
      simp only [found] at removed
      cases child with
      | object inner =>
        dsimp only at removed ⊢
        rw [select_replaceMember found]
        exact ih removed
      | array items => cases removed
      | _ =>
        simp only [select_object, found, Option.bind_some]
        cases parents <;> rfl

/-- A write obeys the laws: what it writes is read back and nothing beside the path changes, or it
fails and nothing changes at all. -/
structure Writes (before : Value) (reference : Text) (value : Value) (written : Written Value) :
    Prop where
  found : written.2 = .ok () → getValue written.1 reference = some value
  frame : written.2 = .ok () → ∀ segments, parse reference = some segments →
    ∀ other, Apart (segments.map Segment.key) other → locate other written.1 = locate other before
  failed : written.2 ≠ .ok () → written.1 = before

/-- A removal obeys the laws. -/
structure Removes (before : Value) (reference : Text) (written : Written Value) : Prop where
  gone : written.2 = .ok () → getValue written.1 reference = none
  frame : written.2 = .ok () → ∀ segments, parse reference = some segments →
    ∀ other, Apart (segments.map Segment.key) other → locate other written.1 = locate other before
  failed : written.2 ≠ .ok () → written.1 = before

/-- A result about the members of an object as one about the object. -/
def asObject (written : Written (List (String × Value))) : Written Value :=
  (.object written.1, written.2)

/-- The laws of field references on an object. -/
structure LensLaws (members : List (String × Value)) (reference : Text) (value : Value)
    (schema : Option Value) (append : Bool) : Prop where
  sets : Writes (.object members) reference value
    (asObject (setObjectValue members reference value))
  setsWithSchema : Writes (.object members) reference value
    (setValueWithSchema (.object members) reference value schema append)
  removes : Removes (.object members) reference (asObject (removeObjectValue members reference))
  reads : getValueFromObject members reference = getValue (.object members) reference
  names : ∀ key, isValid (topLevelPointer key) = true ∧
    parse (topLevelPointer key) = some [⟨key, false⟩] ∧
    getValue (.object members) (topLevelPointer key) = (Value.object members).get key

/-- The write with a schema creates no array on its path, but for one that the last key `0` appends
to. -/
def CreatesNoArray (target : Value) (reference : Text) (schema : Option Value) (append : Bool) :
    Prop :=
  ∀ segments, parse reference = some segments → segments.any Segment.each = false →
    Creates append segments schema target

theorem fillable_none (append : Bool) (segments : List Segment) :
    Fillable append segments none := by
  induction segments with
  | nil => trivial
  | cons segment rest ih =>
    cases rest with
    | nil => exact fun array => nomatch array
    | cons next rest => exact ⟨rfl, ih⟩

theorem creates_none (append : Bool) (segments : List Segment) (current : Value) :
    Creates append segments none current := by
  induction segments generalizing current with
  | nil => trivial
  | cons segment rest ih =>
    cases rest with
    | nil => cases current <;> trivial
    | cons next rest =>
      cases current with
      | object members =>
        rw [Creates]
        cases (Value.object members).get segment.key with
        | none => exact fillable_none append _
        | some child => exact ih child
      | array items =>
        rw [Creates]
        cases (arrayIndex segment.key).bind fun index => items[index]? with
        | none => trivial
        | some child => exact ih child
      | _ => trivial

/-- An assignment obeys the laws of a lens exactly if it creates no array. -/
theorem writes_iff (target : Value) (reference : Text) (value : Value) (schema : Option Value)
    (append : Bool) :
    Writes target reference value (setValueWithSchema target reference value schema append) ↔
      CreatesNoArray target reference schema append := by
  unfold setValueWithSchema CreatesNoArray
  cases parsed : parse reference with
  | none => exact ⟨(fun _ _ same => nomatch same), fun _ => ⟨nofun, nofun, fun _ => rfl⟩⟩
  | some segments =>
    dsimp only
    cases each : segments.any Segment.each with
    | true =>
      refine ⟨fun _ others same single => ?_, fun _ => ⟨nofun, nofun, fun _ => rfl⟩⟩
      cases same
      rw [each] at single
      cases single
    | false =>
      rw [if_neg (by decide)]
      constructor
      · rintro laws _ ⟨⟩ -
        by_contra creates
        obtain ⟨⟨error, fails⟩, changed⟩ :=
          setSegments_of_not_creates reference value append creates
        exact changed (laws.failed (by rw [fails]; exact nofun))
      · intro creates
        refine ⟨fun succeeds => ?_, fun _ others same other apart => ?_, fun fails => ?_⟩
        · rw [getValue_eq_fetch parsed each]
          refine fetch_setSegments reference value append ?_ succeeds
          cases dotted : isPointer reference with
          | true => exact .inl rfl
          | false => exact .inr (arrayIndex_of_dotted parsed dotted)
        · rw [parsed] at same
          cases same
          exact locate_setSegments reference value append apart schema target
        · obtain ⟨error, failed⟩ := exists_error_of_ne fails
          exact setSegments_of_creates reference value append (creates segments rfl each) failed

theorem asObject_setObjectValue (members : List (String × Value)) (reference : Text)
    (value : Value) :
    asObject (setObjectValue members reference value) =
      setValueWithSchema (.object members) reference value none false := by
  unfold setObjectValue setValueWithSchema
  cases parsed : parse reference with
  | none => rfl
  | some segments =>
    cases segments with
    | nil => exact absurd parsed (parse_ne_nil reference)
    | cons first remaining =>
      dsimp only
      cases each : (first :: remaining).any Segment.each with
      | true => rfl
      | false =>
        simp only [Bool.false_eq_true, if_false]
        cases remaining with
        | nil => rfl
        | cons next rest =>
          have nothing : schemaProperty none first.key = none := rfl
          have plain : newContainer none = .object [] := rfl
          rw [if_neg (List.cons_ne_nil _ _), setSegments, nothing, plain]
          dsimp only
          split_ifs <;> rfl

theorem removes (members : List (String × Value)) (reference : Text) :
    Removes (.object members) reference (asObject (removeObjectValue members reference)) := by
  unfold removeObjectValue objectPath
  cases parsed : parse reference with
  | none => exact ⟨nofun, nofun, fun _ => rfl⟩
  | some segments =>
    dsimp only
    cases each : segments.any Segment.each with
    | true => exact ⟨nofun, nofun, fun _ => rfl⟩
    | false =>
      rcases List.eq_nil_or_concat segments with rfl | ⟨parents, last, rfl⟩
      · exact absurd parsed (parse_ne_nil reference)
      · rw [List.concat_eq_append] at parsed each ⊢
        have keys_ : (parents ++ [last]).map Segment.key =
            parents.map Segment.key ++ [last.key] := by simp
        simp only [Bool.false_eq_true, if_false, keys_, List.getLast?_concat, List.dropLast_concat]
        obtain ⟨frame, failed⟩ :=
          removeKeys_frame reference last.key (parents.map Segment.key) members
        refine ⟨fun removed => ?_, fun _ others same other apart => ?_, fun fails => ?_⟩
        · rw [getValue_eq_fetch parsed each]
          exact fetch_removeKeys reference _ removed
        · rw [parsed] at same
          cases same
          exact frame other (by simpa using apart)
        · exact congrArg Value.object (failed fails)

theorem getValue_topLevelPointer (members : List (String × Value)) (key : String) :
    getValue (.object members) (topLevelPointer key) = (Value.object members).get key := by
  rw [getValue_eq_fetch (parse_topLevelPointer key) rfl, fetch, select_object]
  cases (Value.object members).get key <;> rfl

theorem isValid_of_parse (parsed : parse reference = some segments) : isValid reference = true := by
  by_contra invalid
  unfold parse at parsed
  rw [if_neg invalid] at parsed
  cases parsed

/-- Field references obey the lens laws on every object if and only if the write with a schema
creates no array that it cannot fill. -/
theorem lensLaws_iff (members : List (String × Value)) (reference : Text) (value : Value)
    (schema : Option Value) (append : Bool) :
    LensLaws members reference value schema append ↔
      CreatesNoArray (.object members) reference schema append := by
  constructor
  · intro laws
    exact (writes_iff _ reference value schema append).mp laws.setsWithSchema
  · intro creates
    refine ⟨?_, (writes_iff _ reference value schema append).mpr creates, removes members reference,
      getValueFromObject_eq members reference, fun key => ?_⟩
    · rw [asObject_setObjectValue]
      exact (writes_iff _ reference value none false).mpr fun segments _ _ =>
        creates_none false segments _
    · exact ⟨isValid_of_parse (parse_topLevelPointer key), parse_topLevelPointer key,
        getValue_topLevelPointer members key⟩

/-- A schema that declares an array. -/
def arraySchema : Value :=
  .object [("properties", .object [("tags", .object [("type", .string "array")])])]

/-- A write to a member of an array that is not there fails and leaves an empty array behind. -/
theorem array_left_behind : ¬LensLaws [] "/tags/first".toList .null (some arraySchema) true := by
  intro laws
  have failed := laws.setsWithSchema.failed (by decide +kernel)
  revert failed
  decide +kernel

end Mdbase.Fields
