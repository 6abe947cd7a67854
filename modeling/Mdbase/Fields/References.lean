import Mdbase.Library.Whitespace
import Mdbase.Provider.FieldPointers

/-!
# Field references

A field reference is a dotted path of names, some of them with an array selector, or a JSON
Pointer. It reads the values it selects from a record, writes a value through the containers on its
path, and removes a member. A write creates the containers that are missing on the path: objects, or
arrays where the schema says so.
-/

namespace Mdbase.Fields

open Library
open Mdbase.Runtime (Value assign)
open Mdbase.Provider (validPointer escaped)

/-- `Segment`. -/
structure Segment where
  key : String
  each : Bool := false
  deriving DecidableEq

/-- `[A-Za-z0-9_:-]`. -/
def isKeyChar (character : Char) : Bool :=
  character.isAlphanum || character == '_' || character == ':' || character == '-'

/-- `[A-Za-z_][A-Za-z0-9_:-]*`. -/
def isFieldKey : Text → Bool
  | [] => false
  | first :: rest => (first.isAlpha || first == '_') && rest.all isKeyChar

/-- `token.strip_suffix("[]")`. -/
def stripEach (token : Text) : Option Text :=
  match token.reverse with
  | ']' :: '[' :: rest => some rest.reverse
  | _ => none

/-- The dotted paths. -/
def fieldPathPattern (reference : Text) : Bool :=
  (reference.splitOn '.').all fun token => isFieldKey ((stripEach token).getD token)

/-- The JSON Pointers, without the empty one. -/
def jsonPointerPattern (reference : Text) : Bool :=
  reference.head? == some '/' && validPointer reference

/-- `is_valid`. -/
def isValid (reference : Text) : Bool := fieldPathPattern reference || jsonPointerPattern reference

/-- `text.replace(..)` for a text of two different characters and one that replaces them. -/
def replacePair (first second replacement : Char) : Text → Text
  | left :: right :: rest =>
    if left = first ∧ right = second then replacement :: replacePair first second replacement rest
    else left :: replacePair first second replacement (right :: rest)
  | short => short

/-- The key that a token of a pointer stands for. -/
def unescape (token : Text) : Text := replacePair '~' '0' '~' (replacePair '~' '1' '/' token)

/-- A segment of a dotted path. -/
def dottedSegment (token : Text) : Segment :=
  match stripEach token with
  | some key => ⟨String.ofList key, true⟩
  | none => ⟨String.ofList token, false⟩

/-- `parse`. -/
def parse (reference : Text) : Option (List Segment) :=
  if isValid reference then
    match reference with
    | '/' :: pointer =>
      some ((pointer.splitOn '/').map fun token => ⟨String.ofList (unescape token), false⟩)
    | _ => some ((reference.splitOn '.').map dottedSegment)
  else none

/-- `top_level_pointer`. -/
def topLevelPointer (key : String) : Text :=
  '/' :: (key.toList.flatMap fun character =>
    if character = '~' then ['~', '0'] else [character]).flatMap fun character =>
      if character = '/' then ['~', '1'] else [character]

/-- `usize::MAX`. -/
def usizeMax : Nat := 2 ^ 64 - 1

/-- `array_index`. -/
def arrayIndex (token : String) : Option Nat :=
  if token.toList = ['0'] then some 0
  else if token.toList.head? = some '0' ∨ token.toList = [] ∨ ¬token.toList.all Char.isDigit then
    none
  else
    let index := Nat.ofDigitChars 10 token.toList 0
    if index ≤ usizeMax then some index else none

/-- The value that a key selects. Only a pointer selects items of arrays. -/
def select (pointer : Bool) (key : String) : Value → Option Value
  | .object members => (Value.object members).get key
  | .array items => if pointer then (arrayIndex key).bind fun index => items[index]? else none
  | _ => none

/-- The values that a segment selects from one value. -/
def selectSegment (pointer : Bool) (segment : Segment) (value : Value) : List Value :=
  match select pointer segment.key value with
  | none => []
  | some selected => if segment.each then selected.asArray.getD [] else [selected]

/-- The values that some segments select, one segment after the other. -/
def selectSegments (pointer : Bool) : List Segment → List Value → List Value
  | [], current => current
  | segment :: rest, current =>
    selectSegments pointer rest (current.flatMap (selectSegment pointer segment))

/-- The reference is a pointer. -/
def isPointer (reference : Text) : Bool := reference.head? == some '/'

/-- `get_values`. -/
def getValues (source : Value) (reference : Text) : List Value :=
  match parse reference with
  | none => []
  | some segments => selectSegments (isPointer reference) segments [source]

/-- `get_value`. -/
def getValue (source : Value) (reference : Text) : Option Value :=
  (getValues source reference).head?

/-- `get_value_from_object`. -/
def getValueFromObject (source : List (String × Value)) (reference : Text) : Option Value := do
  let segments ← parse reference
  match segments with
  | [] => none
  | first :: remaining =>
    let firstValue ← (Value.object source).get first.key
    let current ← if first.each then firstValue.asArray else some [firstValue]
    (selectSegments (isPointer reference) remaining current).head?

/-- `schema_property`. -/
def schemaProperty (schema : Option Value) (key : String) : Option Value :=
  match schema.bind fun schema => schema.get "properties" with
  | some (.object members) => (Value.object members).get key
  | _ => none

/-- `schema_items`. -/
def schemaItems (schema : Option Value) : Option Value :=
  schema.bind fun schema => schema.get "items"

/-- `is_array_schema`. -/
def isArraySchema (schema : Option Value) : Bool :=
  ((schema.bind fun schema => schema.get "type").bind Value.asStr) == some "array"

/-- The value is an object or an array. -/
def isContainer : Value → Bool
  | .object _ | .array _ => true
  | _ => false

/-- Write through `get_mut`: the first member of this name has another value. -/
def replaceMember (key : String) (value : Value) : List (String × Value) → List (String × Value)
  | [] => []
  | member :: rest =>
    if member.1 = key then (key, value) :: rest else member :: replaceMember key value rest

/-- What is wrong with a reference. The texts are those of the source. -/
inductive ReferenceError where
  /-- `Invalid field reference '{reference}'`. -/
  | invalid (reference : Text)
  /-- `Cannot assign through array selector '{reference}'`. -/
  | arraySelector (reference : Text)
  /-- `Cannot assign through non-container field '{key}' in '{reference}'`. -/
  | nonContainer (key : String) (reference : Text)
  /-- `Cannot use '{key}' as an array index in '{reference}'`. -/
  | arrayIndex (key : String) (reference : Text)
  /-- `Array index {index} does not exist in '{reference}'`. -/
  | noIndex (index : Nat) (reference : Text)
  /-- `Cannot assign through a non-object value in '{reference}'`. -/
  | nonObject (reference : Text)
  /-- `Cannot unset array items through '{reference}'`. -/
  | unsetItems (reference : Text)
  deriving DecidableEq

/-- What a write leaves behind, and whether it succeeded. -/
abbrev Written (α : Type) := α × Except ReferenceError Unit

/-- The container that a write creates for a key. -/
def newContainer (schema : Option Value) : Value :=
  if isArraySchema schema then .array [] else .object []

/-- The members with the container of a key created if it is missing. -/
def withContainer (members : List (String × Value)) (key : String) (container : Value) :
    List (String × Value) × Value :=
  match (Value.object members).get key with
  | some child => (members, child)
  | none => (assign members key (some container), container)

/-- `set_segments`. -/
def setSegments (reference : Text) (value : Value) (append : Bool) :
    List Segment → Option Value → Value → Written Value
  | [], _, current => (current, .error (.invalid reference))
  | [segment], _, .object members => (.object (assign members segment.key (some value)), .ok ())
  | segment :: next :: remaining, schema, .object members =>
    let childSchema := schemaProperty schema segment.key
    let (members, child) := withContainer members segment.key (newContainer childSchema)
    if isContainer child then
      let (child, result) :=
        setSegments reference value append (next :: remaining) childSchema child
      (.object (replaceMember segment.key child members), result)
    else (.object members, .error (.nonContainer segment.key reference))
  | [segment], _, .array items =>
    match arrayIndex segment.key with
    | none => (.array items, .error (.arrayIndex segment.key reference))
    | some index =>
      if index < items.length then (.array (items.set index value), .ok ())
      else if append && index == items.length then (.array (items ++ [value]), .ok ())
      else (.array items, .error (.noIndex index reference))
  | segment :: next :: remaining, schema, .array items =>
    match arrayIndex segment.key with
    | none => (.array items, .error (.arrayIndex segment.key reference))
    | some index =>
      match items[index]? with
      | none => (.array items, .error (.noIndex index reference))
      | some child =>
        let (child, result) :=
          setSegments reference value append (next :: remaining) (schemaItems schema) child
        (.array (items.set index child), result)
  | _ :: _, _, current => (current, .error (.nonObject reference))

/-- `set_value_with_schema`. -/
def setValueWithSchema (target : Value) (reference : Text) (value : Value)
    (schema : Option Value) (append : Bool) : Written Value :=
  match parse reference with
  | none => (target, .error (.invalid reference))
  | some segments =>
    if segments.any Segment.each then (target, .error (.arraySelector reference))
    else setSegments reference value append segments schema target

/-- `set_object_value`. -/
def setObjectValue (target : List (String × Value)) (reference : Text) (value : Value) :
    Written (List (String × Value)) :=
  match parse reference with
  | none => (target, .error (.invalid reference))
  | some [] => (target, .error (.invalid reference))
  | some (first :: remaining) =>
    if (first :: remaining).any Segment.each then (target, .error (.arraySelector reference))
    else if remaining = [] then (assign target first.key (some value), .ok ())
    else
      let (members, child) := withContainer target first.key (.object [])
      if isContainer child then
        let (child, result) := setSegments reference value false remaining none child
        (replaceMember first.key child members, result)
      else (members, .error (.nonContainer first.key reference))

/-- `object_path`. -/
def objectPath (reference : Text) : Except ReferenceError (List String) :=
  match parse reference with
  | none => .error (.invalid reference)
  | some segments =>
    if segments.any Segment.each then .error (.unsetItems reference)
    else .ok (segments.map Segment.key)

/-- The walk of `remove_object_value` to the object that has the last key. -/
def removeKeys (reference : Text) (last : String) :
    List String → List (String × Value) → Written (List (String × Value))
  | [], members => (assign members last none, .ok ())
  | key :: parents, members =>
    match (Value.object members).get key with
    | some (.object inner) =>
      let (inner, result) := removeKeys reference last parents inner
      (replaceMember key (.object inner) members, result)
    | some (.array _) => (members, .error (.unsetItems reference))
    | _ => (members, .ok ())

/-- `remove_object_value`. -/
def removeObjectValue (target : List (String × Value)) (reference : Text) :
    Written (List (String × Value)) :=
  match objectPath reference with
  | .error error => (target, .error error)
  | .ok keys =>
    match keys.getLast? with
    | none => (target, .error (.invalid reference))
    | some last => removeKeys reference last keys.dropLast target

end Mdbase.Fields
