import Mdbase.Runtime.Value

/-!
# Changed fields

A change of a record names the fields of its frontmatter that differ, by JSON pointers. Two
objects are compared member by member; anything else differs as a whole.
-/

namespace Mdbase.Provider

open Mdbase.Runtime (Value)

/-- A key in a JSON pointer. -/
def escapePointer (key : String) : String :=
  String.ofList (key.toList.flatMap fun character =>
    if character = '~' then ['~', '0']
    else if character = '/' then ['~', '1']
    else [character])

/-- `child_pointer`. -/
def childPointer (parent key : String) : String := parent ++ "/" ++ escapePointer key

mutual

/-- `collect_visible_fields`. -/
def visibleFields : Value → String → List String
  | .object (member :: members), pointer => visibleMembers (member :: members) pointer
  | _, pointer => if pointer.isEmpty then [] else [pointer]

/-- The visible fields of the members of an object. -/
def visibleMembers : List (String × Value) → String → List String
  | [], _ => []
  | (key, value) :: members, pointer =>
    visibleFields value (childPointer pointer key) ++ visibleMembers members pointer

end

mutual

/-- `collect_changed_fields`, of a value that was there before. -/
def changedFields : Value → Option Value → String → List String
  | .object members, some (.object others), pointer =>
    changedMembers members others pointer ++
      (others.filter fun other => members.all fun member => member.1 ≠ other.1).map
        fun other => childPointer pointer other.1
  | before, after, pointer =>
    if after = some before then []
    else if pointer.isEmpty then visibleFields (after.getD before) pointer
    else [pointer]

/-- The changed fields of the members of an object. -/
def changedMembers :
    List (String × Value) → List (String × Value) → String → List String
  | [], _, _ => []
  | (key, value) :: members, others, pointer =>
    changedFields value ((others.find? fun other => other.1 = key).map Prod.snd)
        (childPointer pointer key) ++
      changedMembers members others pointer

end

/-- `CanonicalFieldChangeSet::new`, of pointers. -/
def canonicalFields (pointers : List String) : List String := pointers.dedup.insertionSort (· ≤ ·)

/-- The `changed_fields` of `record_change`. -/
def recordChangedFields :
    Option (List (String × Value)) → Option (List (String × Value)) → List String
  | some before, some after => canonicalFields (changedFields (.object before) (some (.object after)) "")
  | some before, none => canonicalFields (visibleFields (.object before) "")
  | none, some after => canonicalFields (visibleFields (.object after) "")
  | none, none => []

example : recordChangedFields (some [("a", .object [("b", .null)]), ("c", .null)])
    (some [("a", .object [("d", .null)]), ("c", .null)]) = ["/a/b", "/a/d"] := by
  decide +kernel

end Mdbase.Provider
