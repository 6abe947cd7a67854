import Mdbase.Runtime.Value

/-!
# References to variables

A workflow variable refers to another by `vars.<name>` in one of its texts. The planner looks for
the references with a pattern, and it looks in the JSON text of the whole template, where quotes
and control characters are escaped.
-/

namespace Mdbase.Runtime

/-- The parts of the libraries that the search for references rests on: the word characters of
Unicode, and the text of a finite float. -/
structure TextLibrary where
  word : Char → Bool
  floatText : Rat → List Char

/-- The lower-case hexadecimal digit of a number below 16. -/
def hexDigit (number : Nat) : Char := Nat.digitChar number

/-- A character inside a JSON string, as `serde_json` writes it. -/
def escapedCharacter (character : Char) : List Char :=
  if character = '"' then ['\\', '"']
  else if character = '\\' then ['\\', '\\']
  else if character = '\n' then ['\\', 'n']
  else if character = '\r' then ['\\', 'r']
  else if character = '\t' then ['\\', 't']
  else if character.toNat = 8 then ['\\', 'b']
  else if character.toNat = 12 then ['\\', 'f']
  else if character.toNat < 32 then
    ['\\', 'u', '0', '0', hexDigit (character.toNat / 16), hexDigit (character.toNat % 16)]
  else [character]

/-- A JSON string. -/
def stringText (text : String) : List Char := '"' :: text.toList.flatMap escapedCharacter ++ ['"']

/-- A JSON number. -/
def numberText (library : TextLibrary) : Number → List Char
  | .posInt value => Nat.toDigits 10 value
  | .negInt value => '-' :: Nat.toDigits 10 value.natAbs
  | .float value => library.floatText value

mutual

/-- `serde_json::to_string`. -/
def jsonText (library : TextLibrary) : Value → List Char
  | .null => "null".toList
  | .bool true => "true".toList
  | .bool false => "false".toList
  | .number value => numberText library value
  | .string text => stringText text
  | .array items => '[' :: jsonItems library items ++ [']']
  | .object members => '{' :: jsonMembers library members ++ ['}']

/-- The items of an array, separated by commas. -/
def jsonItems (library : TextLibrary) : List Value → List Char
  | [] => []
  | [item] => jsonText library item
  | item :: other :: rest => jsonText library item ++ ',' :: jsonItems library (other :: rest)

/-- The members of an object, separated by commas. -/
def jsonMembers (library : TextLibrary) : List (String × Value) → List Char
  | [] => []
  | [(name, item)] => stringText name ++ ':' :: jsonText library item
  | (name, item) :: other :: rest =>
    stringText name ++ ':' :: jsonText library item ++ ',' :: jsonMembers library (other :: rest)

end

/-- A character of a name after its first one. -/
def nameCharacter (character : Char) : Bool := character.isAlphanum || character == '_'

/-- The name that the pattern `\bvars\.([A-Za-z_][A-Za-z0-9_]*)\b` captures at the start of a
text, apart from its first word boundary. -/
def nameAt (library : TextLibrary) : List Char → Option (List Char)
  | 'v' :: 'a' :: 'r' :: 's' :: '.' :: rest =>
    let name := rest.takeWhile nameCharacter
    if name.head?.any (fun first => !first.isDigit) &&
        !(rest.dropWhile nameCharacter).head?.any library.word then some name
    else none
  | _ => none

/-- The names that the pattern captures in a text, one match after another. A match that was found
covers the next `skip` characters, and `afterWord` says if a word character came before. -/
def captures (library : TextLibrary) : (skip : Nat) → (afterWord : Bool) → List Char → List String
  | _, _, [] => []
  | skip + 1, _, character :: rest => captures library skip (library.word character) rest
  | 0, afterWord, character :: rest =>
    match if afterWord then none else nameAt library (character :: rest) with
    | some name =>
      String.ofList name :: captures library (name.length + 4) (library.word character) rest
    | none => captures library 0 (library.word character) rest

/-- The names that `evaluate_vars` finds in a template. -/
def dependencyNames (library : TextLibrary) (template : Value) : List String :=
  captures library 0 false (jsonText library template)

mutual

/-- The texts of a template: its strings and the names of its members. -/
def templateTexts : Value → List String
  | .null | .bool _ | .number _ => []
  | .string text => [text]
  | .array items => textsOfItems items
  | .object members => textsOfMembers members

/-- The texts of the items of an array. -/
def textsOfItems : List Value → List String
  | [] => []
  | item :: rest => templateTexts item ++ textsOfItems rest

/-- The texts of the members of an object. -/
def textsOfMembers : List (String × Value) → List String
  | [] => []
  | (name, item) :: rest => name :: (templateTexts item ++ textsOfMembers rest)

end

/-- The variables that a template refers to: the pattern in each of its texts. -/
def referencedNames (library : TextLibrary) (template : Value) : List String :=
  (templateTexts template).flatMap fun text => captures library 0 false text.toList

/-- ASCII texts only. -/
def asciiLibrary : TextLibrary where
  word := nameCharacter
  floatText _ := ['0', '.', '5']

example : dependencyNames asciiLibrary (.object [("$expr", .string "vars.b + vars.c")]) =
    ["b", "c"] := by decide +kernel

theorem newline_hides_reference :
    let template : Value := .object [("$expr", .string "1 +\nvars.b")]
    referencedNames asciiLibrary template = ["b"] ∧ dependencyNames asciiLibrary template = [] := by
  decide +kernel

end Mdbase.Runtime
