import Mathlib.Data.List.Basic
import Mdbase.Library.Whitespace

/-!
# Semantic versions

A version is a core of three numbers, a pre-release, and build metadata that takes no part in the
precedence. Versions are ordered by their core, and versions of one core by their pre-release: none
at all is the greatest, and otherwise the identifiers count from left to right. So every version
below the lowest pre-release of a core has a lower core.
-/

namespace Mdbase.Library

/-- One identifier of a pre-release. -/
inductive Identifier where
  | numeric (value : Nat)
  | alphanumeric (text : Text)
  deriving DecidableEq

/-- Numeric identifiers are below the others. -/
def Identifier.cmp : Identifier → Identifier → Ordering
  | numeric left, numeric right => compare left right
  | numeric _, alphanumeric _ => .lt
  | alphanumeric _, numeric _ => .gt
  | alphanumeric left, alphanumeric right => List.compareLex compare left right

namespace Identifier

theorem transCmp_text : Std.TransCmp (List.compareLex (compare : Char → Char → Ordering)) :=
  inferInstance

instance : Std.OrientedCmp cmp where
  eq_swap {left right} := by
    cases left <;> cases right <;> try rfl
    · exact Std.OrientedOrd.eq_swap
    · exact transCmp_text.eq_swap

instance : Std.TransCmp cmp where
  isLE_trans {first second third} below above := by
    cases first with
    | numeric =>
      cases third with
      | numeric =>
        cases second with
        | numeric => exact Std.TransOrd.isLE_trans below above
        | alphanumeric => cases above
      | alphanumeric => rfl
    | alphanumeric =>
      cases second with
      | numeric => cases below
      | alphanumeric =>
        cases third with
        | numeric => cases above
        | alphanumeric => exact transCmp_text.isLE_trans below above

instance : Std.LawfulEqCmp cmp where
  toReflCmp := inferInstance
  eq_of_compare {left right} same := by
    have texts : Std.LawfulEqCmp (List.compareLex (compare : Char → Char → Ordering)) :=
      inferInstance
    cases left with
    | numeric =>
      cases right with
      | numeric => rw [Std.LawfulEqOrd.eq_of_compare same]
      | alphanumeric => cases same
    | alphanumeric =>
      cases right with
      | numeric => cases same
      | alphanumeric => rw [texts.eq_of_compare same]

theorem cmp_zero_ne_lt (identifier : Identifier) : identifier.cmp (numeric 0) ≠ .lt := by
  cases identifier with
  | numeric value => simp [cmp, Nat.compare_ne_lt]
  | alphanumeric => exact nofun

end Identifier

/-- A version without build metadata. -/
structure Version where
  major : Nat
  minor : Nat
  patch : Nat
  pre : List Identifier := []
  deriving DecidableEq

/-- A version with build metadata. -/
structure BuiltVersion extends Version where
  build : List Text := []
  deriving DecidableEq

namespace Version

/-- The order of pre-releases: none at all comes last. -/
def preCmp (left right : List Identifier) : Ordering :=
  (compare left.isEmpty right.isEmpty).then (List.compareLex Identifier.cmp left right)

/-- The precedence of versions. -/
def cmp (left right : Version) : Ordering :=
  (compare left.major right.major).then
    ((compare left.minor right.minor).then
      ((compare left.patch right.patch).then (preCmp left.pre right.pre)))

/-- The order of the pre-releases of one core is a total preorder. -/
instance : Std.TransCmp preCmp :=
  inferInstanceAs (Std.TransCmp
    (compareLex (compareOn List.isEmpty) (List.compareLex Identifier.cmp)))

theorem eq_of_preCmp {left right : List Identifier} (same : preCmp left right = .eq) :
    left = right := by
  have lawful : Std.LawfulEqCmp (List.compareLex Identifier.cmp) := inferInstance
  exact lawful.eq_of_compare (Ordering.then_eq_eq.mp same).2

instance : Std.TransCmp cmp :=
  have _pre : Std.TransCmp fun left right : Version => preCmp left.pre right.pre :=
    { eq_swap := Std.OrientedCmp.eq_swap
      isLE_trans := Std.TransCmp.isLE_trans }
  inferInstanceAs (Std.TransCmp
    (compareLex (compareOn major) (compareLex (compareOn minor) (compareLex (compareOn patch)
      fun left right : Version => preCmp left.pre right.pre))))

instance : Std.LawfulEqCmp cmp where
  toReflCmp := inferInstance
  eq_of_compare {left right} same := by
    obtain ⟨majors, same⟩ := Ordering.then_eq_eq.mp same
    obtain ⟨minors, same⟩ := Ordering.then_eq_eq.mp same
    obtain ⟨patches, pres⟩ := Ordering.then_eq_eq.mp same
    cases left
    cases right
    congr
    · exact Std.LawfulEqOrd.eq_of_compare majors
    · exact Std.LawfulEqOrd.eq_of_compare minors
    · exact Std.LawfulEqOrd.eq_of_compare patches
    · exact eq_of_preCmp pres

/-- The lowest version of a core: its pre-release `0`. -/
def lowest (major minor patch : Nat) : Version := ⟨major, minor, patch, [.numeric 0]⟩

theorem preCmp_zero_ne_lt (pre : List Identifier) : preCmp pre [.numeric 0] ≠ .lt := by
  cases pre with
  | nil => exact nofun
  | cons first rest =>
    have tail : List.compareLex Identifier.cmp rest [] ≠ .lt := by cases rest <;> exact nofun
    simp [preCmp, List.compareLex_cons_cons, Ordering.then_eq_lt, Identifier.cmp_zero_ne_lt, tail]

/-- The versions below the lowest version of a core are those of the lower cores. -/
theorem cmp_lowest_iff {version : Version} {major minor patch : Nat} :
    version.cmp (lowest major minor patch) = .lt ↔
      version.major < major ∨ version.major = major ∧
        (version.minor < minor ∨ version.minor = minor ∧ version.patch < patch) := by
  simp only [cmp, lowest, Ordering.then_eq_lt, Nat.compare_eq_lt, Nat.compare_eq_eq,
    preCmp_zero_ne_lt, and_false, or_false]

end Version

/-- `u64::MAX`. -/
def u64Limit : Nat := 2 ^ 64 - 1

/-- Digits without a leading zero. -/
def isCanonical : Text → Bool
  | [] => false
  | [_] => true
  | first :: _ :: _ => first != '0'

/-- A number at the start of a text, of 64 bits, with what follows it. -/
def numericIdentifier (text : Text) : Option (Nat × Text) :=
  let digits := text.takeWhile Char.isDigit
  if isCanonical digits && Nat.ofDigitChars 10 digits 0 ≤ u64Limit then
    some (Nat.ofDigitChars 10 digits 0, text.dropWhile Char.isDigit)
  else none

/-- A text without a character that it starts with. -/
def afterChar (mark : Char) : Text → Option Text
  | [] => none
  | first :: rest => if first = mark then some rest else none

theorem afterChar_eq_some_iff {mark : Char} {text rest : Text} :
    afterChar mark text = some rest ↔ text = mark :: rest := by
  cases text with
  | nil | cons first others => simp [afterChar]

/-- What the identifiers of a pre-release or of build metadata are made of, and the dots between
them. -/
def isIdentifierChar (character : Char) : Bool :=
  character.isAlphanum || character == '-' || character == '.'

/-- Identifiers with dots between them, none of them empty, with what follows them. -/
def identifiers (text : Text) : Option (List Text × Text) :=
  let segments := (text.takeWhile isIdentifierChar).splitOn '.'
  if [] ∈ segments then none else some (segments, text.dropWhile isIdentifierChar)

/-- An identifier of a pre-release. A number has no leading zero. -/
def Identifier.ofText (text : Text) : Option Identifier :=
  if text.all Char.isDigit then
    if isCanonical text then some (.numeric (Nat.ofDigitChars 10 text 0)) else none
  else some (.alphanumeric text)

/-- The pre-release of a version, if there is a hyphen. -/
def preRelease (text : Text) : Option (List Identifier × Text) :=
  match afterChar '-' text with
  | some text => do
      let (segments, text) ← identifiers text
      return (← segments.mapM Identifier.ofText, text)
  | none => some ([], text)

/-- The build metadata of a version, if there is a plus. -/
def buildMetadata (text : Text) : Option (List Text × Text) :=
  match afterChar '+' text with
  | some text => identifiers text
  | none => some ([], text)

/-- `Version::parse`. -/
def BuiltVersion.parse (text : Text) : Option BuiltVersion := do
  let (major, text) ← numericIdentifier text
  let text ← afterChar '.' text
  let (minor, text) ← numericIdentifier text
  let text ← afterChar '.' text
  let (patch, text) ← numericIdentifier text
  let (pre, text) ← preRelease text
  let (build, text) ← buildMetadata text
  if text.isEmpty then return { major, minor, patch, pre, build } else none

example : BuiltVersion.parse "1.4.1-rc.1+b7".toList =
    some ⟨⟨1, 4, 1, [.alphanumeric "rc".toList, .numeric 1]⟩, ["b7".toList]⟩ := by decide +kernel

end Mdbase.Library
