import Mdbase.Library.SemanticVersion
import Mdbase.Library.Selection
import Mdbase.Library.Fallible

/-!
# Version requirements of contracts

A requirement is an exact version, a `^` or a `~` range, or some comparators with a space between
them. It is read into bounds, and the highest candidate within all of them is chosen. A range keeps
the versions of one series: those that share the core up to its first component that counts. Its
upper bound is the lowest pre-release of the next series, for which that component is incremented.
-/

namespace Mdbase.Contracts

open Library

/-- `Operator`. -/
inductive Operator where
  | eq
  | gt
  | gte
  | lt
  | lte
  deriving DecidableEq

/-- What goes wrong with a requirement. -/
inductive Failure where
  | rejected (message : Text)
  /-- The panic of an addition that overflows. -/
  | overflow
  deriving DecidableEq

/-- `number + 1` on 64 bits: it panics at the limit in a build that checks for overflow, and wraps
in the others. -/
def addOne (checked : Bool) (number : Nat) : Except Failure Nat :=
  if number < u64Limit then .ok (number + 1) else if checked then .error .overflow else .ok 0

/-- `parse`: the version without its build metadata. -/
def parse (value : Text) : Option Version := (BuiltVersion.parse value).map (·.toVersion)

/-- `floor`. -/
def floor (major minor patch : Nat) : Version := .lowest major minor patch

/-- `compare`. -/
def compare (version : Version) (operator : Operator) (bound : Version) : Bool :=
  let ordering := version.cmp bound
  match operator with
  | .eq => ordering == .eq
  | .gt => ordering == .gt
  | .gte => ordering != .lt
  | .lt => ordering == .lt
  | .lte => ordering != .gt

/-- The message about a requirement that is not one. -/
def invalid (requirement : Text) : Failure :=
  .rejected ('\'' :: requirement ++ "' is not a portable version requirement".toList)

/-- A version in a requirement. -/
def parseIn (requirement value : Text) : Except Failure Version :=
  match parse value with
  | some version => .ok version
  | none => .error (invalid requirement)

/-- The upper bound of a `^` range. -/
def caretUpper (checked : Bool) (lower : Version) : Except Failure Version :=
  if 0 < lower.major then
    (addOne checked lower.major).map fun major => floor major 0 0
  else if 0 < lower.minor then
    (addOne checked lower.minor).map fun minor => floor 0 minor 0
  else (addOne checked lower.patch).map fun patch => floor 0 0 patch

/-- The upper bound of a `~` range. -/
def tildeUpper (checked : Bool) (lower : Version) : Except Failure Version :=
  (addOne checked lower.minor).map fun minor => floor lower.major minor 0

/-- The bounds of a range. -/
def rangeBounds (upper : Version → Except Failure Version) (requirement base : Text) :
    Except Failure (List (Operator × Version)) := do
  let lower ← parseIn requirement base
  let upper ← upper lower
  return [(.gte, lower), (.lt, upper)]

/-- The operators that a comparator may start with, in the order in which they are tried. -/
def operators : List (Text × Operator) :=
  [(['>', '='], .gte), (['<', '='], .lte), (['>'], .gt), (['<'], .lt), (['='], .eq)]

/-- The operator of a comparator and the text of its version. -/
def splitComparator (comparator : Text) : Operator × Text :=
  (operators.findSome? fun (mark, operator) =>
    (comparator.dropPrefix? mark).map fun rest => (operator, rest)).getD (.eq, comparator)

/-- `bounds`. -/
def bounds (checked : Bool) (requirement : Text) : Except Failure (List (Operator × Version)) :=
  match afterChar '^' requirement with
  | some base => rangeBounds (caretUpper checked) requirement base
  | none =>
    match afterChar '~' requirement with
    | some base => rangeBounds (tildeUpper checked) requirement base
    | none =>
      (requirement.splitOn ' ').mapM fun comparator => do
        let (operator, version) := splitComparator comparator
        return (operator, ← parseIn requirement version)

/-- A candidate and its version are within the bounds. -/
def within (bounds : List (Operator × Version)) (candidate : Text × Version) : Bool :=
  bounds.all fun (operator, bound) => compare candidate.2 operator bound

/-- The candidates that are versions, each with its version. -/
def versions (candidates : List Text) : List (Text × Version) :=
  candidates.filterMap fun candidate => (parse candidate).map fun version => (candidate, version)

/-- `resolve`. -/
def resolve (checked : Bool) (requirement : Text) (candidates : List Text) :
    Except Failure (Option Text) := do
  let bounds ← bounds checked requirement
  return (maxBy (fun left right => left.2.cmp right.2)
    ((versions candidates).filter (within bounds))).map Prod.fst

/-- The version is within all bounds. -/
def Satisfies (bounds : List (Operator × Version)) (version : Version) : Prop :=
  ∀ bound ∈ bounds, compare version bound.1 bound.2 = true

/-- A candidate is a version within all bounds. -/
def Eligible (bounds : List (Operator × Version)) (candidate : Text) (version : Version) : Prop :=
  parse candidate = some version ∧ Satisfies bounds version

/-- The answer is a highest eligible candidate, or there is none. -/
def Highest (bounds : List (Operator × Version)) (candidates : List Text) : Option Text → Prop
  | some found => found ∈ candidates ∧ ∃ version, Eligible bounds found version ∧
      ∀ other ∈ candidates, ∀ another, Eligible bounds other another → (another.cmp version).isLE
  | none => ∀ other ∈ candidates, ∀ another, ¬Eligible bounds other another

/-- The two kinds of ranges. -/
inductive Range where
  | caret
  | tilde
  deriving DecidableEq

namespace Range

/-- The character that a range starts with. -/
def mark : Range → Char
  | caret => '^'
  | tilde => '~'

/-- What the versions of the series of a base share: some components of the core, and the last
component that counts. -/
def series : Range → Version → List Nat × Nat
  | caret, base =>
    if 0 < base.major then ([], base.major)
    else if 0 < base.minor then ([0], base.minor)
    else ([0, 0], base.patch)
  | tilde, base => ([base.major], base.minor)

/-- The first core behind the series of a base, filled up with zeros. -/
def nextCore (range : Range) (base : Version) : List Nat :=
  (range.series base).1 ++ [(range.series base).2 + 1]

/-- The lowest pre-release of the next core. -/
def next (range : Range) (base : Version) : Version :=
  let core := range.nextCore base
  .lowest (core.getD 0 0) (core.getD 1 0) (core.getD 2 0)

end Range

/-- The core of a version. -/
def core (version : Version) : List Nat := [version.major, version.minor, version.patch]

/-- What a range accepts: the versions from its base up to the lowest pre-release of the next core.
So it accepts what its own series has from the base on, and nothing of the next series. -/
structure Accepts (range : Range) (base : Version) (bounds : List (Operator × Version)) : Prop where
  iff : ∀ version, Satisfies bounds version ↔
    (base.cmp version).isLE ∧ version.cmp (range.next base) = .lt
  own : ∀ version, (range.series base).1 ++ [(range.series base).2] <+: core version →
    (base.cmp version).isLE → Satisfies bounds version
  notNext : ∀ version, range.nextCore base <+: core version → ¬Satisfies bounds version

/-- A requirement is exact: reading it does not overflow, resolving it gives the highest eligible
candidate whatever the order of the candidates, and a range accepts what it should. -/
structure Exact (checked : Bool) (requirement : Text) : Prop where
  total : bounds checked requirement ≠ .error .overflow
  resolves : ∀ read, bounds checked requirement = .ok read → ∀ candidates,
    ∃ answer, resolve checked requirement candidates = .ok answer ∧
      Highest read candidates answer ∧
      ∀ reordered, reordered.Perm candidates → ∃ other,
        resolve checked requirement reordered = .ok other ∧ other.bind parse = answer.bind parse
  accepts : ∀ (range : Range) base lower, requirement = range.mark :: base →
    parse base = some lower → ∃ read, bounds checked requirement = .ok read ∧
      Accepts range lower read

/-- The component that a range increments is not at the limit of 64 bits. -/
def Incrementable (requirement : Text) : Prop :=
  ∀ (range : Range) base lower, requirement = range.mark :: base → parse base = some lower →
    (range.series lower).2 < u64Limit

variable {checked : Bool}

theorem addOne_of_lt {number : Nat} (less : number < u64Limit) :
    addOne checked number = .ok (number + 1) :=
  if_pos less

theorem addOne_of_limit {number : Nat} (limit : ¬number < u64Limit) :
    addOne checked number = if checked then .error .overflow else .ok 0 :=
  if_neg limit

theorem compare_gte_iff {version bound : Version} :
    compare version .gte bound = true ↔ (bound.cmp version).isLE := by
  have swapped : bound.cmp version = (version.cmp bound).swap := Std.OrientedCmp.eq_swap
  rw [swapped, compare]
  cases version.cmp bound <;> decide

theorem satisfies_range_iff {lower upper version : Version} :
    Satisfies [(.gte, lower), (.lt, upper)] version ↔
      (lower.cmp version).isLE ∧ version.cmp upper = .lt := by
  rw [← compare_gte_iff]
  simp [Satisfies, compare]

namespace Range

/-- The upper bound as the source computes it. -/
def upper (checked : Bool) : Range → Version → Except Failure Version
  | caret => caretUpper checked
  | tilde => tildeUpper checked

variable {range : Range} {checked : Bool} {base : Version}

theorem upper_of_lt
    (less : (range.series base).2 < u64Limit) :
    range.upper checked base = .ok (range.next base) := by
  cases range with
  | caret =>
    simp only [upper, caretUpper, next, nextCore, series] at less ⊢
    split_ifs at less ⊢ <;> rw [addOne_of_lt less] <;> rfl
  | tilde =>
    simp only [upper, tildeUpper, next, nextCore, series] at less ⊢
    rw [addOne_of_lt less]
    rfl

theorem upper_of_limit
    (limit : ¬(range.series base).2 < u64Limit) : range.upper true base = .error .overflow := by
  cases range with
  | caret =>
    simp only [upper, caretUpper, series] at limit ⊢
    split_ifs at limit ⊢ <;> rw [addOne_of_limit limit] <;> rfl
  | tilde =>
    simp only [upper, tildeUpper, series] at limit ⊢
    rw [addOne_of_limit limit]
    rfl

theorem upper_of_wrap (limit : ¬(range.series base).2 < u64Limit) :
    ∃ bound, range.upper false base = .ok bound ∧ base.cmp bound ≠ .lt := by
  cases range with
  | caret =>
    simp only [upper, caretUpper, series] at limit ⊢
    split_ifs at limit ⊢ <;> rw [addOne_of_limit limit] <;>
      exact ⟨_, rfl, by simp [floor, Version.cmp_lowest_iff]⟩
  | tilde =>
    simp only [upper, tildeUpper, series] at limit ⊢
    rw [addOne_of_limit limit]
    exact ⟨_, rfl, by simp [floor, Version.cmp_lowest_iff]⟩

theorem series_isPrefix (range : Range) (base : Version) :
    (range.series base).1 ++ [(range.series base).2] <+: core base := by
  cases range with
  | caret =>
    simp only [series]
    split_ifs <;> simp [core] <;> omega
  | tilde => simp [series, core]

theorem cmp_next_of_own {base version : Version}
    (own : (range.series base).1 ++ [(range.series base).2] <+: core version) :
    version.cmp (range.next base) = .lt := by
  rw [next, Version.cmp_lowest_iff]
  cases range with
  | caret =>
    simp only [series, nextCore] at own ⊢
    split_ifs at own ⊢ <;> simp [core] at own ⊢ <;> omega
  | tilde =>
    simp [series, nextCore, core] at own ⊢
    omega

theorem cmp_next_of_next {base version : Version}
    (later : range.nextCore base <+: core version) : version.cmp (range.next base) ≠ .lt := by
  rw [next, Ne, Version.cmp_lowest_iff]
  cases range with
  | caret =>
    simp only [series, nextCore] at later ⊢
    split_ifs at later ⊢ <;> simp [core] at later ⊢ <;> omega
  | tilde =>
    simp [series, nextCore, core] at later ⊢
    omega

theorem accepts_next (range : Range) (base : Version) :
    Accepts range base [(.gte, base), (.lt, range.next base)] where
  iff _ := satisfies_range_iff
  own _ own above := satisfies_range_iff.mpr ⟨above, cmp_next_of_own own⟩
  notNext _ later within := cmp_next_of_next later (satisfies_range_iff.mp within).2

theorem bounds_mark (checked : Bool) (range : Range) (base : Text) :
    bounds checked (range.mark :: base) =
      rangeBounds (range.upper checked) (range.mark :: base) base := by
  cases range <;> rfl

theorem bounds_of_base {base : Text} {lower : Version} (parsed : parse base = some lower) :
    bounds checked (range.mark :: base) =
      (range.upper checked lower).map fun upper => [(.gte, lower), (.lt, upper)] := by
  simp only [bounds_mark, rangeBounds, parseIn, parsed]
  change (range.upper checked lower).bind _ = _
  cases range.upper checked lower <;> rfl

theorem bounds_of_no_base {base : Text} (unparsed : parse base = none) :
    bounds checked (range.mark :: base) = .error (invalid (range.mark :: base)) := by
  rw [bounds_mark, rangeBounds, parseIn, unparsed]
  rfl

end Range

/-- Candidates are compared by their versions. -/
instance : Std.TransCmp fun left right : Text × Version => left.2.cmp right.2 where
  eq_swap := Std.OrientedCmp.eq_swap
  isLE_trans := Std.TransCmp.isLE_trans

/-- The candidates among which the highest one is chosen. -/
def eligible (bounds : List (Operator × Version)) (candidates : List Text) :
    List (Text × Version) :=
  (versions candidates).filter (within bounds)

theorem mem_eligible {bounds : List (Operator × Version)} {candidates : List Text}
    {candidate : Text} {version : Version} :
    (candidate, version) ∈ eligible bounds candidates ↔
      candidate ∈ candidates ∧ Eligible bounds candidate version := by
  simp only [eligible, versions, within, Eligible, Satisfies, List.mem_filter, List.mem_filterMap,
    Option.map_eq_some_iff, Prod.mk.injEq, List.all_eq_true]
  constructor
  · rintro ⟨⟨_, member, _, parsed, rfl, rfl⟩, inside⟩
    exact ⟨member, parsed, inside⟩
  · rintro ⟨member, parsed, inside⟩
    exact ⟨⟨_, member, _, parsed, rfl, rfl⟩, inside⟩

/-- The answer for some bounds. -/
def highest (bounds : List (Operator × Version)) (candidates : List Text) : Option Text :=
  (maxBy (fun left right => left.2.cmp right.2) (eligible bounds candidates)).map Prod.fst

theorem resolve_of_bounds {requirement : Text} {read : List (Operator × Version)}
    (reads : bounds checked requirement = .ok read) (candidates : List Text) :
    resolve checked requirement candidates = .ok (highest read candidates) := by
  rw [resolve, reads]
  rfl

/-- The highest version is one that matches, and no matching version is above it. -/
theorem highest_correct (read : List (Operator × Version)) (candidates : List Text) :
    Highest read candidates (highest read candidates) := by
  rw [highest]
  cases found : maxBy (fun left right : Text × Version => left.2.cmp right.2)
      (eligible read candidates) with
  | none =>
    intro other member another within
    have empty := maxBy_eq_none.mp found
    exact List.ne_nil_of_mem (mem_eligible.mpr ⟨member, within⟩) empty
  | some greatest =>
    obtain ⟨candidate, version⟩ := greatest
    obtain ⟨member, within⟩ := mem_eligible.mp (mem_of_maxBy found)
    exact ⟨member, version, within, fun other otherMember another otherWithin =>
      isLE_of_maxBy found (mem_eligible.mpr ⟨otherMember, otherWithin⟩)⟩

theorem parse_highest_perm (read : List (Operator × Version)) {candidates reordered : List Text}
    (perm : reordered.Perm candidates) :
    (highest read reordered).bind parse = (highest read candidates).bind parse := by
  have same : ∀ one, one ∈ eligible read reordered ↔ one ∈ eligible read candidates :=
    fun (candidate, version) => by rw [mem_eligible, mem_eligible, perm.mem_iff]
  rw [highest, highest]
  cases here : maxBy (fun left right : Text × Version => left.2.cmp right.2)
      (eligible read reordered) with
  | none =>
    have empty : eligible read candidates = [] :=
      List.eq_nil_iff_forall_not_mem.mpr fun one member =>
        List.ne_nil_of_mem ((same one).mpr member) (maxBy_eq_none.mp here)
    rw [empty]
    rfl
  | some chosen =>
    cases there : maxBy (fun left right : Text × Version => left.2.cmp right.2)
        (eligible read candidates) with
    | none =>
      exact absurd (maxBy_eq_none.mp there)
        (List.ne_nil_of_mem ((same chosen).mp (mem_of_maxBy here)))
    | some other =>
      have tie : chosen.2.cmp other.2 = .eq := compares_maxBy same here there
      have equal := Std.LawfulEqCmp.eq_of_compare tie
      have parsed := (mem_eligible.mp (mem_of_maxBy here)).2.1
      have otherParsed := (mem_eligible.mp (mem_of_maxBy there)).2.1
      change parse chosen.1 = parse other.1
      rw [parsed, otherParsed, equal]

theorem parseIn_ne_overflow (requirement value : Text) :
    parseIn requirement value ≠ .error .overflow := by
  rw [parseIn]
  split <;> exact nofun

theorem mapM_parseIn_ne_overflow (requirement : Text) (comparators : List Text) :
    (comparators.mapM fun comparator => do
      let (operator, version) := splitComparator comparator
      return (operator, ← parseIn requirement version)) ≠ Except.error Failure.overflow := by
  intro overflows
  obtain ⟨comparator, -, failed⟩ := exists_error_of_mapM overflows
  have first := parseIn_ne_overflow requirement (splitComparator comparator).2
  cases parsed : parseIn requirement (splitComparator comparator).2 with
  | ok version =>
    simp only [parsed] at failed
    cases failed
  | error failure =>
    simp only [parsed] at failed
    cases failed
    exact first parsed

theorem limit_of_overflow {requirement : Text}
    (overflows : bounds checked requirement = .error .overflow) :
    ∃ (range : Range) (base : Text) (lower : Version), requirement = range.mark :: base ∧
      parse base = some lower ∧ ¬(range.series lower).2 < u64Limit := by
  have ranged : ∀ (range : Range) base, requirement = range.mark :: base →
      ∃ (range : Range) (base : Text) (lower : Version), requirement = range.mark :: base ∧
        parse base = some lower ∧ ¬(range.series lower).2 < u64Limit := by
    rintro range base rfl
    cases parsed : parse base with
    | none =>
      rw [Range.bounds_of_no_base parsed] at overflows
      cases overflows
    | some lower =>
      refine ⟨range, base, lower, rfl, parsed, fun less => ?_⟩
      rw [Range.bounds_of_base parsed, Range.upper_of_lt less] at overflows
      cases overflows
  rw [bounds] at overflows
  split at overflows
  next base caret => exact ranged .caret base (afterChar_eq_some_iff.mp caret)
  · split at overflows
    next base tilde => exact ranged .tilde base (afterChar_eq_some_iff.mp tilde)
    · exact absurd overflows (mapM_parseIn_ne_overflow requirement _)

theorem not_exact_of_limit {checked : Bool} {range : Range} {base : Text} {lower : Version}
    (parsed : parse base = some lower) (limit : ¬(range.series lower).2 < u64Limit) :
    ¬Exact checked (range.mark :: base) := by
  intro exactly
  cases checked with
  | true =>
    apply exactly.total
    rw [Range.bounds_of_base parsed, Range.upper_of_limit limit]
    rfl
  | false =>
    obtain ⟨read, reads, accepts⟩ := exactly.accepts range base lower rfl parsed
    obtain ⟨bound, wraps, above⟩ := Range.upper_of_wrap limit
    rw [Range.bounds_of_base parsed, wraps] at reads
    cases reads
    have within := accepts.own lower (range.series_isPrefix lower) (isLE_self lower)
    exact above (satisfies_range_iff.mp within).2

/-- A requirement is exact if and only if the component that a range increments is not at the limit
of 64 bits, whether or not additions are checked. -/
theorem exact_iff (checked : Bool) (requirement : Text) :
    Exact checked requirement ↔ Incrementable requirement := by
  constructor
  · rintro exactly range base lower rfl parsed
    by_contra limit
    exact not_exact_of_limit parsed limit exactly
  · intro incrementable
    refine ⟨fun overflows => ?_, fun read reads candidates => ?_, ?_⟩
    · obtain ⟨range, base, lower, marked, parsed, limit⟩ := limit_of_overflow overflows
      exact limit (incrementable range base lower marked parsed)
    · refine ⟨_, resolve_of_bounds reads candidates, highest_correct read candidates, ?_⟩
      intro reordered perm
      exact ⟨_, resolve_of_bounds reads reordered, parse_highest_perm read perm⟩
    · rintro range base lower rfl parsed
      refine ⟨_, ?_, range.accepts_next lower⟩
      rw [Range.bounds_of_base parsed,
        Range.upper_of_lt (incrementable range base lower rfl parsed)]
      rfl

/-- The `^` range of the greatest major version is not exact. -/
theorem caret_limit_not_exact : ¬Exact true "^18446744073709551615.0.0".toList ∧
    ¬Exact false "^18446744073709551615.0.0".toList := by
  have parsed : parse "18446744073709551615.0.0".toList = some ⟨u64Limit, 0, 0, []⟩ := by
    decide +kernel
  have inexact checked := @not_exact_of_limit checked .caret _ _ parsed (by decide)
  exact ⟨inexact true, inexact false⟩

example : resolve true "^1.0.0".toList (["1.0.0", "1.4.0", "2.0.0", "1.4.1-rc.1"].map (·.toList)) =
    .ok (some "1.4.1-rc.1".toList) := by decide +kernel

end Mdbase.Contracts
