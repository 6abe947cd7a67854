import Mdbase.Library.Table
import Mdbase.Query.Order

/-!
# Candidates, their order and their groups

A candidate is a record that passed the filters of a query, with everything the
remaining phases read. `sort_candidates` orders the candidates, `build_groups`
collects them into groups and summarises each group.

Double-precision arithmetic, the serialization of JSON values and the evaluation
of summary expressions are parameters.
-/

namespace Mdbase.Query

open Library Mdbase.Runtime

/-- A record that takes part in ordering, grouping and rendering. -/
structure Candidate where
  path : String
  revision : String
  types : List String
  raw : Value
  effective : Value
  body : String
  file : Value
  projections : List (String × Value)
  values : List (String × Value)
  deriving DecidableEq

/-- `str::strip_prefix`. -/
def stripped (mark field : String) : Option String :=
  if mark.toList.isPrefixOf field.toList then
    some (String.ofList (field.toList.drop mark.toList.length))
  else none

/-- `Map::get`, with null for an absent member. -/
def memberOrNull (value : Value) (name : String) : Value := (value.get name).getD .null

/-- `candidate_value`. -/
def candidateValue (candidate : Candidate) (field : String) : Value :=
  match stripped "projection." field with
  | some name => memberOrNull (.object candidate.projections) name
  | none =>
    match stripped "file." field with
    | some name => memberOrNull candidate.file name
    | none =>
      (((Value.object candidate.values).get field).or (candidate.effective.get field)).getD .null

/-- The comparison of `sort_candidates`: clause after clause, then the path. -/
def compareCandidates : (orderBy : List OrderBy) → (left right : Candidate) → Ordering
  | [], left, right => compare left.path right.path
  | order :: rest, left, right =>
    (compareValues (candidateValue left order.field) (candidateValue right order.field)
      order.direction).then (compareCandidates rest left right)

/-- `sort_candidates`. -/
def sortCandidates (candidates : List Candidate) (orderBy : List OrderBy) : List Candidate :=
  sortBy (compareCandidates orderBy) candidates

/-- The double-precision operations that the summaries use. -/
structure Doubles where
  Double : Type
  ofNumber : Number → Double
  ofCount : Nat → Double
  zero : Double
  infinity : Double
  negInfinity : Double
  add : Double → Double → Double
  div : Double → Double → Double
  min : Double → Double → Double
  max : Double → Double → Double
  /-- `number_value`. -/
  toValue : Double → Value

/-- One requested summary. -/
structure Summary where
  field : String
  function : String
  name : Option String := none
  deriving DecidableEq

/-- `Summary::output_name`. -/
def Summary.outputName (summary : Summary) : String := summary.name.getD summary.function

/-- A diagnostic of a query phase. -/
structure Diagnostic where
  severity : String
  code : String
  message : String
  path : Option String
  field : Option String
  typeName : Option String
  schemaLocation : Option String
  details : Option Value
  deriving DecidableEq

/-- `is_empty`. -/
def isEmptyValue : Value → Bool
  | .null => true
  | .string value => value.isEmpty
  | .array items => items.isEmpty
  | .object members => members.isEmpty
  | .bool _ => false
  | .number _ => false

/-- A count as a JSON number. -/
def countValue (count : Nat) : Value := .number (.posInt count)

/-- `Value::as_f64`. -/
def Doubles.asDouble (doubles : Doubles) : Value → Option doubles.Double
  | .number value => some (doubles.ofNumber value)
  | _ => none

/-- Why a summary of numbers has no value. -/
def nonNumericMessage (function : String) : String :=
  "Summary '" ++ function ++ "' received a non-numeric value."

/-- Why a summary of texts has no value. -/
def nonStringMessage (function : String) : String :=
  "Summary '" ++ function ++ "' received a non-string value."

/-- The number that a numeric summary computes from the numbers in order. -/
def Doubles.combine (doubles : Doubles) (function : String) (numbers : List doubles.Double) :
    doubles.Double :=
  match function with
  | "sum" => numbers.foldl doubles.add doubles.zero
  | "average" =>
    doubles.div (numbers.foldl doubles.add doubles.zero) (doubles.ofCount numbers.length)
  | "minimum" => numbers.foldl doubles.min doubles.infinity
  | _ => numbers.foldl doubles.max doubles.negInfinity

/-- `builtin_summary`. -/
def builtinSummary (doubles : Doubles) (function : String) (values : List Value) :
    Except String Value :=
  if function = "count" then .ok (countValue values.length)
  else if function = "empty" ∨ function = "filled" then
    let empty := values.countP isEmptyValue
    .ok (countValue (if function = "empty" then empty else values.length - empty))
  else
    let nonNull := values.filter (· ≠ .null)
    if nonNull.isEmpty then .ok .null
    else if function ∈ ["sum", "average", "minimum", "maximum"] then
      match nonNull.mapM doubles.asDouble with
      | some numbers => .ok (doubles.toValue (doubles.combine function numbers))
      | none => .error (nonNumericMessage function)
    else
      match nonNull.mapM Value.asStr with
      | some texts =>
        .ok (((if function = "earliest" then texts.min? else texts.max?).map .string).getD .null)
      | none => .error (nonStringMessage function)

/-- `is_builtin_summary`. -/
def isBuiltinSummary (function : String) : Bool :=
  function ∈ ["count", "sum", "average", "minimum", "maximum", "earliest", "latest", "empty",
    "filled"]

/-- The diagnostic of a built-in summary without a value. -/
def summaryDiagnostic (name message : String) : Diagnostic where
  severity := "warning"
  code := "expression_evaluation_error"
  message := message
  path := none
  field := some ("summaries." ++ name)
  typeName := none
  schemaLocation := none
  details := some (.object [("context", .string "query_summary")])

/-- What the grouping phase takes from the compiled query and its surroundings. -/
structure Grouping where
  groupBy : List OrderBy
  summaries : List Summary
  doubles : Doubles
  /-- `serde_json::to_string`. -/
  text : Value → String
  /-- The evaluation of a named summary expression over the values of its field. -/
  evaluate : Summary → List Value → Except Diagnostic Value

/-- The value of one summary over the candidates of a group. -/
def Grouping.summaryValue (grouping : Grouping) (summary : Summary) (candidates : List Candidate) :
    Except Diagnostic Value :=
  let values := candidates.map (candidateValue · summary.field)
  if isBuiltinSummary summary.function then
    (builtinSummary grouping.doubles summary.function values).mapError
      (summaryDiagnostic summary.outputName)
  else grouping.evaluate summary values

/-- `summarize`: an object with one member for each summary, null where it failed. -/
def Grouping.summarize (grouping : Grouping) (candidates : List Candidate) :
    Value × List Diagnostic :=
  grouping.summaries.foldl
    (fun (output, diagnostics) summary =>
      match grouping.summaryValue summary candidates with
      | .ok value => (output.set summary.outputName value, diagnostics)
      | .error diagnostic => (output.set summary.outputName .null, diagnostics ++ [diagnostic]))
    (.object [], [])

/-- The object of the values that a candidate has under the grouping fields. -/
def Grouping.groupValues (grouping : Grouping) (candidate : Candidate) : Value :=
  grouping.groupBy.foldl
    (fun values group => values.set group.field (candidateValue candidate group.field))
    (.object [])

/-- An entry of the map that collects the groups. -/
structure GroupEntry where
  key : String
  values : Value
  members : List Candidate

/-- A rendered group. -/
structure Group where
  values : Value
  count : Nat
  summaries : Value
  deriving DecidableEq

/-- Add a candidate to the group of its values. -/
def Grouping.collectOne (grouping : Grouping) (groups : Table GroupEntry.key)
    (candidate : Candidate) : Table GroupEntry.key :=
  let values := grouping.groupValues candidate
  let key := grouping.text values
  match groups.get? key with
  | some entry => groups.insert { entry with members := entry.members ++ [candidate] }
  | none => groups.insert { key := key, values := values, members := [candidate] }

/-- The groups of the candidates, in the order of their keys. -/
def Grouping.collect (grouping : Grouping) (candidates : List Candidate) : Table GroupEntry.key :=
  candidates.foldl grouping.collectOne .empty

/-- The comparison of two groups by their values, clause after clause. -/
def compareGroups : (groupBy : List OrderBy) → (left right : Value) → Ordering
  | [], _, _ => .eq
  | group :: rest, left, right =>
    (compareValues (memberOrNull left group.field) (memberOrNull right group.field)
      group.direction).then (compareGroups rest left right)

/-- The groups of the candidates in their final order. -/
def Grouping.ordered (grouping : Grouping) (candidates : List Candidate) : List GroupEntry :=
  sortBy (fun left right => compareGroups grouping.groupBy left.values right.values)
    (grouping.collect candidates).entries

/-- Render groups one after the other, with the diagnostics of their summaries. -/
def Grouping.render (grouping : Grouping) : List GroupEntry → List Group × List Diagnostic
  | [] => ([], [])
  | entry :: rest =>
    let (summaries, diagnostics) := grouping.summarize entry.members
    let (groups, more) := grouping.render rest
    ({ values := entry.values, count := entry.members.length, summaries := summaries } :: groups,
      diagnostics ++ more)

/-- `build_groups`. -/
def Grouping.buildGroups (grouping : Grouping) (candidates : List Candidate) :
    Option (List Group) × List Diagnostic :=
  if grouping.groupBy.isEmpty ∧ grouping.summaries.isEmpty then (none, [])
  else if grouping.groupBy.isEmpty then
    let (summaries, diagnostics) := grouping.summarize candidates
    (some [{ values := .object [], count := candidates.length, summaries := summaries }],
      diagnostics)
  else
    let (groups, diagnostics) := grouping.render (grouping.ordered candidates)
    (some groups, diagnostics)

end Mdbase.Query
