import Mdbase.Cel.Evaluation
import Mdbase.Query.HostedReduction

/-!
# Candidate predicates

The filter of a query is lowered to a predicate over the projected facts of a
record. A provider may drop a row only when the predicate is false; whatever the
lowering does not understand stays open and reaches the canonical filter.
-/

namespace Mdbase.Query

open Library Mdbase.Runtime Mdbase.Cel

/-- `CandidateComparisonOperator`. -/
inductive CandidateComparisonOperator where
  | equal
  | notEqual
  | lessThan
  | lessThanOrEqual
  | greaterThan
  | greaterThanOrEqual
  | in_
  | contains
  deriving DecidableEq

/-- `CandidateComparisonPruning`. -/
inductive CandidateComparisonPruning where
  | exactJson
  | normalizedTagHierarchy
  | isoDateOnlyString
  | conservative
  deriving DecidableEq

/-- `CandidateComparison`. -/
structure CandidateComparison where
  field : CandidateField
  operator : CandidateComparisonOperator
  value : Value
  pruning : CandidateComparisonPruning
  deriving DecidableEq

/-- `CandidatePredicate`. -/
inductive CandidatePredicate where
  | all
  | none
  | and (terms : List CandidatePredicate)
  | or (terms : List CandidatePredicate)
  | not (term : CandidatePredicate)
  | hasType (typeName : String)
  | pathInFolder (folder : String)
  | compare (comparison : CandidateComparison)

/-- The parsers of the libraries that decide what a text may stand for. -/
structure TextParsers where
  /-- `str::parse::<f64>` succeeds. -/
  number : String → Bool
  /-- `DateTime::parse_from_rfc3339`. -/
  instant : String → Option DateTime
  /-- `NaiveDate::parse_from_str` with the format `%Y-%m-%d` succeeds. -/
  date : String → Bool
  /-- `NaiveDateTime::parse_from_str` with the format `%Y-%m-%dT%H:%M:%S` succeeds. -/
  dateTime : String → Bool

namespace TextParsers

variable (parsers : TextParsers)

/-- `ambiguous_canonical_string`. -/
def ambiguous (value : String) : Bool :=
  parsers.number value || (parsers.instant value).isSome || parsers.date value ||
    parsers.dateTime value

/-- `is_iso_date_only`. -/
def isIsoDateOnly (value : String) : Bool :=
  value.utf8ByteSize = 10 && value.toUTF8.toList[4]? = some 45 &&
    value.toUTF8.toList[7]? = some 45 && parsers.date value

/-- The exact scalars of `comparison_pruning`. -/
def exactScalar : Value → Bool
  | .null | .bool _ => true
  | .string value => !parsers.ambiguous value
  | .number _ | .array _ | .object _ => false

end TextParsers

namespace CandidateComparisonOperator

/-- Equality, or its negation. -/
def isEquality (operator : CandidateComparisonOperator) : Bool :=
  operator = .equal || operator = .notEqual

/-- The orderings that an ordering operator accepts. -/
def accepts : CandidateComparisonOperator → Option (Ordering → Bool)
  | .lessThan => some Ordering.isLT
  | .lessThanOrEqual => some Ordering.isLE
  | .greaterThan => some Ordering.isGT
  | .greaterThanOrEqual => some Ordering.isGE
  | _ => Option.none

end CandidateComparisonOperator

/-- `comparison_pruning`. -/
def comparisonPruning (parsers : TextParsers) (operator : CandidateComparisonOperator)
    (value : Value) : CandidateComparisonPruning :=
  if value.asStr.any parsers.isIsoDateOnly &&
      (operator.isEquality || operator.accepts.isSome) then
    .isoDateOnlyString
  else
    let exact : Bool :=
      match operator with
      | .equal | .notEqual => parsers.exactScalar value
      | .in_ => value.asArray.any fun values => values.all parsers.exactScalar
      | .contains => parsers.exactScalar value
      | _ =>
        match value with
        | .number _ => true
        | .string text => !parsers.ambiguous text
        | _ => false
    if exact then .exactJson else .conservative

/-- `expression_path`. -/
def expressionPath : Expr → Option String
  | .ident name => some name
  | .select operand field false => (expressionPath operand).map (· ++ "." ++ field)
  | .call "_[_]" Option.none [parent, .literal (.string field)] =>
    (expressionPath parent).map (· ++ "." ++ field)
  | _ => Option.none

/-- The JSON number of an integer. -/
def integerValue (value : Int) : Value :=
  .number (if 0 ≤ value then .posInt value.toNat else .negInt value)

mutual

/-- `literal`. -/
def literalJson : Expr → Option Value
  | .literal .null => some .null
  | .literal (.boolean value) => some (.bool value)
  | .literal (.int value) => some (integerValue value)
  | .literal (.uint value) => some (.number (.posInt value))
  | .literal (.double (.finite value)) => some (.number (.float value))
  | .literal (.string value) => some (.string value)
  | .list elements optionalIndices =>
    if optionalIndices.isEmpty then (literalItems elements).map .array else Option.none
  | _ => Option.none

/-- The elements of a list of literals. -/
def literalItems : List Expr → Option (List Value)
  | [] => some []
  | element :: rest => (literalJson element).bind fun value => (literalItems rest).map (value :: ·)

end

/-- `lower_field`. -/
def lowerField (expression : Expr) : Option CandidateField :=
  (expressionPath expression).bind lowerQueryField

/-- `field_and_literal`. -/
def fieldAndLiteral (field value : Expr) : Option (CandidateField × Value) :=
  (lowerField field).bind fun field => (literalJson value).map fun value => (field, value)

/-- The comparison that an operator stands for; `reversed` when the field is on its right. -/
def comparisonOperator : (operator : String) → (reversed : Bool) →
    Option CandidateComparisonOperator
  | "_==_", _ => some .equal
  | "_!=_", _ => some .notEqual
  | "_<_", false | "_>_", true => some .lessThan
  | "_<=_", false | "_>=_", true => some .lessThanOrEqual
  | "_>_", false | "_<_", true => some .greaterThan
  | "_>=_", false | "_<=_", true => some .greaterThanOrEqual
  | "@in", false => some .in_
  | "@in", true => some .contains
  | _, _ => Option.none

/-- `LoweredPredicate`. -/
structure LoweredPredicate where
  predicate : CandidatePredicate
  complete : Bool

/-- The comparison of a field with a literal. -/
def TextParsers.comparison (parsers : TextParsers) (field : CandidateField)
    (operator : CandidateComparisonOperator) (value : Value) : CandidateComparison where
  field := field
  operator := operator
  value := value
  pruning := comparisonPruning parsers operator value

/-- A comparison operator between a field and a literal, in either order. -/
def lowerComparison (parsers : TextParsers) (operator : String) (left right : Expr) :
    Option CandidateComparison :=
  match fieldAndLiteral left right with
  | some (field, value) =>
    (comparisonOperator operator false).map fun operator =>
      parsers.comparison field operator value
  | Option.none =>
    (fieldAndLiteral right left).bind fun (field, value) =>
      (comparisonOperator operator true).map fun operator =>
        parsers.comparison field operator value

/-- A method `inFolder` of the file with a literal folder. -/
def lowerInFolder (receiver argument : Expr) : Option CandidatePredicate :=
  if expressionPath receiver = some "file" then
    match literalJson argument with
    | some (.string folder) => some (.pathInFolder (trimEnd '/' folder))
    | _ => Option.none
  else Option.none

/-- A method `contains` of a field with a literal. -/
def lowerContains (parsers : TextParsers) (receiver argument : Expr) :
    Option CandidateComparison :=
  (fieldAndLiteral receiver argument).map fun (field, value) =>
    parsers.comparison field .contains value

/-- Both sides of a conjunction, or the one that could be lowered. -/
def conjoin : (left right : Option LoweredPredicate) → Option LoweredPredicate
  | some left, some right =>
    some
      { predicate := .and [left.predicate, right.predicate]
        complete := left.complete && right.complete }
  | some safe, Option.none | Option.none, some safe =>
    some { predicate := safe.predicate, complete := false }
  | Option.none, Option.none => Option.none

/-- Both sides of a disjunction, if they were lowered completely. -/
def disjoin (left right : Option LoweredPredicate) : Option LoweredPredicate :=
  left.bind fun left => right.bind fun right =>
    if left.complete && right.complete then
      some { predicate := .or [left.predicate, right.predicate], complete := true }
    else Option.none

/-- The negation of a completely lowered term. -/
def negate (inner : Option LoweredPredicate) : Option LoweredPredicate :=
  inner.bind fun inner =>
    if inner.complete then some { predicate := .not inner.predicate, complete := true }
    else Option.none

/-- A predicate that stands for the whole expression. -/
def LoweredPredicate.whole (predicate : CandidatePredicate) : LoweredPredicate where
  predicate := predicate
  complete := true

/-- `lower_expression`. -/
def lowerExpression (parsers : TextParsers) : Expr → Option LoweredPredicate
  | .literal (.boolean value) => some (.whole (if value then .all else .none))
  | .call "_&&_" Option.none [left, right] =>
    conjoin (lowerExpression parsers left) (lowerExpression parsers right)
  | .call "_||_" Option.none [left, right] =>
    disjoin (lowerExpression parsers left) (lowerExpression parsers right)
  | .call "!_" Option.none [inner] => negate (lowerExpression parsers inner)
  | .call operator Option.none [left, right] =>
    (lowerComparison parsers operator left right).map fun comparison =>
      .whole (.compare comparison)
  | .call "inFolder" (some receiver) [argument] => (lowerInFolder receiver argument).map .whole
  | .call "contains" (some receiver) [argument] =>
    (lowerContains parsers receiver argument).map fun comparison => .whole (.compare comparison)
  | _ => Option.none

/-- The facts of a `SemanticProjection` that a candidate predicate and its checks read. -/
structure SemanticProjection where
  catalogRevision : String
  semanticEngineVersion : String
  path : String
  types : List String
  persistedFrontmatter : List (String × Value)
  effectiveFrontmatter : List (String × Value)
  semanticComplete : Bool
  /-- `integrity_is_current_for` holds of the envelope and the structure. -/
  integrity : Bool

/-- `nested`. -/
def nested (root : List (String × Value)) : (path : List String) → Option Value
  | [] => Option.none
  | first :: rest =>
    ((Value.object root).get first).bind fun value =>
      rest.foldlM (fun (value : Value) segment => value.get segment) value

/-- `projection_value`. -/
def projectionValue (projection : SemanticProjection) : CandidateField → Option Value
  | .persistedFrontmatter path => nested projection.persistedFrontmatter path
  | .effectiveFrontmatter path => nested projection.effectiveFrontmatter path
  | .path | .types | .file _ | .bodyTags => Option.none

/-- The folder of a record, the part of its path before the last separator. -/
def recordFolder (path : String) : String :=
  String.ofList ((path.toList.reverse.dropWhile (· ≠ '/')).drop 1).reverse

/-- `path_is_in_folder`. -/
def pathIsInFolder (path folder : String) : Bool :=
  let folder := trimEnd '/' folder
  let actual := recordFolder path
  actual = folder ||
    (folder ≠ "" && (stripped folder actual).any fun suffix => ['/'].isPrefixOf suffix.toList)

/-- `compare`. -/
def compareJson (left : Value) (operator : CandidateComparisonOperator) (right : Value) : Truth :=
  match operator with
  | .equal => .ofBool (left = right)
  | .notEqual => .ofBool (left ≠ right)
  | .in_ =>
    match right.asArray with
    | some values => .ofBool (left ∈ values)
    | Option.none => .unknown
  | .contains =>
    match left, right with
    | .array values, right => .ofBool (right ∈ values)
    | .string text, .string part => .ofBool (CelValue.hasText text part)
    | _, _ => .unknown
  | operator =>
    match operator.accepts, left, right with
    | some accepts, .string left, .string right => .ofBool (accepts (compare left right))
    | some accepts, .number left, .number right =>
      .ofBool (accepts (compare left.asF64 right.asF64))
    | _, _, _ => .unknown

mutual

/-- `evaluate_predicate`. -/
def evaluatePredicate (projection : SemanticProjection) : CandidatePredicate → Truth
  | .all => .holds
  | .none => .fails
  | .and terms => .all (evaluatePredicates projection terms)
  | .or terms => .any (evaluatePredicates projection terms)
  | .not term => (evaluatePredicate projection term).not
  | .hasType typeName => .ofBool (typeName ∈ projection.types)
  | .pathInFolder folder => .ofBool (pathIsInFolder projection.path folder)
  | .compare comparison =>
    if comparison.pruning = .exactJson then
      match projectionValue projection comparison.field with
      | some value => compareJson value comparison.operator comparison.value
      | Option.none => .unknown
    else .unknown

/-- The answers about several terms. -/
def evaluatePredicates (projection : SemanticProjection) : List CandidatePredicate → List Truth
  | [] => []
  | term :: rest => evaluatePredicate projection term :: evaluatePredicates projection rest

end

mutual

/-- `predicate_nodes`. -/
def predicateNodes : CandidatePredicate → Nat
  | .and terms | .or terms => 1 + predicateNodesAll terms
  | .not term => 1 + predicateNodes term
  | .all | .none | .hasType _ | .pathInFolder _ | .compare _ => 1

/-- The nodes of several terms. -/
def predicateNodesAll : List CandidatePredicate → Nat
  | [] => 0
  | term :: rest => predicateNodes term + predicateNodesAll rest

end

end Mdbase.Query
