import Mdbase.Query.CandidatePredicate
import Mdbase.Query.MetadataPage

/-!
# The canonical filter and the verdict on a candidate

The canonical filter evaluates the query's condition on the record of an exact
document. The verdict decides from the projected facts of the same record whether a
provider may drop it. Types, effective frontmatter, the other members of the file
value and the values of named projections come from parts of a compiled catalog
that both sides ask alike; they are parameters.
-/

namespace Mdbase.Query

open Library Mdbase.Runtime Mdbase.Cel

/-- The filter of a query, with its condition parsed. -/
structure FilterQuery where
  types : List String
  whereExpression : Option Expr

/-- The part of a hosted query plan that decides about candidates. -/
structure CandidatePlan where
  catalogRevision : String
  semanticEngineVersion : String
  planDigest : String
  candidate : CandidatePredicate
  filterFullyProjected : Bool
  diagnosticTypeMatchers : Bool

/-- An exact record: its path, which is relative to the collection, its frontmatter
unless that is not a mapping, and what its body contributes. -/
structure RecordDocument where
  path : String
  relative : ¬['/'] <+: path.toList
  frontmatter : Option (List (String × Value))
  body : String
  /-- No link of the document is malformed. -/
  linksWellFormed : Bool

/-- What both sides ask of a compiled catalog at one instant. -/
structure Catalog where
  resourceRevision : String
  engineVersion : String
  hasDiagnosticTypeMatchers : Bool
  /-- `determine_types_for_path`. -/
  determineTypes : Value → (path : String) → List String
  /-- Defaults, coercion and computed fields of a record. -/
  effective : Value → (types : List String) → (path body : String) → Value
  /-- `body_dependent_computed_fields`. -/
  bodyDependentComputedFields : (types : List String) → List String
  /-- `date_time_fields`. -/
  dateTimeFields : (types : List String) → List String
  /-- `str::to_lowercase`. -/
  toLowercase : String → String
  /-- `integrity_digest`, of a plan without its digest. -/
  digest : CandidatePlan → String
  parsers : TextParsers
  engine : Cel.Engine

/-- What the evaluation of a condition finds besides the record. -/
structure FilterContext where
  /-- The values of the query's named projections. -/
  projections : List (String × Value)
  /-- The record that the query was started from. -/
  this : Option CelValue
  /-- The members of the file value besides its path and its folder. -/
  fileFacts : List (String × CelValue)

/-- `Value::as_object`, with no members for other values. -/
def membersOf : Value → List (String × Value)
  | .object members => members
  | _ => []

namespace Catalog

variable (catalog : Catalog)

/-- The persisted frontmatter of a record. -/
def rawOf (record : RecordDocument) : Value := .object (record.frontmatter.getD [])

/-- The types of a record. -/
def typesOf (record : RecordDocument) : List String :=
  catalog.determineTypes (rawOf record) record.path

/-- The effective frontmatter of a record. -/
def effectiveOf (record : RecordDocument) : Value :=
  catalog.effective (rawOf record) (catalog.typesOf record) record.path record.body

/-- `enrich_record_bindings`. -/
def enrichRecordBindings (effective raw : Value) : Value :=
  ((Value.object ((membersOf effective).filter fun member => member.1 ∉ reservedRoots)).set
    "record" (.object (membersOf effective))).set "raw" (.object (membersOf raw))

/-- `candidate_context`: the bindings of a candidate. -/
def candidateBindings (context : FilterContext) (record : RecordDocument) : Value :=
  ((enrichRecordBindings (catalog.effectiveOf record) (rawOf record)).set "projection"
    (.object context.projections)).set "types" (.array ((catalog.typesOf record).map .string))

/-- `file_value` of the host. -/
def fileValue (context : FilterContext) (record : RecordDocument) : CelValue :=
  .map ([("path", .string record.path), ("folder", .string (recordFolder record.path))] ++
    context.fileFacts)

/-- The value of an identifier: the file, a converted binding, the invocation
context, or null for an unreserved name that is not bound. -/
def resolve (context : FilterContext) (record : RecordDocument) (name : String) :
    Option CelValue :=
  let dateTimes := catalog.dateTimeFields (catalog.typesOf record)
  if name = "file" then some (fileValue context record)
  else
    match (catalog.candidateBindings context record).get name with
    | some value =>
      some (if name ∈ ["record", "raw", "old"] then
          typedObject catalog.parsers.instant dateTimes value
        else typedField catalog.parsers.instant dateTimes name value)
    | none =>
      if name = "this" then some (context.this.getD .null)
      else if name ∈ reservedRoots then none
      else some .null

/-- The canonical value of a condition. -/
def evaluate (context : FilterContext) (record : RecordDocument) (expression : Expr) :
    Option CelValue :=
  eval catalog.engine (catalog.resolve context record) expression

/-- The record has one of the types that the query asks for. -/
def typesMatch (query : FilterQuery) (types : List String) : Bool :=
  query.types.isEmpty ||
    types.any fun actual => query.types.any fun wanted => asciiLower wanted = asciiLower actual

/-- The answer `matched` of `evaluate_hosted_residual`. -/
def matched (query : FilterQuery) (context : FilterContext) (record : RecordDocument) : Bool :=
  typesMatch query (catalog.typesOf record) &&
    query.whereExpression.all fun expression =>
      CelValue.isTrue catalog.engine (catalog.evaluate context record expression)

/-- `project_record`, finalized. The types are sorted and without repetition. -/
def projectRecord (record : RecordDocument) : SemanticProjection where
  catalogRevision := catalog.resourceRevision
  semanticEngineVersion := catalog.engineVersion
  path := record.path
  types := (((catalog.typesOf record).map catalog.toLowercase).insertionSort (· ≤ ·)).dedup
  persistedFrontmatter := record.frontmatter.getD []
  effectiveFrontmatter :=
    -- a record without a mapping is not read; its projection is incomplete
    if record.frontmatter.isSome then
      (membersOf (catalog.effectiveOf record)).filter fun member =>
        member.1 ∉ catalog.bodyDependentComputedFields (catalog.typesOf record)
    else []
  semanticComplete := record.frontmatter.isSome && record.linksWellFormed &&
    (catalog.bodyDependentComputedFields (catalog.typesOf record)).isEmpty
  integrity := true

/-- `conjunction`. -/
def conjunction : List CandidatePredicate → CandidatePredicate
  | [] => .all
  | [term] => term
  | terms => .and terms

/-- `MAX_PREDICATE_NODES`. -/
def maxPredicateNodes : Nat := 256

/-- The candidate predicate of a query. -/
def candidateOf (query : FilterQuery) : CandidatePredicate :=
  conjunction
    ((if query.types.isEmpty then []
      else [.or (query.types.map fun name => .hasType (catalog.toLowercase name))]) ++
    (((query.whereExpression.bind (lowerExpression catalog.parsers)).map
      LoweredPredicate.predicate).toList))

/-- The plan of a query before it carries its digest. -/
def unsignedPlan (query : FilterQuery) : CandidatePlan where
  catalogRevision := catalog.resourceRevision
  semanticEngineVersion := catalog.engineVersion
  planDigest := ""
  candidate := catalog.candidateOf query
  filterFullyProjected := query.whereExpression.isNone
  diagnosticTypeMatchers := catalog.hasDiagnosticTypeMatchers

/-- `compile_hosted_query`, as far as it decides about candidates. -/
def compileHostedQuery (query : FilterQuery) : Except CatalogError CandidatePlan :=
  if predicateNodes (catalog.candidateOf query) > maxPredicateNodes then
    .error
      { code := "query_operator_limit_exceeded"
        message := "Hosted candidate predicate exceeds the closed-plan node limit." }
  else
    .ok { catalog.unsignedPlan query with
      planDigest := catalog.digest (catalog.unsignedPlan query) }

end Catalog

/-- `ProjectionAvailability`. -/
inductive ProjectionAvailability where
  | current
  | stale
  | absent
  deriving DecidableEq

/-- `CandidateVerdict`. -/
inductive CandidateVerdict where
  | retain
  | reject
  | canonicalRequired
  deriving DecidableEq

/-- `SemanticProjection::is_current_for`. -/
def SemanticProjection.isCurrentFor (projection : SemanticProjection)
    (catalogRevision semanticEngineVersion : String) : Bool :=
  projection.semanticComplete && projection.integrity &&
    projection.catalogRevision = catalogRevision &&
    projection.semanticEngineVersion = semanticEngineVersion

/-- `HostedQueryPlan::candidate_verdict`. -/
def CandidatePlan.candidateVerdict (plan : CandidatePlan) (digest : CandidatePlan → String)
    (projection : Option SemanticProjection) (availability : ProjectionAvailability) :
    CandidateVerdict :=
  if digest { plan with planDigest := "" } ≠ plan.planDigest then .canonicalRequired
  else if availability ≠ .current then .canonicalRequired
  else
    match projection with
    | none => .canonicalRequired
    | some projection =>
      if ¬projection.isCurrentFor plan.catalogRevision plan.semanticEngineVersion then
        .canonicalRequired
      else
        match evaluatePredicate projection plan.candidate with
        | .holds => if plan.filterFullyProjected then .retain else .canonicalRequired
        | .unknown => .canonicalRequired
        | .fails => if plan.diagnosticTypeMatchers then .canonicalRequired else .reject

end Mdbase.Query
