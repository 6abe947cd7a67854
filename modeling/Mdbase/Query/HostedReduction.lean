import Mdbase.Query.Candidate

/-!
# Hosted ordering, grouping and summaries

A host orders, groups and summarises matched records without keeping them: the
plan resolves every operator field once, each record yields the values of the
fields, and summaries are states that consume one value after the other. This
module embeds the operators of `compile_hosted_query`, `compare_order_values` and
the reduction accumulator with its budgets.
-/

namespace Mdbase.Query

open Library Mdbase.Runtime

/-- `CandidateField`. -/
inductive CandidateField where
  | path
  | types
  | file (name : String)
  | persistedFrontmatter (path : List String)
  | effectiveFrontmatter (path : List String)
  | bodyTags
  deriving DecidableEq

/-- `is_reserved_root`. -/
def reservedRoots : List String :=
  ["record", "raw", "file", "projection", "this", "values", "old", "operation", "event",
    "workflow", "trigger", "steps", "vars", "item"]

/-- The facts of a file that a plan can read. -/
def plannedFileFields : List String := ["name", "basename", "ext", "size", "mtime"]

/-- `str::split` at a dot. -/
def dotSegments (path : String) : List String := (path.toList.splitOn '.').map String.ofList

/-- `lower_query_field`. -/
def lowerQueryField (path : String) : Option CandidateField :=
  match dotSegments path with
  | ["types"] => some .types
  | "record" :: rest => some (.effectiveFrontmatter rest)
  | "raw" :: rest => some (.persistedFrontmatter rest)
  | ["file", "tags"] => some .bodyTags
  | ["file", "path"] => some .path
  | ["file", name] => if name ∈ plannedFileFields then some (.file name) else none
  | [single] => if single ∈ reservedRoots then none else some (.effectiveFrontmatter [single])
  | _ => none

/-- `nested_value`. -/
def nestedValue (root : Value) (path : List String) : Value :=
  (path.foldlM (fun (value : Value) segment => value.get segment) root).getD .null

/-- `hosted_candidate_value`. -/
def hostedCandidateValue (candidate : Candidate) : CandidateField → Value
  | .path => .string candidate.path
  | .types => .array (candidate.types.map .string)
  | .file name => memberOrNull candidate.file name
  | .persistedFrontmatter path => nestedValue candidate.raw path
  | .effectiveFrontmatter path => nestedValue candidate.effective path
  | .bodyTags => memberOrNull candidate.file "tags"

/-- `HostedOrder`. -/
structure HostedOrder where
  field : CandidateField
  direction : Direction
  deriving DecidableEq

/-- `HostedGroup`. -/
structure HostedGroup where
  field : CandidateField
  outputName : String
  direction : Direction
  deriving DecidableEq

/-- `HostedAggregate`. -/
structure HostedAggregate where
  field : CandidateField
  function : String
  outputName : String
  deriving DecidableEq

/-- The budgets that a reduction observes. -/
structure HostedQueryBudgets where
  maxGroups : Nat := 2000
  maxAggregationBytes : Nat := 8 * 1024 * 1024
  deriving DecidableEq

/-- The operators of a hosted query plan. -/
structure HostedQueryPlan where
  order : List HostedOrder
  groups : List HostedGroup
  aggregates : List HostedAggregate
  budgets : HostedQueryBudgets := {}
  deriving DecidableEq

/-- An error of the hosted query seam. -/
structure CatalogError where
  code : String
  message : String
  deriving DecidableEq

/-- The operators of a query. -/
structure QueryOperators where
  orderBy : List OrderBy
  groupBy : List OrderBy
  summaries : List Summary
  /-- The names of the query's own summary functions. -/
  summaryFunctions : List String := []
  deriving DecidableEq

/-- Lower an ordering clause. -/
def lowerOrder (item : OrderBy) : Except CatalogError HostedOrder :=
  match lowerQueryField item.field with
  | some field => .ok { field := field, direction := item.direction }
  | none =>
    .error
      { code := "unsupported_hosted_order"
        message := "Order field '" ++ item.field ++
          "' requires a bounded exact sorter that is not available." }

/-- Lower a grouping clause. -/
def lowerGroup (item : OrderBy) : Except CatalogError HostedGroup :=
  match lowerQueryField item.field with
  | some field => .ok { field := field, outputName := item.field, direction := item.direction }
  | none =>
    .error
      { code := "unsupported_hosted_group"
        message := "Group field '" ++ item.field ++ "' is not projection-safe." }

/-- Lower a summary. -/
def lowerSummary (summaryFunctions : List String) (item : Summary) :
    Except CatalogError HostedAggregate :=
  match lowerQueryField item.field with
  | some field =>
    if isBuiltinSummary item.function ∧ item.function ∉ summaryFunctions then
      .ok { field := field, function := item.function, outputName := item.outputName }
    else
      .error
        { code := "unsupported_hosted_summary"
          message := "Summary function '" ++ item.function ++
            "' requires a canonical bounded reducer that is not available." }
  | none =>
    .error
      { code := "unsupported_hosted_summary"
        message := "Summary field '" ++ item.field ++ "' is not projection-safe." }

/-- What `preflight::compile` says against the summaries of a query, given the output names
before them. -/
def summaryIssues (functions : List String) : (names : List String) → List Summary → List String
  | _, [] => []
  | names, item :: rest =>
    (if item.outputName ∈ names then
      ["Summary output name '" ++ item.outputName ++ "' is duplicated."] else []) ++
    (if isBuiltinSummary item.function ∨ item.function ∈ functions then []
      else ["Unknown summary function '" ++ item.function ++ "'."]) ++
    summaryIssues functions (item.outputName :: names) rest

/-- The operators of `compile_hosted_query`. -/
def QueryOperators.compile (operators : QueryOperators) : Except CatalogError HostedQueryPlan := do
  if summaryIssues operators.summaryFunctions [] operators.summaries ≠ [] then
    .error
      { code := "invalid_query"
        message := String.intercalate "; "
          (summaryIssues operators.summaryFunctions [] operators.summaries) }
  else if operators.orderBy.length > 16 ∨ operators.groupBy.length > 8 ∨
      operators.summaries.length > 32 then
    .error
      { code := "query_operator_limit_exceeded"
        message := "Query ordering, grouping, or summary count exceeds hosted plan limits." }
  else
    let order ← operators.orderBy.mapM lowerOrder
    let groups ← operators.groupBy.mapM lowerGroup
    let aggregates ← operators.summaries.mapM (lowerSummary operators.summaryFunctions)
    .ok { order := order, groups := groups, aggregates := aggregates }

/-- The clauses of `compare_order_values`, with the values not yet compared. -/
def compareHostedValues : (order : List HostedOrder) → (left right : List Value) → Ordering
  | [], _, _ => .eq
  | item :: rest, left, right =>
    (compareValues (left.headD .null) (right.headD .null) item.direction).then
      (compareHostedValues rest left.tail right.tail)

/-- `compare_order_values`. -/
def HostedQueryPlan.compareOrderValues (plan : HostedQueryPlan) (leftValues : List Value)
    (leftPath : String) (rightValues : List Value) (rightPath : String) : Ordering :=
  (compareHostedValues plan.order leftValues rightValues).then (compare leftPath rightPath)

/-- `hosted_operator_values`: the order values of a candidate. -/
def HostedQueryPlan.orderValues (plan : HostedQueryPlan) (candidate : Candidate) : List Value :=
  plan.order.map fun order => hostedCandidateValue candidate order.field

/-- `HostedSummaryState`. -/
inductive HostedSummaryState (doubles : Doubles) where
  | count (count : Nat)
  | empty (total empty : Nat)
  | number (count : Nat) (sum minimum maximum : doubles.Double) (invalid : Bool)
  | string (selected : Option String) (latest invalid : Bool)
  | unknown

namespace HostedSummaryState

variable {doubles : Doubles}

/-- `HostedSummaryState::new`. -/
def new (doubles : Doubles) (function : String) : HostedSummaryState doubles :=
  if function = "count" then .count 0
  else if function = "empty" ∨ function = "filled" then .empty 0 0
  else if function ∈ ["sum", "average", "minimum", "maximum"] then
    .number 0 doubles.zero doubles.infinity doubles.negInfinity false
  else if function = "earliest" then .string none false false
  else if function = "latest" then .string none true false
  else .unknown

/-- A text takes the place of the selected one. -/
def replaces (latest : Bool) (selected : Option String) (value : String) : Bool :=
  match selected with
  | none => true
  | some current => if latest then current < value else value < current

/-- `HostedSummaryState::push`. -/
def push : HostedSummaryState doubles → Value → HostedSummaryState doubles
  | .count seen, _ => .count (seen + 1)
  | .empty total blank, value =>
    .empty (total + 1) (if isEmptyValue value then blank + 1 else blank)
  | .number seen sum minimum maximum invalid, value =>
    if value = .null then .number seen sum minimum maximum invalid
    else
      match doubles.asDouble value with
      | none => .number seen sum minimum maximum true
      | some double =>
        .number (seen + 1) (doubles.add sum double) (doubles.min minimum double)
          (doubles.max maximum double) invalid
  | .string selected latest invalid, value =>
    if value = .null then .string selected latest invalid
    else
      match value.asStr with
      | none => .string selected latest true
      | some text =>
        if replaces latest selected text then .string (some text) latest invalid
        else .string selected latest invalid
  | .unknown, _ => .unknown

/-- `HostedSummaryState::additional_retained_bytes`. -/
def additionalRetainedBytes : HostedSummaryState doubles → Value → Nat
  | .string selected latest false, .string text =>
    if replaces latest selected text then
      text.utf8ByteSize - (selected.map String.utf8ByteSize).getD 0
    else 0
  | _, _ => 0

/-- Why a summary state has no value. -/
def unknownMessage (function : String) : String :=
  "Unknown hosted summary function '" ++ function ++ "'."

/-- `HostedSummaryState::finish`. -/
def finish (function : String) : HostedSummaryState doubles → Except String Value
  | .count seen => .ok (countValue seen)
  | .empty total blank => .ok (countValue (if function = "empty" then blank else total - blank))
  | .number seen sum minimum maximum invalid =>
    if invalid then .error (nonNumericMessage function)
    else if seen = 0 then .ok .null
    else if function = "sum" then .ok (doubles.toValue sum)
    else if function = "average" then
      .ok (doubles.toValue (doubles.div sum (doubles.ofCount seen)))
    else if function = "minimum" then .ok (doubles.toValue minimum)
    else if function = "maximum" then .ok (doubles.toValue maximum)
    else .error (unknownMessage function)
  | .string selected _ invalid =>
    if invalid then .error (nonStringMessage function)
    else .ok ((selected.map .string).getD .null)
  | .unknown => .error (unknownMessage function)

end HostedSummaryState

/-- `HostedReductionInput`. -/
structure HostedReductionInput where
  groupValues : List Value
  aggregateValues : List Value

/-- `HostedReductionGroupState`, with its key. -/
structure HostedReductionGroupState (doubles : Doubles) where
  key : String
  values : Value
  count : Nat
  summaries : List (HostedSummaryState doubles)

/-- `HostedReductionAccumulator`. -/
structure HostedReductionAccumulator (doubles : Doubles) where
  groups : Table fun group : HostedReductionGroupState doubles => group.key
  retainedBytes : Nat

/-- `HostedReduction`. -/
structure HostedReduction where
  groups : Option (List Group)
  diagnostics : List Diagnostic
  deriving DecidableEq

/-- `u64::saturating_add`. -/
def saturatingAdd (left right : Nat) : Nat := min (left + right) u64Max

namespace HostedQueryPlan

variable (plan : HostedQueryPlan) (doubles : Doubles) (text : Value → String)

/-- The reduction input of a candidate, the rest of `hosted_operator_values`. -/
def reductionInput (candidate : Candidate) : HostedReductionInput where
  groupValues := plan.groups.map fun group => hostedCandidateValue candidate group.field
  aggregateValues :=
    plan.aggregates.map fun aggregate => hostedCandidateValue candidate aggregate.field

/-- `reduction_group_retained_bytes`. The key is the serialization of the values. -/
def groupRetainedBytes (key : String) (summaryCount : Nat) : Nat :=
  key.utf8ByteSize + key.utf8ByteSize + (128 + summaryCount * 64)

/-- `start_reduction`. -/
def startReduction : HostedReductionAccumulator doubles where
  groups := .empty
  retainedBytes := 0

/-- `ensure_retained_growth`. -/
def ensureRetainedGrowth (retainedBytes growth : Nat) : Except CatalogError Unit :=
  if saturatingAdd retainedBytes growth ≤ plan.budgets.maxAggregationBytes then .ok ()
  else
    .error
      { code := "hosted_aggregation_state_budget_exceeded"
        message := "Hosted aggregation state exceeded the maximum of " ++
          toString plan.budgets.maxAggregationBytes ++ " bytes." }

/-- The group values of a row, under their output names. -/
def rowValues (row : HostedReductionInput) : Value :=
  (plan.groups.zip row.groupValues).foldl
    (fun values (group, value) => values.set group.outputName value) (.object [])

/-- The bytes by which a row grows the summaries of its group. -/
def summaryGrowth {doubles : Doubles} (summaries : List (HostedSummaryState doubles))
    (row : HostedReductionInput) : Nat :=
  ((summaries.zip row.aggregateValues).map fun (summary, value) =>
    summary.additionalRetainedBytes value).sum

/-- A group that has counted one more row. -/
def pushRow {doubles : Doubles} (group : HostedReductionGroupState doubles)
    (row : HostedReductionInput) : HostedReductionGroupState doubles :=
  { group with
    count := group.count + 1
    summaries := (group.summaries.zip row.aggregateValues).map fun (summary, value) =>
      summary.push value }

/-- `HostedReductionAccumulator::push`. -/
def push (accumulator : HostedReductionAccumulator doubles) (row : HostedReductionInput) :
    Except CatalogError (HostedReductionAccumulator doubles) :=
  if row.groupValues.length ≠ plan.groups.length ∨
      row.aggregateValues.length ≠ plan.aggregates.length then
    .error
      { code := "hosted_query_plan_mismatch"
        message := "Hosted reduction values do not align with the compiled plan." }
  else if plan.groups.isEmpty ∧ plan.aggregates.isEmpty then .ok accumulator
  else
    let values := plan.rowValues row
    let key := text values
    match accumulator.groups.get? key with
    | none =>
      if ¬plan.groups.isEmpty ∧
          plan.budgets.maxGroups ≤ accumulator.groups.entries.length then
        .error
          { code := "hosted_group_budget_exceeded"
            message := "Hosted grouping exceeded the maximum of " ++
              toString plan.budgets.maxGroups ++ " groups." }
      else
        let summaries := plan.aggregates.map fun aggregate =>
          HostedSummaryState.new doubles aggregate.function
        let growth := saturatingAdd (groupRetainedBytes key summaries.length)
          (summaryGrowth summaries row)
        (plan.ensureRetainedGrowth accumulator.retainedBytes growth).map fun _ =>
          { groups := accumulator.groups.insert
              (pushRow { key := key, values := values, count := 0, summaries := summaries } row)
            retainedBytes := saturatingAdd accumulator.retainedBytes growth }
    | some group =>
      let growth := summaryGrowth group.summaries row
      (plan.ensureRetainedGrowth accumulator.retainedBytes growth).map fun _ =>
        { groups := accumulator.groups.insert (pushRow group row)
          retainedBytes := saturatingAdd accumulator.retainedBytes growth }

/-- The comparison of two groups by their values, clause after clause. -/
def compareHostedGroups : (groups : List HostedGroup) → (left right : Value) → Ordering
  | [], _, _ => .eq
  | group :: rest, left, right =>
    (compareValues (memberOrNull left group.outputName) (memberOrNull right group.outputName)
      group.direction).then (compareHostedGroups rest left right)

/-- The summaries of a finished group, with the diagnostics of those without a value. -/
def finishSummaries {doubles : Doubles} (summaries : List (HostedSummaryState doubles)) :
    Value × List Diagnostic :=
  (plan.aggregates.zip summaries).foldl
    (fun (output, diagnostics) (aggregate, state) =>
      match state.finish aggregate.function with
      | .ok value => (output.set aggregate.outputName value, diagnostics)
      | .error message =>
        (output.set aggregate.outputName .null,
          diagnostics ++ [summaryDiagnostic aggregate.outputName message]))
    (.object [], [])

/-- Finish groups one after the other. -/
def finishGroups {doubles : Doubles} :
    List (HostedReductionGroupState doubles) → List Group × List Diagnostic
  | [] => ([], [])
  | group :: rest =>
    let (summaries, diagnostics) := plan.finishSummaries group.summaries
    let (groups, more) := finishGroups rest
    ({ values := group.values, count := group.count, summaries := summaries } :: groups,
      diagnostics ++ more)

/-- `HostedReductionAccumulator::finish`. -/
def finish {doubles : Doubles} (accumulator : HostedReductionAccumulator doubles) :
    HostedReduction :=
  if plan.groups.isEmpty ∧ plan.aggregates.isEmpty then { groups := none, diagnostics := [] }
  else
    let (groups, diagnostics) := plan.finishGroups (sortBy
      (fun left right => compareHostedGroups plan.groups left.values right.values)
      accumulator.groups.entries)
    { groups := some groups, diagnostics := diagnostics }

/-- `reduce_matches`. -/
def reduceMatches (rows : List HostedReductionInput) : Except CatalogError HostedReduction :=
  (rows.foldlM (plan.push doubles text) (startReduction doubles)).map plan.finish

end HostedQueryPlan

end Mdbase.Query
