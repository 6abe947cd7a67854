import Mdbase.Library.Fallible
import Mdbase.Runtime.Engine.Dispatch

/-!
# Planning

`plan_event` turns an event into the runs that are to be admitted for it: one for
every workflow and trigger that the catalog admits for the event and whose
conditions are met. The catalog and the expression evaluator are libraries of the
planner; `prepareEvent` is what the engine hands to the store.
-/

namespace Mdbase.Runtime

open Library

/-- `Value::pointer`, given the tokens of the pointer. The tokens used here are no
array indices. -/
def Value.pointer (value : Value) (tokens : List String) : Option Value :=
  tokens.foldlM Value.get value

/-- An action that the catalog resolved for a step. -/
structure AdmittedAction where
  id : String
  contract : ExactContractReference
  artifact : Value
  provider : ImplementationIdentity
  providerDeclarationDigest : String
  handlerId : String
  idempotent : Bool
  cooperativeCancellation : Bool
  deriving DecidableEq, Inhabited

/-- A workflow and one of its triggers that the catalog admits for an event. -/
structure AdmittedWorkflow where
  workflow : Value
  trigger : Value
  workflowRevision : String
  policyId : String
  policyRevision : String
  eventContract : ExactContractReference
  eventSource : ImplementationIdentity
  sourceDeclarationDigest : String
  steps : List AdmittedAction
  deriving DecidableEq, Inhabited

/-- `AdmissionCatalog`, by what the planner asks it. -/
structure AdmissionCatalog where
  admitEvent : Value → Except RuntimeError (List AdmittedWorkflow)
  policy : Value
  revision : String

/-- `selected_executor`. Escaping the workflow id and reading the pointer cancel out. -/
def AdmissionCatalog.selectedExecutor (catalog : AdmissionCatalog) (workflowId : String) :
    Option String :=
  ((catalog.policy.pointer ["executors", "workflows", workflowId]).bind Value.asStr).or
    ((catalog.policy.pointer ["executors", "default"]).bind Value.asStr)

/-- The libraries of the planner: those of the engine, and the names that the
dependency pattern of variables captures in the text of a value. -/
structure PlannerExternals extends Externals where
  variableReferences : Value → List String

/-- Planning ends with a result, an error or a panic. -/
abbrev Planning := Except Halt

/-- An error of the planner. -/
def Planning.fail {α : Type} (code message : String) : Planning α :=
  .error (.error (.diagnostic code message))

/-- `required_string`. -/
def requiredString (value : Value) (key : String) : Planning String :=
  match (value.get key).bind Value.asStr with
  | some text => .ok text
  | none => .fail "invalid_runtime_value" ("Runtime value requires string " ++ key ++ ".")

/-- The milliseconds in a unit of durations. -/
def durationUnit : String → Option Nat
  | "ms" => some 1
  | "s" => some 1000
  | "m" => some 60000
  | "h" => some 3600000
  | "d" => some 86400000
  | _ => none

/-- `parse_duration_ms`. -/
def parseDurationMs (text : String) : Planning Nat :=
  let digits := text.toList.takeWhile Char.isDigit
  let unit := text.toList.dropWhile Char.isDigit
  let amount := Nat.ofDigitChars 10 digits 0
  if unit = [] ∨ digits = [] ∨ u64Max < amount then .fail "invalid_duration" text
  else
    match durationUnit (String.ofList unit) with
    | none => .fail "invalid_duration" text
    | some multiplier =>
      if u64Max < amount * multiplier then
        .fail "duration_out_of_range" "Duration exceeds u64 milliseconds."
      else .ok (amount * multiplier)

/-- The duration in a member of a workflow or trigger, if it is there. -/
def durationMs (value : Option Value) : Planning (Option Nat) :=
  match value.bind Value.asStr with
  | none => .ok none
  | some text => (parseDurationMs text).map some

/-- An instant that many milliseconds later; the addition of the source panics
outside the range of instants. -/
def laterBy (now : DateTime) (count : Nat) (message : String) : Planning DateTime :=
  if i64Max < count then .fail "duration_out_of_range" message
  else
    match DateTime.checkedAdd now (DateTime.milliseconds count) with
    | some instant => .ok instant
    | none => .error .panic

section Evaluation

variable (ext : PlannerExternals) (now : DateTime) (timezone : Option String)

/-- `condition_matches`. -/
def conditionMatches (condition : Option Value) (bindings : Value) : Planning Bool :=
  match (condition.bind (Value.get · "$expr")).bind Value.asStr with
  | none => .ok true
  | some source =>
    match ext.evaluateRuntimeExpression source bindings now timezone with
    | .ok value => .ok (value = .bool true)
    | .error error => .fail error.code error.message

/-- The conditions of a trigger and of its workflow; the second is evaluated only if
the first is met. -/
def conditionsMatch (admitted : AdmittedWorkflow) (bindings : Value) : Planning Bool := do
  let triggered ← conditionMatches ext now timezone (admitted.trigger.get "if") bindings
  if triggered then conditionMatches ext now timezone (admitted.workflow.get "if") bindings
  else .ok false

/-- A template under the given bindings. -/
def evaluateTemplate (template bindings : Value) : Planning Value :=
  match ext.evaluateRuntimeTemplate template bindings now timezone with
  | .ok value => .ok value
  | .error errors => .error (.error (expressionErrors errors))

/-- `evaluated_string`. -/
def evaluatedString (template bindings : Value) (label : String) : Planning String := do
  let value ← evaluateTemplate ext now timezone template bindings
  match value.asStr with
  | some text => .ok text
  | none => .fail "workflow_expression_type" ("Evaluated " ++ label ++ " must be a string.")

/-- A text that a workflow may compute, or its default. -/
def stringOr (template : Option Value) (bindings : Value) (label default : String) :
    Planning String :=
  match template with
  | some template => evaluatedString ext now timezone template bindings label
  | none => .ok default

/-- The variables that are still to be evaluated and refer to none of these. -/
def readyVars (vars : List (String × Value)) (result : Value) : List (String × Value) :=
  vars.filter fun member => (result.get member.1).isNone ∧
    ∀ name ∈ ext.variableReferences member.2, (∃ known ∈ vars, known.1 = name) →
      (result.get name).isSome

/-- The rounds of `evaluate_vars`; every round evaluates a variable or ends. -/
def evaluateReady (vars : List (String × Value)) (bindings : Value) :
    (rounds : Nat) → (result : Value) → Planning Value
  | 0, result => .ok result
  | rounds + 1, result =>
    if vars.all fun member => (result.get member.1).isSome then .ok result
    else
      match readyVars ext vars result with
      | [] => .fail "circular_workflow_variable"
          "Workflow variables contain a dependency cycle."
      | ready => do
          let result ← ready.foldlM (fun result member => do
            let value ← evaluateTemplate ext now timezone member.2 (bindings.set "vars" result)
            .ok (result.set member.1 value)) result
          evaluateReady vars bindings rounds result

/-- `evaluate_vars`. -/
def evaluateVars (vars : Option Value) (bindings : Value) : Planning Value :=
  match vars with
  | some (.object members) =>
    evaluateReady ext now timezone members bindings members.length (.object [])
  | _ => .ok (.object [])

end Evaluation

/-- `plan_steps`, for one step. -/
def planStep (admitted : AdmittedWorkflow) (step : Value) : Planning PlannedStep := do
  let id ← requiredString step "id"
  match admitted.steps.find? fun binding => binding.id = id with
  | none => .fail "unresolved_action" ("Admitted plan has no action binding for step " ++ id ++ ".")
  | some binding => .ok {
      id := id
      action := binding.contract.id
      actionVersion := binding.contract.version
      actionDigest := binding.contract.digest
      actionContract := binding.artifact
      provider := binding.provider
      providerDeclarationDigest := binding.providerDeclarationDigest
      handlerId := binding.handlerId
      condition := (step.pointer ["if", "$expr"]).bind Value.asStr
      input := (step.get "input").getD (.object [])
      forEach := (step.get "for_each").map fun value => {
        items := (value.get "items").getD .null
        binding := ((value.get "as").bind Value.asStr).getD "item" }
      idempotent := binding.idempotent
      cooperativeCancellation := binding.cooperativeCancellation }

/-- `plan_steps`. -/
def planSteps (admitted : AdmittedWorkflow) : Planning (List PlannedStep) :=
  (((admitted.workflow.get "steps").bind Value.asArray).getD []).mapM (planStep admitted)

/-- The concurrency policy of a workflow. -/
def concurrencyPolicyOf (workflow : Value) : Planning ConcurrencyPolicy :=
  match ((workflow.pointer ["run", "concurrency", "policy"]).bind Value.asStr).getD "allow" with
  | "skip" => .ok .skip
  | "queue" => .ok .queue
  | "replace" => .ok .replace
  | "allow" => .ok .allow
  | value => .fail "invalid_workflow" ("Unsupported concurrency policy " ++ value ++ ".")

/-- What a workflow does after a failed step. -/
def onErrorOf (workflow : Value) : Planning OnError :=
  match ((workflow.pointer ["run", "on_error"]).bind Value.asStr).getD "stop" with
  | "stop" => .ok .stop
  | "continue" => .ok .continue
  | value => .fail "invalid_workflow" ("Unsupported on_error policy " ++ value ++ ".")

/-- The idempotency key of a workflow that does not give one. -/
def defaultKey (workflowId eventId triggerId : String) : String :=
  workflowId ++ ":" ++ eventId ++ ":" ++ triggerId

/-- The idempotency scope of a workflow. -/
def scopeOf (executor workflowId : String) : String := executor ++ ":" ++ workflowId

/-- The text that the id of a run is the digest of. -/
def runSource (executor workflowId triggerId eventId key : String) : String :=
  executor ++ ":" ++ workflowId ++ ":" ++ triggerId ++ ":" ++ eventId ++ ":" ++ key

/-- What the expressions of a plan refer to, without its variables. -/
def planBindings (event trigger : Value) (workflowId workflowVersion : String) : Value :=
  .object [
    ("event", event),
    ("steps", .object []),
    ("trigger", trigger),
    ("vars", .object []),
    ("workflow", .object [("id", .string workflowId), ("version", .string workflowVersion)])]

section Planning

variable (ext : PlannerExternals) (catalog : AdmissionCatalog) (config : RuntimeConfig)
  (now : DateTime) (event : Value) (eventId eventType : String)

/-- The plan of a workflow whose conditions are met. -/
def planRun (admitted : AdmittedWorkflow) (workflowId workflowVersion triggerId : String)
    (vars bindings : Value) : Planning PlannedRun := do
  let workflow := admitted.workflow
  let idempotencyKey ← stringOr ext now config.timezone
    (workflow.pointer ["run", "idempotency", "key"]) bindings "idempotency key"
    (defaultKey workflowId eventId triggerId)
  let concurrencyGroup ← stringOr ext now config.timezone
    (workflow.pointer ["run", "concurrency", "group"]) bindings "concurrency group" workflowId
  let concurrencyPolicy ← concurrencyPolicyOf workflow
  let onError ← onErrorOf workflow
  let debounceMs ← durationMs (admitted.trigger.get "debounce")
  let minimumIntervalMs ← durationMs (admitted.trigger.get "minimum_interval")
  let notBefore ← laterBy now (debounceMs.getD 0) "Trigger debounce exceeds the supported range."
  let timeoutMs ← durationMs (workflow.pointer ["run", "limits", "timeout"])
  let timeoutAt ← timeoutMs.mapM fun timeout =>
    laterBy now timeout "Workflow timeout exceeds the supported range."
  let steps ← planSteps admitted
  .ok {
    id := stableId ext.sha256 "run"
      (runSource config.executorId workflowId triggerId eventId idempotencyKey)
    workflow := workflowId
    workflowVersion := workflowVersion
    workflowRevision := admitted.workflowRevision
    catalogRevision := catalog.revision
    policyId := admitted.policyId
    policyRevision := admitted.policyRevision
    trigger := triggerId
    eventId := eventId
    eventType := eventType
    eventContract := admitted.eventContract
    eventSource := admitted.eventSource
    sourceDeclarationDigest := admitted.sourceDeclarationDigest
    eventCursor := 0
    event := event
    executor := config.executorId
    idempotencyKey := idempotencyKey
    idempotencyScope := scopeOf config.executorId workflowId
    concurrencyGroup := concurrencyGroup
    concurrencyPolicy := concurrencyPolicy
    replacementBlockers := []
    onError := onError
    notBefore := notBefore
    timeoutAt := timeoutAt
    minimumIntervalMs := minimumIntervalMs
    vars := vars
    workflowValue := workflow
    steps := steps
    createdAt := now }

/-- Is the workflow left to another executor? -/
def leftToOther (workflowId : String) : Bool :=
  (catalog.selectedExecutor workflowId).any fun selected => selected ≠ config.executorId

/-- The plan of an admitted workflow, if this executor runs it and its conditions are
met. -/
def planWorkflow (admitted : AdmittedWorkflow) : Planning (Option PlannedRun) := do
  let workflowId ← requiredString admitted.workflow "id"
  let workflowVersion ← requiredString admitted.workflow "version"
  if leftToOther catalog config workflowId then .ok none
  else
    let triggerId ← requiredString admitted.trigger "id"
    let bindings := planBindings event admitted.trigger workflowId workflowVersion
    let vars ← evaluateVars ext now config.timezone (admitted.workflow.get "vars") bindings
    let bindings := bindings.set "vars" vars
    let met ← conditionsMatch ext now config.timezone admitted bindings
    if met then
      (planRun ext catalog config now event eventId eventType admitted workflowId workflowVersion
        triggerId vars bindings).map some
    else .ok none

/-- The loop of `plan_event`. -/
def planWorkflows : List AdmittedWorkflow → Planning (List PlannedRun)
  | [] => .ok []
  | admitted :: rest => do
      let plan ← planWorkflow ext catalog config now event eventId eventType admitted
      let plans ← planWorkflows rest
      .ok (plan.toList ++ plans)

end Planning

/-- `plan_event`. -/
def planEvent (ext : PlannerExternals) (catalog : AdmissionCatalog) (event : Value)
    (now : DateTime) (config : RuntimeConfig) : Planning (List PlannedRun) := do
  let eventId ← requiredString event "id"
  let eventType ← requiredString event "type"
  match catalog.admitEvent event with
  | .error error => .error (.error error)
  | .ok admitted => planWorkflows ext catalog config now event eventId eventType admitted

/-- `prepare_event`. -/
def prepareEvent (ext : PlannerExternals) (catalog : AdmissionCatalog) (config : RuntimeConfig)
    (event : Value) (receivedAt : DateTime) : Planning PreparedEvent :=
  match (event.get "source").bind Value.asStr with
  | none => .fail "invalid_runtime_event" "Structured CloudEvent source is required."
  | some sourceRuntime =>
    match (event.get "id").bind Value.asStr with
    | none => .fail "invalid_runtime_event" "Event id is required."
    | some eventId => do
        let runs ← planEvent ext catalog event receivedAt config
        .ok {
          sourceRuntime := sourceRuntime
          eventId := eventId
          envelope := event
          receivedAt := receivedAt
          runs := runs }

theorem requiredString_eq_ok {value : Value} {key text : String} :
    requiredString value key = .ok text ↔ (value.get key).bind Value.asStr = some text := by
  unfold requiredString
  split
  next found => simp [found]
  next absent => simp [absent, Planning.fail]

/-- The fields of a plan that its event, its workflow, its trigger and its executor
determine. -/
structure PlanOf (ext : PlannerExternals) (config : RuntimeConfig) (event : Value)
    (now : DateTime) (admitted : AdmittedWorkflow) (plan : PlannedRun) : Prop where
  id : plan.id = stableId ext.sha256 "run"
    (runSource plan.executor plan.workflow plan.trigger plan.eventId plan.idempotencyKey)
  scope : plan.idempotencyScope = scopeOf plan.executor plan.workflow
  key : ∃ bindings, stringOr ext now config.timezone
    (admitted.workflow.pointer ["run", "idempotency", "key"]) bindings "idempotency key"
      (defaultKey plan.workflow plan.eventId plan.trigger) = .ok plan.idempotencyKey
  group : ∃ bindings, bindings.get "event" = some event ∧ stringOr ext now config.timezone
    (admitted.workflow.pointer ["run", "concurrency", "group"]) bindings "concurrency group"
      plan.workflow = .ok plan.concurrencyGroup
  policy : concurrencyPolicyOf admitted.workflow = .ok plan.concurrencyPolicy
  minimumInterval : durationMs (admitted.trigger.get "minimum_interval") =
    .ok plan.minimumIntervalMs
  debounce : ∃ debounceMs, durationMs (admitted.trigger.get "debounce") = .ok debounceMs ∧
    laterBy now (debounceMs.getD 0) "Trigger debounce exceeds the supported range." =
      .ok plan.notBefore
  executor : plan.executor = config.executorId
  workflow : requiredString admitted.workflow "id" = .ok plan.workflow
  trigger : requiredString admitted.trigger "id" = .ok plan.trigger
  eventId : requiredString event "id" = .ok plan.eventId
  event : plan.event = event
  workflowValue : plan.workflowValue = admitted.workflow
  cursor : plan.eventCursor = 0
  blockers : plan.replacementBlockers = []
  createdAt : plan.createdAt = now

variable {ext : PlannerExternals} {catalog : AdmissionCatalog} {config : RuntimeConfig}
  {event : Value} {eventId eventType : String}

theorem planWorkflow_spec {now : DateTime}
    {admitted : AdmittedWorkflow} {plan : PlannedRun} (known : requiredString event "id" = .ok eventId)
    (planned : planWorkflow ext catalog config now event eventId eventType admitted =
      .ok (some plan)) : PlanOf ext config event now admitted plan := by
  unfold planWorkflow at planned
  obtain ⟨workflowId, workflow, planned⟩ := bind_eq_ok.mp planned
  obtain ⟨workflowVersion, _, planned⟩ := bind_eq_ok.mp planned
  split at planned
  next => cases planned
  obtain ⟨triggerId, trigger, planned⟩ := bind_eq_ok.mp planned
  obtain ⟨vars, _, planned⟩ := bind_eq_ok.mp planned
  obtain ⟨met, _, planned⟩ := bind_eq_ok.mp planned
  split at planned
  next =>
    obtain ⟨_, run, same⟩ := map_eq_ok.mp planned
    cases same
    unfold planRun at run
    obtain ⟨key, keyed, run⟩ := bind_eq_ok.mp run
    obtain ⟨group, grouped, run⟩ := bind_eq_ok.mp run
    obtain ⟨policy, policed, run⟩ := bind_eq_ok.mp run
    obtain ⟨onError, _, run⟩ := bind_eq_ok.mp run
    obtain ⟨debounceMs, debounced, run⟩ := bind_eq_ok.mp run
    obtain ⟨minimumIntervalMs, spaced, run⟩ := bind_eq_ok.mp run
    obtain ⟨notBefore, later, run⟩ := bind_eq_ok.mp run
    obtain ⟨timeoutMs, _, run⟩ := bind_eq_ok.mp run
    obtain ⟨timeoutAt, _, run⟩ := bind_eq_ok.mp run
    obtain ⟨steps, _, run⟩ := bind_eq_ok.mp run
    cases run
    exact ⟨rfl, rfl, ⟨_, keyed⟩, ⟨_, Value.get_set_of_ne vars (by decide), grouped⟩, policed, spaced,
      ⟨debounceMs, debounced, later⟩, rfl, workflow, trigger, known, rfl, rfl, rfl, rfl, rfl⟩
  next => cases planned

theorem planWorkflows_spec {now : DateTime} {admitted : List AdmittedWorkflow}
    {plans : List PlannedRun} (known : requiredString event "id" = .ok eventId)
    (planned : planWorkflows ext catalog config now event eventId eventType admitted = .ok plans) :
    ∀ plan ∈ plans, ∃ own ∈ admitted, PlanOf ext config event now own plan := by
  induction admitted generalizing plans with
  | nil =>
    cases planned
    simp
  | cons first rest ih =>
    unfold planWorkflows at planned
    obtain ⟨run, here, planned⟩ := bind_eq_ok.mp planned
    obtain ⟨others, later, planned⟩ := bind_eq_ok.mp planned
    cases planned
    intro plan member
    rcases List.mem_append.mp member with own | other
    · obtain rfl : run = some plan := by simpa using own
      exact ⟨first, List.mem_cons_self, planWorkflow_spec known here⟩
    · obtain ⟨own, ownMember, facts⟩ := ih later plan other
      exact ⟨own, List.mem_cons_of_mem _ ownMember, facts⟩

/-- Every plan of a prepared event is made of the event and of a workflow that the
catalog admits for it. -/
theorem prepareEvent_spec {receivedAt : DateTime} {prepared : PreparedEvent}
    (result : prepareEvent ext catalog config event receivedAt = .ok prepared) :
    (event.get "source").bind Value.asStr = some prepared.sourceRuntime ∧
      requiredString event "id" = .ok prepared.eventId ∧ prepared.receivedAt = receivedAt ∧
      ∃ admitted, catalog.admitEvent event = .ok admitted ∧
        ∀ plan ∈ prepared.runs, ∃ own ∈ admitted, PlanOf ext config event receivedAt own plan := by
  unfold prepareEvent at result
  split at result
  next => cases result
  rename_i source found
  split at result
  next => cases result
  rename_i eventId known
  obtain ⟨runs, planned, result⟩ := bind_eq_ok.mp result
  cases result
  unfold planEvent at planned
  obtain ⟨sameId, required, planned⟩ := bind_eq_ok.mp planned
  obtain ⟨eventType, _, planned⟩ := bind_eq_ok.mp planned
  have same : eventId = sameId := by
    have other := requiredString_eq_ok.mp required
    rw [known] at other
    exact Option.some.inj other
  subst same
  split at planned
  next => cases planned
  next admitted accepted =>
    exact ⟨found, required, rfl, admitted, accepted, planWorkflows_spec required planned⟩

end Mdbase.Runtime
