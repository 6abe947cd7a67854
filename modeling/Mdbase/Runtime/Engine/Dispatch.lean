import Mdbase.Library.Interaction
import Mdbase.Runtime.Store

/-!
# What the engine exchanges with its surroundings

The invocation an action provider receives, the outcome it returns, and the
questions the engine asks: the clock, the commit of a run, the authorizer, the
provider registry and the providers. The functions of other libraries that the
engine calls are the fields of `Externals`.
-/

namespace Mdbase.Runtime

open Library

/-- The portable invocation sent to a provider. Instants are modelled by
themselves where the source writes them as RFC 3339 text. -/
structure ActionInvocation where
  kind : String
  profileVersion : String
  invocationId : String
  attemptId : String
  requestId : String
  contract : ExactContractReference
  caller : ImplementationIdentity
  provider : ImplementationIdentity
  providerDeclarationDigest : String
  handlerId : String
  admittedAt : DateTime
  correlationId : Option String
  causationId : Option String
  subject : Option String
  idempotencyKey : Option String
  deadline : Option DateTime
  authorizationContext : Option Value
  input : Value

/-- An invocation with the context an authorizer decides on. -/
structure ActionDispatch where
  invocation : ActionInvocation
  runId : String
  workflow : String
  stepId : String
  itemIndex : Option Nat
  invocationId : String
  attempt : Nat
  action : String
  contract : ExactContractReference
  provider : ImplementationIdentity
  providerDeclarationDigest : String
  handlerId : String
  input : Value
  event : Value
  executor : String
  correlationId : String
  causationId : String
  deadline : Option DateTime

/-- What a provider returns; the fields that the engine reads. -/
structure ActionOutcome where
  kind : String
  profileVersion : String
  requestId : String
  invocationId : String
  attemptId : String
  contract : ExactContractReference
  provider : ImplementationIdentity
  providerDeclarationDigest : String
  status : String
  output : Option Value
  error : Option RuntimeFailure

inductive DispatchOutcome where
  | notApplied
  | unknown
  deriving DecidableEq, Inhabited

structure DispatchFailure where
  code : String
  message : String
  outcome : DispatchOutcome
  deriving DecidableEq, Inhabited

inductive AuthorizationDecision where
  | allow
  | deny (code message : String)
  deriving DecidableEq, Inhabited

/-- The part of `RuntimeConfig` that the engine reads while it executes a claim. -/
structure RuntimeConfig where
  executorId : String
  identity : ImplementationIdentity
  timezone : Option String
  maxItems : Nat
  deriving DecidableEq, Inhabited

/-- An error of the expression evaluator. -/
structure WorkflowCelError where
  code : String
  message : String
  deriving DecidableEq, Inhabited

/-- The library functions that the engine calls: the digest of `stable_id`, the
digest of a contract artifact, the two expression evaluators, the JSON Schema
compiler with its validator, which returns the failing paths with their errors,
and the serialization of an outcome. -/
structure Externals where
  sha256 : String → String
  contractDigest : Value → Except String String
  evaluateRuntimeExpression : String → Value → DateTime → Option String →
    Except WorkflowCelError Value
  evaluateRuntimeTemplate : Value → Value → DateTime → Option String →
    Except (List WorkflowCelError) Value
  compileSchema : Value → Except String (Value → List (String × String))
  outcomeValue : ActionOutcome → Value

/-- What a reading of the clock is for. The clock does not see it; it tells the
evaluation of conditions and item lists from the other readings. -/
inductive ClockUse where
  | condition
  | items
  | other
  deriving DecidableEq

/-- The place of the engine that makes a commit. The store does not see it; it
tells commits of one record apart by what they are for. -/
inductive CommitSite where
  | cancelled
  | interrupted
  | timedOut
  | conditionFailed
  | itemFailed
  | attemptFailed
  | failureAdvanced
  | stepSkipped
  | stepStarted
  | attemptStarted
  | attemptSucceeded
  | attemptLate
  | attemptUnknown
  | stepSucceeded
  | finished
  deriving DecidableEq

/-- What the engine asks while it executes a claim. A dispatch has a limit when
the run has a deadline. -/
inductive Question where
  | now (use : ClockUse)
  | commitRun (site : CommitSite) (claim : Claim)
  | authorize (dispatch : ActionDispatch)
  | provider (declarationDigest handlerId : String)
  | dispatch (limit : Option Duration) (invocation : ActionInvocation)
  | cancel (cancellationId requestId : String) (requestedAt : DateTime)

/-- The answers; a dispatch with a limit is answered by nothing when the limit
elapses, and so is a cancellation notice. -/
def Question.Answer : Question → Type
  | .now _ => DateTime
  | .commitRun _ _ => Except RuntimeError Claim
  | .authorize _ => AuthorizationDecision
  | .provider _ _ => Bool
  | .dispatch none _ => Except DispatchFailure ActionOutcome
  | .dispatch (some _) _ => Option (Except DispatchFailure ActionOutcome)
  | .cancel _ _ _ => Option (Except DispatchFailure Unit)

/-- How the execution of a claim ends early: with an error, with a panic, or
because the bound on the rounds of its loop is used up. -/
inductive Halt where
  | error (error : RuntimeError)
  | panic
  | unfinished
  deriving DecidableEq

/-- Code of the engine: it asks its surroundings and may end early. -/
abbrev Engine := ExceptT Halt (Program Question Question.Answer)

/-- The text of an error. -/
def RuntimeError.text : RuntimeError → String
  | .diagnostic code message => code ++ ": " ++ message
  | .store message => "runtime store error: " ++ message
  | .provider message => "runtime provider error: " ++ message
  | .serialization message => "runtime serialization error: " ++ message
  | .clock message => "runtime clock error: " ++ message

/-- `runtime_failure`. -/
def runtimeFailure (error : RuntimeError) : RuntimeFailure := ⟨error.code, error.text⟩

/-- `expression_errors`. -/
def expressionErrors (errors : List WorkflowCelError) : RuntimeError :=
  .diagnostic "workflow_expression_error"
    ("; ".intercalate (errors.map fun error => error.code ++ ": " ++ error.message))

/-- `"{item_index:?}"`. -/
def debugIndex : Option Nat → String
  | none => "None"
  | some index => "Some(" ++ toString index ++ ")"

/-- The text that identifies one item of one step of a run. -/
def itemText (runId stepId : String) (itemIndex : Option Nat) : String :=
  runId ++ ":" ++ stepId ++ ":" ++ toString (itemIndex.getD 0)

/-- `dispatch_value`; the clock is read once. -/
def dispatchValue (ext : Externals) (config : RuntimeConfig) (now : DateTime) (claim : Claim)
    (planned : PlannedStep) (itemIndex : Option Nat) (invocationId : String) (attempt : Nat)
    (input : Value) : ActionDispatch :=
  let plan := claim.run.plan
  let correlationId := ((plan.event.get "correlationid").bind Value.asStr).getD plan.eventId
  let requestId := stableId ext.sha256 "req" (itemText plan.id planned.id itemIndex)
  let attemptId := stableId ext.sha256 "attempt" (requestId ++ ":" ++ toString attempt)
  let contract : ExactContractReference := {
    id := planned.action
    version := planned.actionVersion
    digest := planned.actionDigest }
  { invocation := {
      kind := "mdbase.action.invocation"
      profileVersion := "0.1"
      invocationId := invocationId
      attemptId := attemptId
      requestId := requestId
      contract := contract
      caller := config.identity
      provider := planned.provider
      providerDeclarationDigest := planned.providerDeclarationDigest
      handlerId := planned.handlerId
      admittedAt := now
      correlationId := some correlationId
      causationId := some plan.eventId
      subject := (plan.event.get "subject").bind Value.asStr
      idempotencyKey :=
        if planned.idempotent then some (plan.idempotencyKey ++ ":" ++ debugIndex itemIndex)
        else none
      deadline := plan.timeoutAt
      authorizationContext := none
      input := input }
    runId := plan.id
    workflow := plan.workflow
    stepId := planned.id
    itemIndex := itemIndex
    invocationId := invocationId
    attempt := attempt
    action := planned.action
    contract := contract
    provider := planned.provider
    providerDeclarationDigest := planned.providerDeclarationDigest
    handlerId := planned.handlerId
    input := input
    event := plan.event
    executor := config.executorId
    correlationId := correlationId
    causationId := plan.eventId
    deadline := plan.timeoutAt }

/-- `normalize_outcome`. -/
def normalizeOutcome (ext : Externals) (invocation : ActionInvocation) (outcome : ActionOutcome) :
    Except DispatchFailure (Value × Value) :=
  if ¬ (outcome.kind = "mdbase.action.outcome" ∧ outcome.profileVersion = "0.1" ∧
      outcome.requestId = invocation.requestId ∧ outcome.invocationId = invocation.invocationId ∧
      outcome.attemptId = invocation.attemptId ∧ outcome.contract = invocation.contract ∧
      outcome.provider = invocation.provider ∧
      outcome.providerDeclarationDigest = invocation.providerDeclarationDigest) then
    .error {
      code := "action_outcome_evidence_mismatch"
      message := "Provider outcome does not match the admitted invocation evidence."
      outcome := .unknown }
  else if outcome.status = "succeeded" then
    match outcome.output with
    | some output => .ok (output, ext.outcomeValue outcome)
    | none => .error {
        code := "action_output_missing"
        message := "Successful action outcome has no output."
        outcome := .unknown }
  else if outcome.status = "indeterminate" then
    .error {
      code := (outcome.error.map RuntimeFailure.code).getD "action_outcome_indeterminate"
      message := (outcome.error.map RuntimeFailure.message).getD
        "Provider reported an indeterminate outcome."
      outcome := .unknown }
  else
    .error {
      code := (outcome.error.map RuntimeFailure.code).getD "action_failed"
      message := (outcome.error.map RuntimeFailure.message).getD
        ("Provider reported action status " ++ outcome.status ++ ".")
      outcome := .notApplied }

/-- `pinned_action`. -/
def pinnedAction (ext : Externals) (planned : PlannedStep) : Except RuntimeError Value :=
  let action := planned.actionContract
  if (action.get "id").bind Value.asStr ≠ some planned.action ∨
      (action.get "version").bind Value.asStr ≠ some planned.actionVersion ∨
      (ext.contractDigest action).toOption ≠ some planned.actionDigest then
    .error (.diagnostic "pinned_action_corrupt"
      ("Pinned action " ++ planned.action ++ " does not match its revision."))
  else .ok action

/-- `validate_action_value`. -/
def validateActionValue (ext : Externals) (artifact : Value) (schemaField : String)
    (value : Value) : Except String Unit :=
  match (artifact.get schemaField).bind fun field => field.get "value" with
  | none => .error ("Pinned action artifact has no inline " ++ schemaField ++ ".")
  | some schema =>
    match ext.compileSchema schema with
    | .error error => .error ("Pinned " ++ schemaField ++ " does not compile: " ++ error)
    | .ok validate =>
      match validate value with
      | [] => .ok ()
      | errors => .error
          ("; ".intercalate (errors.map fun error => error.1 ++ ": " ++ error.2))

end Mdbase.Runtime
