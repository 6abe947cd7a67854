import Mdbase.Runtime.Value

/-!
# Runtime records

The durable records of the runtime: planned runs, run records with their steps
and attempts, and timers. Records are translated field by field; a status is an
inductive type with the source's constructors.
-/

namespace Mdbase.Runtime

/-- Exact reference to one revision of a contract. -/
structure ExactContractReference where
  id : String
  version : String
  digest : String
  deriving DecidableEq, Inhabited

/-- Identity of an application that emits events or provides actions. -/
structure ImplementationIdentity where
  application : String
  implementation : String
  version : String
  instanceId : Option String
  deriving DecidableEq, Inhabited

/-- One envelope of the event journal. -/
structure EventJournalEntry where
  cursor : Nat
  sourceRuntime : String
  eventId : String
  envelope : Value
  receivedAt : DateTime
  deriving DecidableEq, Inhabited

inductive ConcurrencyPolicy where
  | skip
  | queue
  | replace
  | allow
  deriving DecidableEq, Inhabited

inductive OnError where
  | stop
  | continue
  deriving DecidableEq, Inhabited

inductive RunStatus where
  | queued
  | running
  | waiting
  | succeeded
  | failed
  | cancelled
  | indeterminate
  deriving DecidableEq, Inhabited

namespace RunStatus

/-- The statuses from which a run never moves again. -/
def terminal : RunStatus → Bool
  | .succeeded | .failed | .cancelled | .indeterminate => true
  | .queued | .running | .waiting => false

def occupiesConcurrencyGroup : RunStatus → Bool
  | .queued | .running | .waiting => true
  | .succeeded | .failed | .cancelled | .indeterminate => false

end RunStatus

inductive StepStatus where
  | pending
  | running
  | succeeded
  | failed
  | skipped
  | cancelled
  | timedOut
  | indeterminate
  deriving DecidableEq, Inhabited

inductive ActionAttemptStatus where
  | dispatching
  | succeeded
  | failed
  | indeterminate
  deriving DecidableEq, Inhabited

structure RuntimeFailure where
  code : String
  message : String
  deriving DecidableEq, Inhabited

structure PlannedForEach where
  items : Value
  binding : String
  deriving DecidableEq, Inhabited

/-- One step of an admitted plan with its pinned action and provider. -/
structure PlannedStep where
  id : String
  action : String
  actionVersion : String
  actionDigest : String
  actionContract : Value
  provider : ImplementationIdentity
  providerDeclarationDigest : String
  handlerId : String
  condition : Option String
  input : Value
  forEach : Option PlannedForEach
  idempotent : Bool
  cooperativeCancellation : Bool
  deriving DecidableEq, Inhabited

/-- The immutable plan of a run. -/
structure PlannedRun where
  id : String
  workflow : String
  workflowVersion : String
  workflowRevision : String
  catalogRevision : String
  policyId : String
  policyRevision : String
  trigger : String
  eventId : String
  eventType : String
  eventContract : ExactContractReference
  eventSource : ImplementationIdentity
  sourceDeclarationDigest : String
  eventCursor : Nat
  event : Value
  executor : String
  idempotencyKey : String
  idempotencyScope : String
  concurrencyGroup : String
  concurrencyPolicy : ConcurrencyPolicy
  /-- Runs whose cancellation was requested when this replacement was admitted.
  An indeterminate blocker keeps the replacement queued. -/
  replacementBlockers : List String
  onError : OnError
  notBefore : DateTime
  timeoutAt : Option DateTime
  minimumIntervalMs : Option Nat
  vars : Value
  workflowValue : Value
  steps : List PlannedStep
  createdAt : DateTime
  deriving DecidableEq, Inhabited

namespace PlannedRun

/-- The plan under the cursor of its event. -/
@[simps id workflow trigger eventCursor executor idempotencyKey idempotencyScope
  concurrencyGroup concurrencyPolicy replacementBlockers notBefore minimumIntervalMs steps
  createdAt]
def withCursor (plan : PlannedRun) (cursor : Nat) : PlannedRun :=
  { plan with eventCursor := cursor }

/-- The plan of a replacement that displaced the given runs. -/
@[simps id workflow trigger eventCursor executor idempotencyKey idempotencyScope
  concurrencyGroup concurrencyPolicy replacementBlockers notBefore minimumIntervalMs steps
  createdAt]
def withBlockers (plan : PlannedRun) (blockers : List String) : PlannedRun :=
  { plan with replacementBlockers := blockers }

/-- The idempotency scope and key of a plan, which identify the work it stands for. -/
def idempotency (plan : PlannedRun) : String × String :=
  (plan.idempotencyScope, plan.idempotencyKey)

@[simp] theorem idempotency_withCursor (plan : PlannedRun) (cursor : Nat) :
    (plan.withCursor cursor).idempotency = plan.idempotency := rfl

@[simp] theorem idempotency_withBlockers (plan : PlannedRun) (blockers : List String) :
    (plan.withBlockers blockers).idempotency = plan.idempotency := rfl

end PlannedRun

structure ActionAttempt where
  stepId : String
  itemIndex : Option Nat
  invocationId : String
  action : String
  actionVersion : String
  attempt : Nat
  status : ActionAttemptStatus
  idempotent : Bool
  input : Value
  output : Option Value
  receipt : Option Value
  error : Option RuntimeFailure
  startedAt : DateTime
  finishedAt : Option DateTime
  deriving DecidableEq, Inhabited

structure StepRecord where
  id : String
  action : String
  status : StepStatus
  outputs : List Value
  error : Option RuntimeFailure
  startedAt : Option DateTime
  finishedAt : Option DateTime
  deriving DecidableEq, Inhabited

structure RunRecord where
  plan : PlannedRun
  status : RunStatus
  revision : Nat
  nextStep : Nat
  steps : List StepRecord
  attempts : List ActionAttempt
  activeAttempt : Option Nat
  cancelRequestedAt : Option DateTime
  createdAt : DateTime
  startedAt : Option DateTime
  updatedAt : DateTime
  finishedAt : Option DateTime
  deriving DecidableEq, Inhabited

namespace RunRecord

/-- The record of a freshly admitted plan. -/
def admitted (plan : PlannedRun) : RunRecord where
  plan := plan
  status := .queued
  revision := 0
  nextStep := 0
  steps := plan.steps.map fun step =>
    { id := step.id
      action := step.action
      status := .pending
      outputs := []
      error := none
      startedAt := none
      finishedAt := none }
  attempts := []
  activeAttempt := none
  cancelRequestedAt := none
  createdAt := plan.createdAt
  startedAt := none
  updatedAt := plan.createdAt
  finishedAt := none

/-- Mark the still pending steps from `start` on as skipped: the loop of
`skip_remaining_steps`, also written out in `request_cancel`. -/
def skipRemainingSteps (run : RunRecord) (start : Nat) (now : DateTime) : RunRecord :=
  { run with
    steps := run.steps.take start ++ (run.steps.drop start).map fun step =>
      if step.status = .pending then
        { step with status := .skipped, finishedAt := some now }
      else step }

/-- Cancellation of a run: recorded on every run that is not terminal, and
carried out at once when no worker holds the run. The result is `none` where the
source answers `false`. -/
def requestCancel (run : RunRecord) (now : DateTime) : Option RunRecord :=
  if run.status.terminal then none
  else
    let run := { run with
      cancelRequestedAt := some (run.cancelRequestedAt.getD now)
      updatedAt := now }
    if run.status = .queued ∨ run.status = .waiting then
      let current := run.nextStep
      let run := { run with
        steps := run.steps.modify current fun step =>
          { step with status := .cancelled, finishedAt := some now } }
      let run := run.skipRemainingSteps (current + 1) now
      some { run with
        nextStep := run.steps.length
        status := .cancelled
        finishedAt := some now }
    else some run

@[simp] theorem admitted_plan (plan : PlannedRun) : (admitted plan).plan = plan := rfl

@[simp] theorem admitted_status (plan : PlannedRun) : (admitted plan).status = .queued := rfl

@[simp] theorem admitted_startedAt (plan : PlannedRun) : (admitted plan).startedAt = none := rfl

theorem requestCancel_eq_none_iff {run : RunRecord} {now : DateTime} :
    run.requestCancel now = none ↔ run.status.terminal = true := by
  unfold requestCancel
  split
  next terminal => simp [terminal]
  next active =>
    simp only [active]
    split <;> simp

/-- What an accepted cancellation leaves alone and what it sets. -/
structure Cancellation (run cancelled : RunRecord) : Prop where
  active : run.status.terminal = false
  plan : cancelled.plan = run.plan
  revision : cancelled.revision = run.revision
  createdAt : cancelled.createdAt = run.createdAt
  startedAt : cancelled.startedAt = run.startedAt
  requested : cancelled.cancelRequestedAt.isSome
  status : cancelled.status = if run.status = .running then .running else .cancelled

/-- An accepted request turns a run into a cancelled one and keeps the rest of it. -/
theorem requestCancel_cancellation {run cancelled : RunRecord} {now : DateTime}
    (accepted : run.requestCancel now = some cancelled) : Cancellation run cancelled := by
  unfold requestCancel at accepted
  split at accepted
  next => cases accepted
  rename_i active
  dsimp only at accepted
  split at accepted
  next idle =>
    cases accepted
    refine ⟨by simpa using active, rfl, rfl, rfl, rfl, rfl, ?_⟩
    rcases idle with idle | idle <;> simp [idle]
  rename_i busy
  cases accepted
  refine ⟨by simpa using active, rfl, rfl, rfl, rfl, rfl, ?_⟩
  cases status : run.status <;> simp_all [RunStatus.terminal]

end RunRecord

inductive TimerStatus where
  | scheduled
  | firing
  | fired
  | cancelled
  deriving DecidableEq, Inhabited

structure TimerRecord where
  id : String
  generation : Nat
  status : TimerStatus
  fireAt : DateTime
  eventContract : ExactContractReference
  eventSource : ImplementationIdentity
  sourceUri : String
  subject : Option String
  data : Value
  createdAt : DateTime
  updatedAt : DateTime
  firedAt : Option DateTime
  deriving DecidableEq, Inhabited

/-- The timer statuses that still lead to a firing. -/
def TimerStatus.active : TimerStatus → Bool
  | .scheduled | .firing => true
  | .fired | .cancelled => false

/-- `stable_id`. The digest of a text, as lower-case hexadecimal digits, is a
parameter. -/
def stableId (sha256 : String → String) (kind source : String) : String :=
  kind ++ "_" ++ String.ofList ((sha256 source).toList.take 26)

inductive RuntimeError where
  | diagnostic (code message : String)
  | store (message : String)
  | provider (message : String)
  | serialization (message : String)
  | clock (message : String)
  deriving DecidableEq, Inhabited

/-- The stable code of an error. -/
def RuntimeError.code : RuntimeError → String
  | .diagnostic code _ => code
  | .store _ => "runtime_store_error"
  | .provider _ => "action_provider_error"
  | .serialization _ => "runtime_serialization_error"
  | .clock _ => "runtime_clock_error"

end Mdbase.Runtime
