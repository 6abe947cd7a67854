import Mdbase.Runtime.Engine.Records

/-!
# The execution of a claim

`execute_claim` and the functions it calls, as programs that ask the clock, the
store, the authorizer and the providers. An index that the source would panic on
is checked by `demand`; the loop over the steps is bounded by the number of steps.
-/

namespace Mdbase.Runtime

open Library

inductive WorkerOutcome where
  | idle
  | completed (runId : String) (status : RunStatus)
  | deferred (runId reason : String)
  deriving DecidableEq

namespace Engine

/-- Ask one question. -/
def ask (question : Question) : Engine question.Answer := ExceptT.lift (Program.query question)

/-- Read the clock. -/
def now (use : ClockUse) : Engine DateTime := ask (.now use)

/-- End with an error. -/
def fail {α : Type} (error : RuntimeError) : Engine α := throw (.error error)

/-- Go on only where the source does not panic. -/
def demand (holds : Prop) [Decidable holds] : Engine Unit := if holds then pure () else throw .panic

/-- Commit a record of the claimed run. -/
def commitRun (site : CommitSite) (claim : Claim) (run : RunRecord) : Engine Claim := do
  let reply : Except RuntimeError Claim ← ask (.commitRun site { claim with run := run })
  match reply with
  | .ok claim => pure claim
  | .error error => fail error

/-- `authorize`. -/
def authorize (dispatch : ActionDispatch) : Engine (Except RuntimeError Unit) := do
  let decision : AuthorizationDecision ← ask (.authorize dispatch)
  match decision with
  | .allow => pure (.ok ())
  | .deny code message => pure (.error (.diagnostic code message))

/-- Is a live handler registered for the provider of a step? -/
def hasProvider (planned : PlannedStep) : Engine Bool :=
  ask (.provider planned.providerDeclarationDigest planned.handlerId)

/-- `deadline_elapsed`. -/
def deadlineElapsed (run : RunRecord) : Engine Bool := do
  match run.plan.timeoutAt with
  | none => pure false
  | some deadline => pure (decide (deadline ≤ (← now .other)))

/-- `fail_step`. -/
def failStep (site : CommitSite) (claim : Claim) (failure : RuntimeFailure) : Engine Claim := do
  let instant ← now .other
  demand (claim.run.nextStep < claim.run.steps.length)
  commitRun site claim (claim.run.failStep failure instant)

/-- `advance_failed_step`. -/
def advanceFailedStep (claim : Claim) : Engine Claim := do
  let instant ← now .other
  commitRun .failureAdvanced claim (claim.run.advanceFailedStep instant)

/-- `advance_after_failure`, which is called for conditions and item lists. -/
def advanceAfterFailure (claim : Claim) (failure : RuntimeFailure) : Engine Claim := do
  advanceFailedStep (← failStep .conditionFailed claim failure)

/-- `finish_cancelled`. -/
def finishCancelled (claim : Claim) : Engine Claim := do
  let instant ← now .other
  commitRun .cancelled claim (claim.run.finishCancelled instant)

/-- `indeterminate_active_attempt`. -/
def indeterminateActiveAttempt (claim : Claim) (active : Nat) (code message : String) :
    Engine Claim := do
  let instant ← now .other
  demand (active < claim.run.attempts.length)
  demand (claim.run.nextStep < claim.run.steps.length)
  commitRun .interrupted claim
    (claim.run.indeterminateActiveAttempt active ⟨code, message⟩ instant)

/-- `fail_active_attempt`. -/
def failActiveAttempt (claim : Claim) (active : Nat) (failure : RuntimeFailure) :
    Engine Claim := do
  demand (active < claim.run.attempts.length)
  let instant ← now .other
  failStep .attemptFailed
    { claim with run := claim.run.settleAttempt active fun attempt => attempt.fail failure instant }
    failure

/-- `timeout_run`. -/
def timeoutRun (claim : Claim) : Engine Claim := do
  let instant ← now .other
  commitRun .timedOut claim (claim.run.timeoutRun instant)

/-- `cancellation_outcome`; what it returns is dropped by `execute_claim`. -/
def cancellationOutcome (ext : Externals) (run : RunRecord) : Engine Unit := do
  if run.status.terminal then pure ()
  else
    match run.activeAttempt.bind fun index => run.attempts[index]?, run.plan.steps[run.nextStep]? with
    | some active, some planned =>
      if planned.cooperativeCancellation then
        if ← hasProvider planned then
          let instant ← now .other
          let _ ← ask (.cancel
            (stableId ext.sha256 "cancel" (run.plan.id ++ ":" ++ active.invocationId))
            (stableId ext.sha256 "req" (itemText run.plan.id active.stepId active.itemIndex))
            instant)
          pure ()
        else pure ()
      else pure ()
    | _, _ => pure ()

/-- The result of a dispatch: a limit that elapses leaves its outcome unknown. -/
def providerResult : (limit : Option Duration) → (invocation : ActionInvocation) →
    Question.Answer (.dispatch limit invocation) → Except DispatchFailure ActionOutcome
  | none, _, result => result
  | some _, _, some result => result
  | some _, _, none => .error {
      code := "action_dispatch_timed_out"
      message := "The workflow deadline elapsed while the action was dispatching."
      outcome := .unknown }

/-- The time that is left until a deadline. -/
def remaining (deadline now : DateTime) : Duration := (deadline - now).toNat

/-- Call the provider and check its answer. -/
def callProvider (ext : Externals) (run : RunRecord) (dispatch : ActionDispatch) :
    Engine (Except DispatchFailure (Value × Value)) := do
  let limit ← match run.plan.timeoutAt with
    | some deadline => pure (some (remaining deadline (← now .other)))
    | none => pure none
  let answer ← ask (.dispatch limit dispatch.invocation)
  pure ((providerResult limit dispatch.invocation answer).bind
    (normalizeOutcome ext dispatch.invocation))

/-- What `dispatch_active_attempt` makes of the answer of a provider. -/
def recordOutcome (ext : Externals) (claim : Claim) (active : Nat) (attempt : ActionAttempt)
    (pinned : Value) : Except DispatchFailure (Value × Value) → Engine Claim
  | .ok (output, receipt) => do
      match validateActionValue ext pinned "output_schema" output with
      | .error message =>
        let failure : RuntimeFailure := ⟨"action_output_invalid", message⟩
        let instant ← now .other
        failStep .attemptFailed
          { claim with
            run := claim.run.settleAttempt active fun attempt =>
              attempt.reject failure receipt instant }
          failure
      | .ok () =>
        let instant ← now .other
        if ← deadlineElapsed claim.run then
          demand (claim.run.nextStep < claim.run.steps.length)
          commitRun .attemptLate claim (claim.run.succeedLate active output receipt instant)
        else
          demand (claim.run.nextStep < claim.run.steps.length)
          commitRun .attemptSucceeded claim
            (claim.run.succeedAttempt active output receipt instant)
  | .error failure => do
      match failure.outcome with
      | .notApplied =>
        let instant ← now .other
        let failed := { claim with
          run := claim.run.settleAttempt active fun attempt =>
            attempt.fail ⟨failure.code, failure.message⟩ instant }
        if ← deadlineElapsed claim.run then timeoutRun failed
        else failStep .attemptFailed failed ⟨failure.code, failure.message⟩
      | .unknown =>
        if attempt.idempotent then
          fail (.provider (failure.code ++ ": " ++ failure.message ++ " (safe to replay " ++
            attempt.invocationId ++ ")"))
        else
          let instant ← now .other
          demand (claim.run.nextStep < claim.run.steps.length)
          commitRun .attemptUnknown claim (claim.run.loseAttempt active failure instant)

/-- `dispatch_active_attempt`. -/
def dispatchActiveAttempt (ext : Externals) (config : RuntimeConfig) (claim : Claim)
    (active : Nat) : Engine Claim := do
  match claim.run.attempts[active]? with
  | none => throw .panic
  | some attempt =>
    match claim.run.plan.steps[claim.run.nextStep]? with
    | none => fail (.diagnostic "invalid_run_state"
        "Active attempt has no corresponding planned step.")
    | some planned =>
      match pinnedAction ext planned with
      | .error error => failActiveAttempt claim active (runtimeFailure error)
      | .ok pinned =>
        let instant ← now .other
        let dispatch := dispatchValue ext config instant claim planned attempt.itemIndex
          attempt.invocationId attempt.attempt attempt.input
        match ← authorize dispatch with
        | .error error => failActiveAttempt claim active (runtimeFailure error)
        | .ok () =>
          if ← hasProvider planned then
            recordOutcome ext claim active attempt pinned
              (← callProvider ext claim.run dispatch)
          else
            failActiveAttempt claim active ⟨"unsupported_action_handler",
              "No live handler is registered for declaration " ++
                planned.providerDeclarationDigest ++ " handler " ++ planned.handlerId ++
                "."⟩

/-- Store a new attempt for an item and dispatch it. -/
def attemptItem (ext : Externals) (config : RuntimeConfig) (claim : Claim)
    (planned : PlannedStep) (itemIndex : Option Nat) (input : Value) : Engine Claim := do
  let startedAt ← now .other
  let attempt := newAttempt ext claim.run planned itemIndex input startedAt
  let instant ← now .other
  let stored ← commitRun .attemptStarted claim (claim.run.startAttempt attempt instant)
  dispatchActiveAttempt ext config stored claim.run.attempts.length

/-- One round of the loop over the items of a step, up to its last check. -/
def runItem (ext : Externals) (config : RuntimeConfig) (planned : PlannedStep) (claim : Claim)
    (item : Value) (index : Nat) : Engine Claim := do
  let itemIndex := planned.forEach.map fun _ => index
  match itemInput ext config claim.run planned item (← now .other) with
  | .error failure => failStep .itemFailed claim failure
  | .ok input =>
    let number := claim.run.attemptsOf planned.id itemIndex + 1
    let invocationId := stableId ext.sha256 "inv" (itemText claim.run.plan.id planned.id itemIndex)
    let dispatch := dispatchValue ext config (← now .other) claim planned itemIndex
      invocationId number input
    match ← authorize dispatch with
    | .error error => failStep .itemFailed claim (runtimeFailure error)
    | .ok () => attemptItem ext config claim planned itemIndex input

/-- Has the current step failed? -/
def stepFailed (run : RunRecord) (index : Nat) : Bool :=
  run.steps[index]?.any fun step => step.status = .failed

/-- The loop over the items of a step, which ends early when the run ends or the
step fails. -/
def runItems (ext : Externals) (config : RuntimeConfig) (planned : PlannedStep)
    (stepIndex : Nat) : Claim → List (Value × Nat) → Engine Claim
  | claim, [] => pure claim
  | claim, (item, index) :: rest => do
      let claim ← runItem ext config planned claim item index
      if claim.run.status.terminal || stepFailed claim.run stepIndex then pure claim
      else runItems ext config planned stepIndex claim rest

/-- How a round of the loop over the steps ends. -/
inductive Flow where
  | again (claim : Claim)
  | leave (claim : Claim)
  | done (outcome : WorkerOutcome)

/-- After a failure the loop is left when the run is over. -/
def againUnlessOver (claim : Claim) : Flow :=
  if claim.run.status.terminal then .leave claim else .again claim

/-- `WorkerOutcome::Completed` for a claim. -/
def completed (claim : Claim) : WorkerOutcome := .completed claim.run.plan.id claim.run.status

/-- The first start of a step, or the present instant. -/
def firstStart (step : StepRecord) : Engine DateTime :=
  match step.startedAt with
  | some startedAt => pure startedAt
  | none => now .other

/-- The part of a round after the loop over the items. -/
def leaveStep (claim : Claim) (stepIndex : Nat) : Engine Flow := do
  if claim.run.status.terminal then pure (.leave claim)
  else if stepFailed claim.run stepIndex then
    pure (againUnlessOver (← advanceFailedStep claim))
  else
    let instant ← now .other
    pure (.again (← commitRun .stepSucceeded claim (claim.run.succeedStep instant)))

/-- The part of a round that runs the items of a step. -/
def enterStep (ext : Externals) (config : RuntimeConfig) (claim : Claim) (planned : PlannedStep)
    (items : List Value) : Engine Flow := do
  match claim.run.steps[claim.run.nextStep]? with
  | none => throw .panic
  | some step =>
    let startedAt ← firstStart step
    let instant ← now .other
    let entered ← commitRun .stepStarted claim (claim.run.startStep startedAt instant)
    match entered.run.steps[claim.run.nextStep]? with
    | none => throw .panic
    | some step =>
      let done ← runItems ext config planned claim.run.nextStep entered
        (items.zipIdx.drop step.outputs.length)
      leaveStep done claim.run.nextStep

/-- The items of a step; a step without `for_each` has a single one. -/
def stepItems (ext : Externals) (config : RuntimeConfig) (run : RunRecord)
    (planned : PlannedStep) : Engine (Except RuntimeFailure (List Value)) := do
  match planned.forEach with
  | some forEach => pure (expandItems ext config run planned.id forEach (← now .items))
  | none => pure (.ok [.null])

/-- The part of a round that expands the items of a step. -/
def expandStep (ext : Externals) (config : RuntimeConfig) (claim : Claim)
    (planned : PlannedStep) : Engine Flow := do
  match ← stepItems ext config claim.run planned with
  | .error failure => pure (againUnlessOver (← advanceAfterFailure claim failure))
  | .ok items =>
    if config.maxItems < items.length then
      pure (againUnlessOver (← advanceAfterFailure claim
        (itemLimitFailure config planned.id items.length)))
    else enterStep ext config claim planned items

/-- One round of the loop over the steps. -/
def runStep (ext : Externals) (config : RuntimeConfig) (claim : Claim) : Engine Flow := do
  if ← deadlineElapsed claim.run then pure (.leave (← timeoutRun claim))
  else if claim.run.cancelRequestedAt.isSome then
    let claim ← finishCancelled claim
    pure (.done (.completed claim.run.plan.id .cancelled))
  else
    match claim.run.plan.steps[claim.run.nextStep]? with
    | none => throw .panic
    | some planned =>
      match planned.condition with
      | none => expandStep ext config claim planned
      | some condition =>
        match conditionHolds ext config claim.run condition (← now .condition) with
        | .error failure => pure (againUnlessOver (← advanceAfterFailure claim failure))
        | .ok true => expandStep ext config claim planned
        | .ok false =>
          let instant ← now .other
          demand (claim.run.nextStep < claim.run.steps.length)
          pure (.again (← commitRun .stepSkipped claim (claim.run.skipStep instant)))

/-- The loop over the steps, with a bound on its rounds. -/
def runSteps (ext : Externals) (config : RuntimeConfig) :
    Nat → Claim → Engine (Claim ⊕ WorkerOutcome)
  | bound, claim =>
    if claim.run.nextStep < claim.run.plan.steps.length then
      match bound with
      | 0 => throw .unfinished
      | bound + 1 => do
          match ← runStep ext config claim with
          | .again claim => runSteps ext config bound claim
          | .leave claim => pure (.inl claim)
          | .done outcome => pure (.inr outcome)
    else pure (.inl claim)

/-- The end of `execute_claim`, after the loop. -/
def finishRun (claim : Claim) : Engine WorkerOutcome := do
  if ¬ claim.run.status.terminal ∧ claim.run.plan.steps.length ≤ claim.run.nextStep then
    let instant ← now .other
    pure (completed (← commitRun .finished claim (claim.run.finish instant)))
  else pure (completed claim)

/-- The part of `execute_claim` after an active attempt is dealt with. -/
def continueRun (ext : Externals) (config : RuntimeConfig) (claim : Claim) :
    Engine WorkerOutcome := do
  if ← deadlineElapsed claim.run then pure (completed (← timeoutRun claim))
  else
    match ← runSteps ext config claim.run.plan.steps.length claim with
    | .inl claim => finishRun claim
    | .inr outcome => pure outcome

/-- Resume a run whose active attempt is still dispatching. -/
def resumeAttempt (ext : Externals) (config : RuntimeConfig) (claim : Claim) (active : Nat)
    (attempt : ActionAttempt) : Engine WorkerOutcome := do
  if ¬ attempt.idempotent then
    let claim ← indeterminateActiveAttempt claim active "action_outcome_indeterminate"
      "A non-idempotent dispatch was interrupted before its outcome became durable."
    pure (.completed claim.run.plan.id .indeterminate)
  else
    let claim ← dispatchActiveAttempt ext config claim active
    if claim.run.status.terminal then pure (completed claim)
    else
      demand (claim.run.nextStep < claim.run.steps.length)
      if stepFailed claim.run claim.run.nextStep then
        let claim ← advanceFailedStep claim
        if claim.run.status.terminal then pure (completed claim)
        else continueRun ext config claim
      else continueRun ext config claim

/-- The part of `execute_claim` after a requested cancellation is dealt with. -/
def resumeRun (ext : Externals) (config : RuntimeConfig) (claim : Claim) :
    Engine WorkerOutcome := do
  match claim.run.activeAttempt with
  | none =>
    if ← deadlineElapsed claim.run then pure (completed (← timeoutRun claim))
    else continueRun ext config claim
  | some active =>
    match claim.run.attempts[active]? with
    | none => throw .panic
    | some attempt =>
      if attempt.status = .dispatching then resumeAttempt ext config claim active attempt
      else continueRun ext config claim

/-- `execute_claim`. -/
def executeClaim (ext : Externals) (config : RuntimeConfig) (claim : Claim) :
    Engine WorkerOutcome := do
  if claim.run.cancelRequestedAt.isSome then
    match claim.run.activeAttempt with
    | none =>
      let claim ← finishCancelled claim
      pure (.completed claim.run.plan.id .cancelled)
    | some active =>
      let cooperative := claim.run.plan.steps[claim.run.nextStep]?.any
        fun step => step.cooperativeCancellation
      if cooperative then
        match claim.run.attempts[active]? with
        | none => throw .panic
        | some attempt =>
          if attempt.status = .dispatching then
            cancellationOutcome ext claim.run
            let claim ← indeterminateActiveAttempt claim active
              "action_cancellation_outcome_indeterminate"
              "A cooperative action was cancelled while its dispatch outcome was not durable."
            pure (.completed claim.run.plan.id .indeterminate)
          else resumeRun ext config claim
      else resumeRun ext config claim
  else resumeRun ext config claim

end Engine

end Mdbase.Runtime
