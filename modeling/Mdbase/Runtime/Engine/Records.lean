import Mdbase.Runtime.Engine.Dispatch

/-!
# The records that the engine commits

What each place of the engine writes into a run record before it commits it, as
functions of the record and of the clock readings, and the values that the
expressions of a step are evaluated against.
-/

namespace Mdbase.Runtime

/-- The text of a step status in JSON. -/
def StepStatus.text : StepStatus → String
  | .pending => "pending"
  | .running => "running"
  | .succeeded => "succeeded"
  | .failed => "failed"
  | .skipped => "skipped"
  | .cancelled => "cancelled"
  | .timedOut => "timed_out"
  | .indeterminate => "indeterminate"

/-- The statuses in which a step has come to its end. -/
def StepStatus.final : StepStatus → Bool
  | .pending | .running => false
  | .succeeded | .failed | .skipped | .cancelled | .timedOut | .indeterminate => true

namespace ActionAttempt

/-- An attempt that did not take effect. -/
def fail (attempt : ActionAttempt) (failure : RuntimeFailure) (now : DateTime) : ActionAttempt :=
  { attempt with status := .failed, error := some failure, finishedAt := some now }

/-- An attempt whose effect is not known. -/
def lose (attempt : ActionAttempt) (failure : RuntimeFailure) (now : DateTime) : ActionAttempt :=
  { attempt with status := .indeterminate, error := some failure, finishedAt := some now }

/-- An attempt that took effect. -/
def succeed (attempt : ActionAttempt) (output receipt : Value) (now : DateTime) : ActionAttempt :=
  { attempt with
    status := .succeeded
    output := some output
    receipt := some receipt
    finishedAt := some now }

/-- An attempt that took effect with an output its contract does not allow. -/
def reject (attempt : ActionAttempt) (failure : RuntimeFailure) (receipt : Value)
    (now : DateTime) : ActionAttempt :=
  { attempt.fail failure now with receipt := some receipt }

end ActionAttempt

namespace RunRecord

/-- Write to one attempt. -/
def setAttempt (run : RunRecord) (index : Nat) (write : ActionAttempt → ActionAttempt) :
    RunRecord :=
  { run with attempts := run.attempts.modify index write }

/-- Write to one attempt and leave it. -/
def settleAttempt (run : RunRecord) (index : Nat) (write : ActionAttempt → ActionAttempt) :
    RunRecord :=
  { run.setAttempt index write with activeAttempt := none }

/-- Write to the current step. -/
def setStep (run : RunRecord) (write : StepRecord → StepRecord) : RunRecord :=
  { run with steps := run.steps.modify run.nextStep write }

/-- End the current step. -/
def endStep (run : RunRecord) (status : StepStatus) (now : DateTime) : RunRecord :=
  run.setStep fun step => { step with status := status, finishedAt := some now }

/-- End the current step with a failure. -/
def breakStep (run : RunRecord) (status : StepStatus) (failure : RuntimeFailure)
    (now : DateTime) : RunRecord :=
  run.setStep fun step =>
    { step with status := status, error := some failure, finishedAt := some now }

/-- End a run at its current step: the steps after it are skipped. -/
def conclude (run : RunRecord) (status : RunStatus) (now : DateTime) : RunRecord :=
  { run.skipRemainingSteps (run.nextStep + 1) now with
    nextStep := run.steps.length
    status := status
    finishedAt := some now
    updatedAt := now }

/-- `fail_step`. -/
def failStep (run : RunRecord) (failure : RuntimeFailure) (now : DateTime) : RunRecord :=
  { run.breakStep .failed failure now with activeAttempt := none, updatedAt := now }

/-- `advance_failed_step`. -/
def advanceFailedStep (run : RunRecord) (now : DateTime) : RunRecord :=
  if run.plan.onError = .stop then run.conclude .failed now
  else { run with nextStep := run.nextStep + 1, updatedAt := now }

/-- `finish_cancelled`. -/
def finishCancelled (run : RunRecord) (now : DateTime) : RunRecord :=
  { (run.endStep .cancelled now).conclude .cancelled now with activeAttempt := none }

/-- `indeterminate_active_attempt`. -/
def indeterminateActiveAttempt (run : RunRecord) (active : Nat) (failure : RuntimeFailure)
    (now : DateTime) : RunRecord :=
  ((run.settleAttempt active fun attempt => attempt.lose failure now).breakStep .indeterminate
    failure now).conclude .indeterminate now

/-- `timeout_run`. -/
def timeoutRun (run : RunRecord) (now : DateTime) : RunRecord :=
  let failure : RuntimeFailure :=
    ⟨"workflow_timed_out", "The workflow exceeded its execution deadline."⟩
  { (run.breakStep .timedOut failure now).conclude .failed now with activeAttempt := none }

/-- A step whose condition does not hold. -/
def skipStep (run : RunRecord) (now : DateTime) : RunRecord :=
  { run.endStep .skipped now with nextStep := run.nextStep + 1, updatedAt := now }

/-- A step that is entered; its first start is kept. -/
def startStep (run : RunRecord) (startedAt now : DateTime) : RunRecord :=
  { run.setStep (fun step =>
      { step with status := .running, startedAt := some (step.startedAt.getD startedAt) }) with
    updatedAt := now }

/-- A new attempt that is about to be dispatched. -/
def startAttempt (run : RunRecord) (attempt : ActionAttempt) (now : DateTime) : RunRecord :=
  { run with
    attempts := run.attempts ++ [attempt]
    activeAttempt := some run.attempts.length
    updatedAt := now }

/-- The output of a successful attempt, added to the current step. -/
def succeedAttempt (run : RunRecord) (active : Nat) (output receipt : Value) (now : DateTime) :
    RunRecord :=
  { (run.settleAttempt active fun attempt => attempt.succeed output receipt now).setStep
      (fun step => { step with outputs := step.outputs ++ [output] }) with
    updatedAt := now }

/-- A successful attempt that was answered after the deadline. -/
def succeedLate (run : RunRecord) (active : Nat) (output receipt : Value) (now : DateTime) :
    RunRecord :=
  let failure : RuntimeFailure :=
    ⟨"workflow_timed_out", "The action completed after the workflow deadline."⟩
  ((run.settleAttempt active fun attempt => attempt.succeed output receipt now).breakStep .timedOut
    failure now).conclude .failed now

/-- An attempt that may not be repeated and whose outcome is unknown. Unlike in
`indeterminateActiveAttempt` the attempt stays the active one. -/
def loseAttempt (run : RunRecord) (active : Nat) (failure : DispatchFailure) (now : DateTime) :
    RunRecord :=
  ((run.setAttempt active fun attempt =>
      attempt.lose ⟨failure.code, failure.message⟩ now).breakStep .indeterminate
    ⟨"action_outcome_indeterminate", failure.message⟩ now).conclude .indeterminate now

/-- A step whose items are done. -/
def succeedStep (run : RunRecord) (now : DateTime) : RunRecord :=
  { run.endStep .succeeded now with nextStep := run.nextStep + 1, updatedAt := now }

/-- A run whose steps are done. -/
def finish (run : RunRecord) (now : DateTime) : RunRecord :=
  { run with
    status := if run.steps.any fun step => step.status = .failed then .failed else .succeeded
    finishedAt := some now
    updatedAt := now }

/-- The number of attempts made for one item of a step. -/
def attemptsOf (run : RunRecord) (stepId : String) (itemIndex : Option Nat) : Nat :=
  run.attempts.countP fun attempt => attempt.stepId = stepId ∧ attempt.itemIndex = itemIndex

/-- The output of a step as expressions see it. -/
def outputValue : List Value → Value
  | [] => .null
  | [one] => one
  | many => .array many

/-- `bindings`, without an item: what the expressions of a run refer to. -/
def bindings (run : RunRecord) : Value :=
  .object [
    ("event", run.plan.event),
    ("steps", run.steps.foldl (fun steps step => steps.set step.id (.object [
      ("output", outputValue step.outputs),
      ("status", .string step.status.text)])) (.object [])),
    ("trigger", .object [
      ("event", .string run.plan.eventType),
      ("id", .string run.plan.trigger)]),
    ("vars", run.plan.vars),
    ("workflow", .object [
      ("id", .string run.plan.workflow),
      ("version", .string run.plan.workflowVersion)])]

end RunRecord

/-- A condition is met when it evaluates to `true`. -/
def conditionHolds (ext : Externals) (config : RuntimeConfig) (run : RunRecord)
    (condition : String) (now : DateTime) : Except RuntimeFailure Bool :=
  match ext.evaluateRuntimeExpression condition run.bindings now config.timezone with
  | .ok value => .ok (value = .bool true)
  | .error error => .error ⟨error.code, error.message⟩

/-- The items that the `for_each` of a step expands to. -/
def expandItems (ext : Externals) (config : RuntimeConfig) (run : RunRecord) (stepId : String)
    (forEach : PlannedForEach) (now : DateTime) : Except RuntimeFailure (List Value) :=
  match ext.evaluateRuntimeTemplate forEach.items run.bindings now config.timezone with
  | .error errors => .error (runtimeFailure (expressionErrors errors))
  | .ok value =>
    match value.asArray with
    | none => .error ⟨"workflow_expression_type",
        "for_each for step " ++ stepId ++ " must evaluate to a list."⟩
    | some items => .ok items

/-- The failure of a step that expands to too many items. -/
def itemLimitFailure (config : RuntimeConfig) (stepId : String) (count : Nat) : RuntimeFailure :=
  ⟨"workflow_item_limit", "Step " ++ stepId ++ " expanded " ++ toString count ++
    " items; limit is " ++ toString config.maxItems ++ "."⟩

/-- The input of an item, and whether the pinned action accepts it. -/
def itemInput (ext : Externals) (config : RuntimeConfig) (run : RunRecord)
    (planned : PlannedStep) (item : Value) (now : DateTime) : Except RuntimeFailure Value :=
  let bindings := match planned.forEach with
    | some forEach => run.bindings.set forEach.binding item
    | none => run.bindings
  match ext.evaluateRuntimeTemplate planned.input bindings now config.timezone with
  | .error errors => .error (runtimeFailure (expressionErrors errors))
  | .ok input =>
    match pinnedAction ext planned with
    | .error error => .error (runtimeFailure error)
    | .ok action =>
      match validateActionValue ext action "input_schema" input with
      | .error message => .error ⟨"action_input_invalid", message⟩
      | .ok () => .ok input

/-- A new attempt for an item of a step. -/
def newAttempt (ext : Externals) (run : RunRecord) (planned : PlannedStep)
    (itemIndex : Option Nat) (input : Value) (now : DateTime) : ActionAttempt where
  stepId := planned.id
  itemIndex := itemIndex
  invocationId := stableId ext.sha256 "inv" (itemText run.plan.id planned.id itemIndex)
  action := planned.action
  actionVersion := planned.actionVersion
  attempt := run.attemptsOf planned.id itemIndex + 1
  status := .dispatching
  idempotent := planned.idempotent
  input := input
  output := none
  receipt := none
  error := none
  startedAt := now
  finishedAt := none

end Mdbase.Runtime
