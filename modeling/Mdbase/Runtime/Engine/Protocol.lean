import Mdbase.Runtime.Engine.Execution
import Mdbase.Runtime.Engine.Soundness

/-!
# The protocol of a worker

What a worker may commit and dispatch, depending on the record it holds and on
the stage of `execute_claim` it is in. `Commit` lists every commit of the engine
with the facts that are known where it is made; `engineProtocol` adds when a
dispatch is made. `Conditions` restricts the surroundings: which events are
admitted, which runs are claimed, what the clock and the providers answer.
-/

namespace Mdbase.Runtime

open Library

/-- A stage of `execute_claim`: the condition and the items of the current step
are still to be evaluated, its items are run, an attempt was stored and not
dispatched, a dispatch was answered, or the step was stored as failed. -/
inductive Stage where
  | evaluating
  | items
  | fresh
  | answered (resumed : Bool) (result : Except DispatchFailure (Value × Value))
  | failed

/-- The stage after a commit. A resumed attempt leads back to the evaluation of
the step it belongs to. -/
def Stage.after : Stage → CommitSite → Stage
  | _, .conditionFailed | _, .itemFailed | _, .attemptFailed => .failed
  | _, .stepStarted => .items
  | _, .attemptStarted => .fresh
  | .answered false _, .attemptSucceeded => .items
  | _, _ => .evaluating

/-- What a worker holds and where it is. -/
structure Position where
  config : RuntimeConfig
  claim : Claim
  stage : Stage

/-- Restrictions on the surroundings of the workers. -/
structure Conditions where
  admits : MemoryState → PreparedEvent → Prop
  claims : RuntimeConfig → RunRecord → Prop
  reads : RuntimeConfig → RunRecord → ClockUse → DateTime → Prop
  answers : RunRecord → Except DispatchFailure (Value × Value) → Prop

/-- No restriction. -/
abbrev Conditions.none : Conditions where
  admits _ _ := True
  claims _ _ := True
  reads _ _ _ _ := True
  answers _ _ := True

/-- Why a step fails before its items are run. -/
inductive Unevaluated (ext : Externals) (conditions : Conditions) (config : RuntimeConfig)
    (run : RunRecord) (planned : PlannedStep) (failure : RuntimeFailure) : Prop where
  | condition {condition : String} {now : DateTime} (present : planned.condition = some condition)
      (read : conditions.reads config run .condition now)
      (fails : conditionHolds ext config run condition now = .error failure)
  | items {forEach : PlannedForEach} {now : DateTime} (present : planned.forEach = some forEach)
      (read : conditions.reads config run .items now)
      (fails : expandItems ext config run planned.id forEach now = .error failure)
  | limit {forEach : PlannedForEach} {items : List Value} {now : DateTime}
      (present : planned.forEach = some forEach) (read : conditions.reads config run .items now)
      (expands : expandItems ext config run planned.id forEach now = .ok items)
      (exceeds : config.maxItems < items.length)
  | single (absent : planned.forEach = none) (exceeds : config.maxItems < 1)

/-- How the active attempt of a run that fails is written. -/
inductive FailedAttempt (failure : RuntimeFailure) :
    (ActionAttempt → ActionAttempt) → Prop where
  | fail (now : DateTime) : FailedAttempt failure fun attempt => attempt.fail failure now
  | reject (receipt : Value) (now : DateTime) :
      FailedAttempt failure fun attempt => attempt.reject failure receipt now

/-- The commits of the engine. -/
inductive Commit (ext : Externals) (conditions : Conditions) (position : Position) :
    CommitSite → RunRecord → Prop where
  | cancelled (now : DateTime) (stage : position.stage = .evaluating)
      (idle : position.claim.run.activeAttempt = none) :
      Commit ext conditions position .cancelled (position.claim.run.finishCancelled now)
  | interrupted {active : Nat} (failure : RuntimeFailure) (now : DateTime)
      (stage : position.stage = .evaluating)
      (isActive : position.claim.run.activeAttempt = some active) :
      Commit ext conditions position .interrupted
        (position.claim.run.indeterminateActiveAttempt active failure now)
  | timedOut (now : DateTime) (stage : position.stage = .evaluating)
      (idle : position.claim.run.activeAttempt = none) :
      Commit ext conditions position .timedOut (position.claim.run.timeoutRun now)
  | timedOutUnapplied {active : Nat} {resumed : Bool} {result : DispatchFailure}
      (failure : RuntimeFailure) (failedAt now : DateTime)
      (stage : position.stage = .answered resumed (.error result))
      (isActive : position.claim.run.activeAttempt = some active) :
      Commit ext conditions position .timedOut
        ((position.claim.run.settleAttempt active fun attempt =>
          attempt.fail failure failedAt).timeoutRun now)
  | conditionFailed {planned : PlannedStep} {failure : RuntimeFailure} (now : DateTime)
      (stage : position.stage = .evaluating) (idle : position.claim.run.activeAttempt = none)
      (found : position.claim.run.plan.steps[position.claim.run.nextStep]? = some planned)
      (cause : Unevaluated ext conditions position.config position.claim.run planned failure) :
      Commit ext conditions position .conditionFailed (position.claim.run.failStep failure now)
  | itemFailed (failure : RuntimeFailure) (now : DateTime) (stage : position.stage = .items) :
      Commit ext conditions position .itemFailed (position.claim.run.failStep failure now)
  | attemptFailed {active : Nat} {failure : RuntimeFailure}
      {write : ActionAttempt → ActionAttempt} (now : DateTime)
      (stage : position.stage ≠ .items ∧ position.stage ≠ .failed)
      (isActive : position.claim.run.activeAttempt = some active)
      (written : FailedAttempt failure write) :
      Commit ext conditions position .attemptFailed
        ((position.claim.run.settleAttempt active write).failStep failure now)
  | failureAdvanced (now : DateTime) (stage : position.stage = .failed) :
      Commit ext conditions position .failureAdvanced
        (position.claim.run.advanceFailedStep now)
  | stepSkipped {planned : PlannedStep} {condition : String} {evaluatedAt : DateTime}
      (now : DateTime) (stage : position.stage = .evaluating)
      (idle : position.claim.run.activeAttempt = none)
      (found : position.claim.run.plan.steps[position.claim.run.nextStep]? = some planned)
      (present : planned.condition = some condition)
      (read : conditions.reads position.config position.claim.run .condition evaluatedAt)
      (unmet : conditionHolds ext position.config position.claim.run condition evaluatedAt =
        .ok false) :
      Commit ext conditions position .stepSkipped (position.claim.run.skipStep now)
  | stepStarted (startedAt now : DateTime) (stage : position.stage = .evaluating)
      (idle : position.claim.run.activeAttempt = none)
      (within : position.claim.run.nextStep < position.claim.run.steps.length) :
      Commit ext conditions position .stepStarted
        (position.claim.run.startStep startedAt now)
  | attemptStarted {planned : PlannedStep} {step : StepRecord} (input : Value)
      (startedAt now : DateTime) (stage : position.stage = .items)
      (found : position.claim.run.plan.steps[position.claim.run.nextStep]? = some planned)
      (stored : position.claim.run.steps[position.claim.run.nextStep]? = some step)
      (single : planned.forEach = none → step.outputs = []) :
      Commit ext conditions position .attemptStarted
        (position.claim.run.startAttempt
          (newAttempt ext position.claim.run planned
            (planned.forEach.map fun _ => step.outputs.length) input startedAt) now)
  | attemptSucceeded {active : Nat} {resumed : Bool} {output receipt : Value} (now : DateTime)
      (stage : position.stage = .answered resumed (.ok (output, receipt)))
      (isActive : position.claim.run.activeAttempt = some active) :
      Commit ext conditions position .attemptSucceeded
        (position.claim.run.succeedAttempt active output receipt now)
  | attemptLate {active : Nat} {resumed : Bool} {output receipt : Value} (now : DateTime)
      (stage : position.stage = .answered resumed (.ok (output, receipt)))
      (isActive : position.claim.run.activeAttempt = some active) :
      Commit ext conditions position .attemptLate
        (position.claim.run.succeedLate active output receipt now)
  | attemptUnknown {active : Nat} {resumed : Bool} {failure : DispatchFailure}
      {attempt : ActionAttempt} (now : DateTime)
      (stage : position.stage = .answered resumed (.error failure))
      (isActive : position.claim.run.activeAttempt = some active)
      (found : position.claim.run.attempts[active]? = some attempt)
      (unsafe_ : attempt.idempotent = false) (unknown : failure.outcome = .unknown)
      (answered : conditions.answers position.claim.run (.error failure)) :
      Commit ext conditions position .attemptUnknown
        (position.claim.run.loseAttempt active failure now)
  | stepSucceeded (now : DateTime) (stage : position.stage = .items) :
      Commit ext conditions position .stepSucceeded (position.claim.run.succeedStep now)
  | finished (now : DateTime) (stage : position.stage = .evaluating)
      (done : position.claim.run.plan.steps.length ≤ position.claim.run.nextStep) :
      Commit ext conditions position .finished (position.claim.run.finish now)

/-- When an invocation is sent: it is built from the current step and the active
attempt of the held record, and a stored attempt that may not be repeated is sent
only by the worker that just stored it. -/
structure Dispatches (ext : Externals) (position : Position) (invocation : ActionInvocation) :
    Prop where
  running : position.claim.run.status = .running
  built : ∃ active attempt planned now,
    position.claim.run.activeAttempt = some active ∧
      position.claim.run.attempts[active]? = some attempt ∧
      position.claim.run.plan.steps[position.claim.run.nextStep]? = some planned ∧
      (position.stage = .evaluating → attempt.idempotent = true) ∧
      invocation = (dispatchValue ext position.config now position.claim planned
        attempt.itemIndex attempt.invocationId attempt.attempt attempt.input).invocation
  stage : position.stage = .fresh ∨ position.stage = .evaluating

/-- Is the worker about to evaluate the current step? -/
def Stage.isEvaluating : Stage → Bool
  | .evaluating => true
  | .items | .fresh | .answered _ _ | .failed => false

/-- The position after a dispatch was answered. -/
def Position.receive (ext : Externals) (position : Position) (limit : Option Duration)
    (invocation : ActionInvocation) (answer : Question.Answer (.dispatch limit invocation)) :
    Position :=
  { position with
    stage := .answered position.stage.isEvaluating
      ((Engine.providerResult limit invocation answer).bind (normalizeOutcome ext invocation)) }

/-- The claim that a successful commit returns. -/
def Claim.bump (claim : Claim) : Claim :=
  { claim with run := { claim.run with revision := claim.run.revision + 1 } }

/-- The protocol that a worker follows. -/
def engineProtocol (ext : Externals) (conditions : Conditions) :
    Protocol Question Question.Answer Position where
  allows position
    | .commitRun site submitted => position.claim.run.status = .running ∧
        Commit ext conditions position site submitted.run ∧
        submitted = { position.claim with run := submitted.run }
    | .dispatch _ invocation => Dispatches ext position invocation
    | .now _ | .authorize _ | .provider _ _ | .cancel _ _ _ => True
  moves position
    | .commitRun site submitted, .ok reply, later => reply = submitted.bump ∧
        later = { position with claim := reply, stage := position.stage.after site }
    | .commitRun _ _, .error _, later => later = position
    | .dispatch limit invocation, answer, later =>
      later = position.receive ext limit invocation answer ∧
        conditions.answers position.claim.run
          ((Engine.providerResult limit invocation answer).bind (normalizeOutcome ext invocation))
    | .now use, instant, later =>
      conditions.reads position.config position.claim.run use instant ∧ later = position
    | .authorize _, _, later => later = position
    | .provider _ _, _, later => later = position
    | .cancel _ _ _, _, later => later = position

/-- What is known of the held record in a stage. -/
def Stage.Fits : Stage → RunRecord → Prop
  | .evaluating, _ => True
  | .items, run => run.activeAttempt = none ∧
      ∃ step, run.steps[run.nextStep]? = some step ∧ step.status = .running
  | .fresh, run => run.activeAttempt.isSome = true
  | .answered _ _, run => run.activeAttempt.isSome = true
  | .failed, run => run.activeAttempt = none ∧
      ∃ step, run.steps[run.nextStep]? = some step ∧ step.status = .failed

/-- A position of a worker that has not ended its run. -/
structure Position.Busy (position : Position) : Prop where
  underway : Underway position.claim.run
  fits : position.stage.Fits position.claim.run

/-- What every commit of the engine leaves alone. -/
structure Kept (held run : RunRecord) : Prop where
  plan : run.plan = held.plan
  revision : run.revision = held.revision
  createdAt : run.createdAt = held.createdAt
  startedAt : run.startedAt = held.startedAt
  cancelRequestedAt : run.cancelRequestedAt = held.cancelRequestedAt

theorem Commit.kept {ext : Externals} {conditions : Conditions} {position : Position}
    {site : CommitSite} {run : RunRecord} (commit : Commit ext conditions position site run) :
    Kept position.claim.run run := by
  cases commit with
  | failureAdvanced now _ =>
    unfold RunRecord.advanceFailedStep
    split <;> exact ⟨rfl, rfl, rfl, rfl, rfl⟩
  | _ => exact ⟨rfl, rfl, rfl, rfl, rfl⟩

variable {failure : RuntimeFailure}

theorem Underway.failStep {run settled : RunRecord} {now : DateTime}
    (underway : Underway run) (steps : settled.steps = run.steps) (plan : settled.plan = run.plan)
    (cursor : settled.nextStep = run.nextStep) (status : settled.status = .running)
    (attempts : ∀ attempt ∈ settled.attempts, attempt.status ≠ .dispatching) :
    Underway (settled.failStep failure now) := by
  refine underway.rewrite status plan cursor ⟨fun step =>
    { step with status := .failed, error := some failure, finishedAt := some now },
    ?_, fun _ _ => .inr (.inr rfl)⟩ (fun _ => attempts) (by simp [RunRecord.failStep])
  simp only [RunRecord.failStep, RunRecord.breakStep, RunRecord.setStep, steps, cursor]

theorem failStep_fits {run : RunRecord} {now : DateTime}
    (within : run.nextStep < run.steps.length) :
    Stage.failed.Fits (run.failStep failure now) := by
  refine ⟨rfl, ?_⟩
  have found := (run.setStep_steps? (fun step =>
    { step with status := .failed, error := some failure, finishedAt := some now }) run.nextStep)
  rw [if_pos rfl, List.getElem?_eq_getElem within] at found
  exact ⟨_, found, rfl⟩

theorem FailedAttempt.status {write : ActionAttempt → ActionAttempt}
    (written : FailedAttempt failure write) (attempt : ActionAttempt) :
    (write attempt).status ≠ .dispatching := by
  cases written with
  | fail now => simp [ActionAttempt.fail]
  | reject receipt now => simp [ActionAttempt.reject, ActionAttempt.fail]

section Preservation

variable {ext : Externals} {conditions : Conditions} {position : Position} {run : RunRecord}
  {active : Nat}

theorem Underway.interrupted_ended (underway : Underway run)
    (isActive : run.activeAttempt = some active) (failure : RuntimeFailure) (now : DateTime) :
    Ended (run.indeterminateActiveAttempt active failure now) :=
  underway.ends (run.settleAttempt active _) rfl rfl rfl (fun _ => rfl) rfl (by simp)
    (underway.settled isActive fun attempt => by simp [ActionAttempt.lose])
    (by simp [RunRecord.settleAttempt])

theorem Underway.timedOut_ended (underway : Underway run) (settled : RunRecord)
    (steps : settled.steps = run.steps) (plan : settled.plan = run.plan)
    (cursor : settled.nextStep = run.nextStep)
    (attempts : ∀ attempt ∈ settled.attempts, attempt.status ≠ .dispatching)
    (idle : settled.activeAttempt = none) (now : DateTime) : Ended (settled.timeoutRun now) :=
  (underway.ends settled steps plan cursor (fun _ => rfl) rfl (by simp) attempts
    (by simp [idle])).clear

theorem Underway.cancelled_ended (underway : Underway run) (idle : run.activeAttempt = none)
    (now : DateTime) : Ended (run.finishCancelled now) :=
  (underway.ends run rfl rfl rfl (fun _ => rfl) rfl (by simp) (underway.idle idle)
    (by simp [idle])).clear

theorem Underway.late_ended (underway : Underway run)
    (isActive : run.activeAttempt = some active) (output receipt : Value) (now : DateTime) :
    Ended (run.succeedLate active output receipt now) :=
  underway.ends (run.settleAttempt active _) rfl rfl rfl (fun _ => rfl) rfl (by simp)
    (underway.settled isActive fun attempt => by simp [ActionAttempt.succeed])
    (by simp [RunRecord.settleAttempt])

theorem Underway.unknown_ended {attempt : ActionAttempt} (underway : Underway run)
    (isActive : run.activeAttempt = some active) (found : run.attempts[active]? = some attempt)
    (once : attempt.idempotent = false) (failure : DispatchFailure) (now : DateTime) :
    Ended (run.loseAttempt active failure now) := by
  refine underway.ends (run.setAttempt active _) rfl rfl rfl (fun _ => rfl) rfl (by simp)
    (underway.settled isActive fun attempt => by simp [ActionAttempt.lose]) ?_
  intro index same
  obtain rfl : active = index := Option.some.inj (isActive.symm.trans same)
  refine ⟨rfl, attempt.lose ⟨failure.code, failure.message⟩ now, ?_, once, rfl⟩
  rw [RunRecord.setAttempt_attempts?, if_pos rfl, found]
  rfl

theorem Underway.stopped_ended (underway : Underway run) {step : StepRecord}
    (found : run.steps[run.nextStep]? = some step) (failed : step.status = .failed)
    (idle : run.activeAttempt = none) (now : DateTime) : Ended (run.conclude .failed now) := by
  refine .of_conclude rfl (by simp) underway.length ?_ ?_ (underway.idle idle) (by simp [idle])
  · intro index other reached otherFound
    by_cases here : index = run.nextStep
    · subst here
      obtain rfl : step = other := Option.some.inj (found.symm.trans otherFound)
      rw [failed]
      rfl
    · exact StepStatus.final_of_passed (underway.earlier index other (by omega) otherFound)
  · exact fun index other after otherFound => (underway.later index other after otherFound).1

theorem Underway.finished_ended (underway : Underway run)
    (done : run.plan.steps.length ≤ run.nextStep) (now : DateTime) : Ended (run.finish now) := by
  have idle := underway.idle_of_done done
  have cursor : run.nextStep = run.steps.length :=
    Nat.le_antisymm underway.cursor (underway.length ▸ done)
  have passed : ∀ step ∈ run.steps, step.status.passed = true := by
    intro step member
    obtain ⟨index, found⟩ := List.mem_iff_getElem?.mp member
    have within : index < run.steps.length := (List.getElem?_eq_some_iff.mp found).1
    exact underway.earlier index step (by omega) found
  refine ⟨?_, underway.length, cursor, rfl, ?_, underway.idle idle, ?_, ?_⟩
  · simp only [RunRecord.finish]
    split <;> rfl
  · exact fun step member => StepStatus.final_of_passed (passed step member)
  · intro succeeded step member
    have unfailed : step.status ≠ .failed := by
      intro failed
      have any : (run.steps.any fun step => decide (step.status = .failed)) = true :=
        List.any_eq_true.mpr ⟨step, member, by simpa using failed⟩
      simp only [RunRecord.finish, any, if_true] at succeeded
      cases succeeded
    have known := passed step member
    cases status : step.status <;> simp_all [StepStatus.passed]
  · simp [RunRecord.finish, idle]

theorem Underway.start_underway (underway : Underway run) (idle : run.activeAttempt = none)
    (startedAt now : DateTime) : Underway (run.startStep startedAt now) := by
  refine underway.rewrite underway.status rfl rfl ⟨fun step =>
    { step with status := .running, startedAt := some (step.startedAt.getD startedAt) }, rfl,
    fun _ _ => .inr (.inl rfl)⟩ (fun _ => underway.idle idle) ?_
  intro index found
  rw [show (run.startStep startedAt now).activeAttempt = run.activeAttempt from rfl, idle] at found
  cases found

theorem startStep_fits (within : run.nextStep < run.steps.length)
    (idle : run.activeAttempt = none) (startedAt now : DateTime) :
    Stage.items.Fits (run.startStep startedAt now) := by
  refine ⟨idle, ?_⟩
  have found := run.setStep_steps? (fun step =>
    { step with status := .running, startedAt := some (step.startedAt.getD startedAt) })
    run.nextStep
  rw [if_pos rfl, List.getElem?_eq_getElem within] at found
  exact ⟨_, found, rfl⟩

theorem Underway.attempt_underway (underway : Underway run) {planned : PlannedStep}
    {step : StepRecord} (idle : run.activeAttempt = none)
    (found : run.plan.steps[run.nextStep]? = some planned)
    (stored : run.steps[run.nextStep]? = some step) (running : step.status = .running)
    (single : planned.forEach = none → step.outputs = []) (input : Value)
    (startedAt now : DateTime) :
    Underway (run.startAttempt (newAttempt ext run planned
      (planned.forEach.map fun _ => step.outputs.length) input startedAt) now) := by
  refine underway.rewrite underway.status rfl rfl ⟨id, ?_, fun step found =>
    underway.current step found⟩ (by simp [RunRecord.startAttempt]) ?_
  · simp only [RunRecord.startAttempt, RunRecord.setStep]
    exact (List.modify_id _ _).symm
  · intro index same
    cases same
    refine ⟨newAttempt ext run planned (planned.forEach.map fun _ => step.outputs.length) input
      startedAt, planned, step, ?_, ?_, found, stored, rfl, ?_, rfl, rfl, rfl, single, running⟩
    · simp [RunRecord.startAttempt]
    · simp [RunRecord.startAttempt]
    · intro other attempt otherFound dispatching
      simp only [RunRecord.startAttempt] at otherFound
      by_cases before : other < run.attempts.length
      · rw [List.getElem?_append_left before] at otherFound
        exact absurd dispatching (underway.idle idle attempt (List.mem_of_getElem? otherFound))
      · have bound : other < (run.attempts ++ [_]).length :=
          (List.getElem?_eq_some_iff.mp otherFound).1
        simp only [List.length_append, List.length_singleton] at bound
        omega

theorem Underway.succeed_underway (underway : Underway run)
    (isActive : run.activeAttempt = some active) (output receipt : Value) (now : DateTime) :
    Underway (run.succeedAttempt active output receipt now) := by
  obtain ⟨attempt, planned, step, at_⟩ := underway.active active isActive
  refine underway.rewrite underway.status rfl rfl ⟨fun step =>
    { step with outputs := step.outputs ++ [output] }, rfl, ?_⟩
    (fun _ => underway.settled isActive fun attempt => by simp [ActionAttempt.succeed])
    (by simp [RunRecord.succeedAttempt, RunRecord.settleAttempt, RunRecord.setStep])
  intro other found
  obtain rfl : step = other := Option.some.inj (at_.stepFound.symm.trans found)
  exact .inr (.inl at_.running)

theorem Underway.succeed_fits (underway : Underway run)
    (isActive : run.activeAttempt = some active) (output receipt : Value) (now : DateTime) :
    Stage.items.Fits (run.succeedAttempt active output receipt now) := by
  obtain ⟨attempt, planned, step, at_⟩ := underway.active active isActive
  refine ⟨rfl, { step with outputs := step.outputs ++ [output] }, ?_, at_.running⟩
  have found := run.setStep_steps? (fun step => { step with outputs := step.outputs ++ [output] })
    run.nextStep
  rw [if_pos rfl, at_.stepFound] at found
  exact found

/-- A committed run has ended, or it is under way and fits the stage behind the commit. -/
theorem Commit.sound {site : CommitSite} (busy : position.Busy)
    (commit : Commit ext conditions position site run) :
    Ended run ∨ Underway run ∧ (position.stage.after site).Fits run := by
  obtain ⟨underway, fits⟩ := busy
  cases commit with
  | cancelled now _ idle => exact .inl (underway.cancelled_ended idle now)
  | interrupted failure now _ isActive =>
    exact .inl (underway.interrupted_ended isActive failure now)
  | timedOut now _ idle =>
    exact .inl (underway.timedOut_ended _ rfl rfl rfl (underway.idle idle) idle now)
  | timedOutUnapplied failure failedAt now _ isActive =>
    refine .inl (underway.timedOut_ended (position.claim.run.settleAttempt _ _) rfl rfl rfl
      (underway.settled isActive fun attempt => ?_) rfl now)
    simp [ActionAttempt.fail]
  | conditionFailed now stage idle found cause =>
    have within : position.claim.run.nextStep < position.claim.run.steps.length :=
      underway.length ▸ (List.getElem?_eq_some_iff.mp found).1
    refine .inr ⟨underway.failStep rfl rfl rfl underway.status (underway.idle idle), ?_⟩
    exact failStep_fits within
  | itemFailed failure now stage =>
    rw [stage] at fits
    obtain ⟨idle, step, found, _⟩ := fits
    refine .inr ⟨underway.failStep rfl rfl rfl underway.status (underway.idle idle), ?_⟩
    exact failStep_fits (List.getElem?_eq_some_iff.mp found).1
  | attemptFailed now stage isActive written =>
    obtain ⟨attempt, planned, step, at_⟩ := underway.active _ isActive
    refine .inr ⟨underway.failStep rfl rfl rfl underway.status
      (underway.settled isActive written.status), ?_⟩
    exact failStep_fits (List.getElem?_eq_some_iff.mp at_.stepFound).1
  | failureAdvanced now stage =>
    rw [stage] at fits
    obtain ⟨idle, step, found, failed⟩ := fits
    unfold RunRecord.advanceFailedStep
    split
    next => exact .inl (underway.stopped_ended found failed idle now)
    refine .inr ⟨?_, by rw [stage]; trivial⟩
    refine underway.pass (List.getElem?_eq_some_iff.mp found).1 underway.status rfl rfl
      ⟨id, by simp [RunRecord.setStep], ?_⟩ idle rfl idle
    intro other otherFound
    obtain rfl : step = other := Option.some.inj (found.symm.trans otherFound)
    rw [id, failed]
    rfl
  | stepSkipped now stage idle found _ _ _ =>
    have within : position.claim.run.nextStep < position.claim.run.steps.length :=
      underway.length ▸ (List.getElem?_eq_some_iff.mp found).1
    refine .inr ⟨?_, by rw [stage]; trivial⟩
    exact underway.pass within underway.status rfl rfl ⟨_, rfl, fun _ _ => rfl⟩ idle rfl idle
  | stepStarted startedAt now stage idle within =>
    exact .inr ⟨underway.start_underway idle startedAt now,
      startStep_fits within idle startedAt now⟩
  | attemptStarted input startedAt now stage found stored single =>
    rw [stage] at fits
    obtain ⟨idle, step, other, running⟩ := fits
    obtain rfl := Option.some.inj (stored.symm.trans other)
    exact .inr ⟨underway.attempt_underway idle found stored running single input startedAt now, rfl⟩
  | @attemptSucceeded _ resumed output receipt now stage isActive =>
    refine .inr ⟨underway.succeed_underway isActive output receipt now, ?_⟩
    rw [stage]
    cases resumed with
    | true => trivial
    | false => exact underway.succeed_fits isActive output receipt now
  | attemptLate now stage isActive => exact .inl (underway.late_ended isActive _ _ now)
  | attemptUnknown now stage isActive found once _ _ =>
    exact .inl (underway.unknown_ended isActive found once _ now)
  | stepSucceeded now stage =>
    rw [stage] at fits
    obtain ⟨idle, step, found, running⟩ := fits
    refine .inr ⟨?_, by rw [stage]; trivial⟩
    exact underway.pass (List.getElem?_eq_some_iff.mp found).1 underway.status rfl rfl
      ⟨_, rfl, fun _ _ => rfl⟩ idle rfl idle
  | finished now stage done => exact .inl (underway.finished_ended done now)

end Preservation

end Mdbase.Runtime
