import Mdbase.Runtime.Engine.Protocol

/-!
# The engine follows its protocol

Every commit and every dispatch of `execute_claim` is one that `engineProtocol`
allows, whatever the clock, the authorizer, the providers and the store answer.
On a sound record it neither panics nor runs out of rounds. One lemma per function
says what it asks and in which stage it ends.
-/

namespace Mdbase.Runtime

open Library Program

namespace Engine

variable {ext : Externals} {conditions : Conditions} {position : Position} {α β : Type}

/-- A part of the engine follows the protocol from a position and fails only with
an error. -/
def Runs (ext : Externals) (conditions : Conditions) (position : Position) (part : Engine α)
    (ends : Position → α → Prop) : Prop :=
  FollowsOrFails (engineProtocol ext conditions) (fun halt => ∃ error, halt = .error error)
    position part ends

namespace Runs

variable {ends : Position → α → Prop}

theorem pure {value : α} (holds : ends position value) :
    Runs ext conditions position (Pure.pure value) ends :=
  FollowsOrFails.pure holds

theorem fail (error : RuntimeError) : Runs ext conditions position (Engine.fail error) ends :=
  FollowsOrFails.throw ⟨error, rfl⟩

/-- Programs conform in sequence if each starts where the other ended. -/
theorem bind {part : Engine β} {rest : β → Engine α} {middle : Position → β → Prop}
    (first : Runs ext conditions position part middle)
    (second : ∀ later value, middle later value → Runs ext conditions later (rest value) ends) :
    Runs ext conditions position (part >>= rest) ends :=
  FollowsOrFails.bind first second

/-- The rule of consequence. -/
theorem weaken {weaker : Position → α → Prop} {part : Engine α}
    (runs : Runs ext conditions position part ends)
    (weakens : ∀ later value, ends later value → weaker later value) :
    Runs ext conditions position part weaker :=
  FollowsOrFails.weaken runs weakens

/-- A composition meets its conclusion if its first part leads to where the rest does. -/
theorem seq {part : Engine β} {rest : β → Engine α}
    (runs : Runs ext conditions position part fun later value =>
      Runs ext conditions later (rest value) ends) :
    Runs ext conditions position (part >>= rest) ends :=
  bind runs fun _ _ onward => onward

theorem ask {question : Question} {ends : Position → question.Answer → Prop}
    (allowed : (engineProtocol ext conditions).allows position question)
    (holds : ∀ answer later, (engineProtocol ext conditions).moves position question answer later →
      ends later answer) :
    Runs ext conditions position (Engine.ask question) ends :=
  FollowsOrFails.query allowed holds

/-- Reading the clock meets what holds of every instant it may show. -/
theorem now {use : ClockUse} {ends : Position → DateTime → Prop}
    (holds : ∀ instant, conditions.reads position.config position.claim.run use instant →
      ends position instant) :
    Runs ext conditions position (Engine.now use) ends := by
  refine ask trivial ?_
  rintro instant later ⟨read, rfl⟩
  exact holds instant read

variable {ends : Position → Bool → Prop}

theorem hasProvider {planned : PlannedStep} (holds : ∀ found, ends position found) :
    Runs ext conditions position (Engine.hasProvider planned) ends := by
  refine ask trivial ?_
  rintro found later rfl
  exact holds found

theorem demand {valid : Prop} [Decidable valid] {ends : Position → Unit → Prop} (holds : valid)
    (after : ends position ()) : Runs ext conditions position (Engine.demand valid) ends := by
  unfold Engine.demand
  rw [if_pos holds]
  exact pure after

theorem authorize {dispatch : ActionDispatch} {ends : Position → Except RuntimeError Unit → Prop}
    (holds : ∀ decision, ends position decision) :
    Runs ext conditions position (Engine.authorize dispatch) ends := by
  refine seq (ask trivial ?_)
  rintro decision later rfl
  cases decision with
  | allow | deny code message => exact pure (holds _)

theorem deadlineElapsed {run : RunRecord} (holds : ∀ elapsed, ends position elapsed) :
    Runs ext conditions position (Engine.deadlineElapsed run) ends := by
  unfold Engine.deadlineElapsed
  cases run.plan.timeoutAt with
  | none => exact pure (holds _)
  | some deadline => exact seq (now fun instant _ => pure (holds _))

theorem commitRun {site : CommitSite} {claim : Claim} {run : RunRecord}
    {ends : Position → Claim → Prop} (busy : position.Busy)
    (same : { claim with run := run } = { position.claim with run := run })
    (commit : Commit ext conditions position site run)
    (holds : ends
      { position with
        claim := Claim.bump { position.claim with run := run }
        stage := position.stage.after site }
      (Claim.bump { position.claim with run := run })) :
    Runs ext conditions position (Engine.commitRun site claim run) ends := by
  refine seq (ask ⟨busy.underway.status, commit, same⟩ ?_)
  intro reply later moves
  cases reply with
  | error error => exact fail error
  | ok reply =>
    obtain ⟨rfl, rfl⟩ := moves
    rw [same]
    exact pure holds

end Runs

/-- The worker after a commit of a record. -/
def committed (position : Position) (site : CommitSite) (run : RunRecord) : Position :=
  { position with
    claim := Claim.bump { position.claim with run := run }
    stage := position.stage.after site }

variable {run : RunRecord}

theorem fits_bump {stage : Stage} (fits : stage.Fits run) (revision : Nat) :
    stage.Fits { run with revision := revision } := by
  cases stage <;> exact fits

variable {site : CommitSite}

theorem committed_sound (busy : position.Busy) (commit : Commit ext conditions position site run) :
    Ended (committed position site run).claim.run ∨ (committed position site run).Busy := by
  rcases commit.sound busy with ended | ⟨underway, fits⟩
  · exact .inl (ended.bump _)
  · exact .inr ⟨underway.bump _, fits_bump fits _⟩

/-- The worker went on with its run to a stage and a step. -/
structure Went (position later : Position) (claim : Claim) (stage : Stage) (nextStep : Nat) :
    Prop where
  holds : later.claim = claim
  config : later.config = position.config
  busy : later.Busy
  stage : later.stage = stage
  plan : claim.run.plan = position.claim.run.plan
  nextStep : claim.run.nextStep = nextStep

theorem committed_went (busy : position.Busy)
    (commit : Commit ext conditions position site run) (running : run.status = .running) :
    Went position (committed position site run) (committed position site run).claim
      (position.stage.after site) run.nextStep := by
  refine ⟨rfl, rfl, ?_, rfl, commit.kept.plan, rfl⟩
  rcases committed_sound busy commit with ended | after
  · have terminal : run.status.terminal = true := ended.status
    rw [running] at terminal
    cases terminal
  · exact after

theorem committed_ended (busy : position.Busy)
    (commit : Commit ext conditions position site run) (terminal : run.status.terminal = true) :
    Ended (committed position site run).claim.run := by
  rcases committed_sound busy commit with ended | after
  · exact ended
  · have running : run.status = .running := after.underway.status
    rw [running] at terminal
    cases terminal

/-- The worker is about to evaluate a step of a run without active attempt. -/
structure Between (position : Position) : Prop where
  busy : position.Busy
  stage : position.stage = .evaluating
  idle : position.claim.run.activeAttempt = none

variable {claim : Claim} {failure : RuntimeFailure} {nextStep : Nat}

theorem failStep_runs (busy : position.Busy)
    (same : claim = { position.claim with run := claim.run })
    (running : claim.run.status = .running) (cursor : claim.run.nextStep = nextStep)
    (within : nextStep < claim.run.steps.length) (stage : position.stage.after site = .failed)
    (commit : ∀ now, Commit ext conditions position site (claim.run.failStep failure now)) :
    Runs ext conditions position (failStep site claim failure)
      fun later reply => Went position later reply .failed nextStep := by
  refine .seq (.now fun instant _ => .seq (.demand (by rw [cursor]; exact within) ?_))
  refine .commitRun busy ?_ (commit instant) ?_
  · rw [same]
  · have went := committed_went busy (commit instant) running
    rw [stage] at went
    rw [← cursor]
    exact went

theorem advanceFailedStep_runs (busy : position.Busy) (failed : position.stage = .failed) :
    Runs ext conditions position (advanceFailedStep position.claim) fun later reply =>
      Ended reply.run ∨ Went position later reply .evaluating (position.claim.run.nextStep + 1) ∧
        reply.run.activeAttempt = none := by
  refine .seq (.now fun instant _ => ?_)
  have commit : Commit ext conditions position .failureAdvanced
      (position.claim.run.advanceFailedStep instant) := .failureAdvanced instant failed
  refine .commitRun busy rfl commit ?_
  have fits := busy.fits
  rw [failed] at fits
  by_cases stops : position.claim.run.plan.onError = .stop
  · refine .inl (committed_ended busy commit ?_)
    rw [RunRecord.advanceFailedStep, if_pos stops]
    rfl
  · have advanced : position.claim.run.advanceFailedStep instant =
        { position.claim.run with
          nextStep := position.claim.run.nextStep + 1
          updatedAt := instant } := by
      rw [RunRecord.advanceFailedStep, if_neg stops]
    have went := committed_went busy commit (by rw [advanced]; exact busy.underway.status)
    rw [failed, advanced] at went
    refine .inr ⟨?_, ?_⟩
    · rw [failed, advanced]
      exact went
    · rw [advanced]
      exact fits.1

variable {planned : PlannedStep}

theorem advanceAfterFailure_runs (between : Between position)
    (found : position.claim.run.plan.steps[position.claim.run.nextStep]? = some planned)
    (cause : Unevaluated ext conditions position.config position.claim.run planned failure) :
    Runs ext conditions position (advanceAfterFailure position.claim failure) fun later reply =>
      Ended reply.run ∨ Went position later reply .evaluating (position.claim.run.nextStep + 1) ∧
        reply.run.activeAttempt = none := by
  have underway := between.busy.underway
  have within : position.claim.run.nextStep < position.claim.run.steps.length := by
    rw [underway.length]
    exact (List.getElem?_eq_some_iff.mp found).1
  refine .bind (failStep_runs between.busy rfl underway.status rfl within rfl fun now =>
    .conditionFailed now between.stage between.idle found cause) ?_
  rintro later reply ⟨rfl, config, busy, stage, plan, nextStep⟩
  refine (advanceFailedStep_runs busy stage).weaken ?_
  rintro last final (ended | ⟨went, idle⟩)
  · exact .inl ended
  · refine .inr ⟨⟨went.holds, went.config.trans config, went.busy, went.stage,
      went.plan.trans plan, ?_⟩, idle⟩
    rw [went.nextStep, nextStep]

theorem finishCancelled_runs (between : Between position) :
    Runs ext conditions position (finishCancelled position.claim)
      fun _ reply => Ended reply.run := by
  refine .seq (.now fun instant _ => ?_)
  have commit : Commit ext conditions position .cancelled
      (position.claim.run.finishCancelled instant) :=
    .cancelled instant between.stage between.idle
  exact .commitRun between.busy rfl commit (committed_ended between.busy commit rfl)

theorem timeoutRun_runs (between : Between position) :
    Runs ext conditions position (timeoutRun position.claim) fun _ reply => Ended reply.run := by
  refine .seq (.now fun instant _ => ?_)
  have commit : Commit ext conditions position .timedOut
      (position.claim.run.timeoutRun instant) :=
    .timedOut instant between.stage between.idle
  exact .commitRun between.busy rfl commit (committed_ended between.busy commit rfl)

variable {active : Nat}

theorem indeterminateActiveAttempt_runs (busy : position.Busy)
    (stage : position.stage = .evaluating)
    (isActive : position.claim.run.activeAttempt = some active) (code message : String) :
    Runs ext conditions position (indeterminateActiveAttempt position.claim active code message)
      fun _ reply => Ended reply.run := by
  obtain ⟨attempt, planned, step, at_⟩ := busy.underway.active active isActive
  refine .seq (.now fun instant _ => .seq (.demand
    (List.getElem?_eq_some_iff.mp at_.attemptFound).1 (.seq (.demand
    (List.getElem?_eq_some_iff.mp at_.stepFound).1 ?_))))
  have commit : Commit ext conditions position .interrupted
      (position.claim.run.indeterminateActiveAttempt active ⟨code, message⟩ instant) :=
    .interrupted _ instant stage isActive
  exact .commitRun busy rfl commit (committed_ended busy commit rfl)

theorem failActiveAttempt_runs (busy : position.Busy)
    (stage : position.stage ≠ .items ∧ position.stage ≠ .failed)
    (isActive : position.claim.run.activeAttempt = some active) (failure : RuntimeFailure) :
    Runs ext conditions position (failActiveAttempt position.claim active failure)
      fun later reply => Went position later reply .failed position.claim.run.nextStep := by
  obtain ⟨attempt, planned, step, at_⟩ := busy.underway.active active isActive
  refine .seq (.demand (List.getElem?_eq_some_iff.mp at_.attemptFound).1
    (.seq (.now fun instant _ => ?_)))
  exact failStep_runs busy rfl busy.underway.status rfl
    (List.getElem?_eq_some_iff.mp at_.stepFound).1 rfl
    fun now => .attemptFailed now stage isActive (.fail instant)

theorem cancellationOutcome_runs (run : RunRecord) :
    Runs ext conditions position (cancellationOutcome ext run) fun later _ => later = position := by
  unfold cancellationOutcome
  split
  next => exact .pure rfl
  split
  next active planned _ _ =>
    split
    next =>
      refine .seq (.hasProvider fun found => ?_)
      split
      next =>
        refine .seq (.now fun instant _ => .seq (.ask trivial ?_))
        rintro answer later rfl
        exact .pure rfl
      next => exact .pure rfl
    next => exact .pure rfl
  next => exact .pure rfl

/-- How a dispatch of the active attempt leaves the run: it is over, its step has
failed, or its step has one more output. -/
inductive Settles (position later : Position) (claim : Claim) (stage : Stage) : Prop where
  | ended (ended : Ended claim.run)
  | failed (went : Went position later claim .failed position.claim.run.nextStep)
  | succeeded {before after : StepRecord}
      (went : Went position later claim stage position.claim.run.nextStep)
      (idle : claim.run.activeAttempt = none)
      (beforeFound : position.claim.run.steps[position.claim.run.nextStep]? = some before)
      (afterFound : claim.run.steps[position.claim.run.nextStep]? = some after)
      (running : after.status = .running)
      (outputs : after.outputs.length = before.outputs.length + 1)

/-- The stage after a success. -/
def successStage : Bool → Stage
  | true => .evaluating
  | false => .items

variable {attempt : ActionAttempt}

/-- Recording an answer settles its attempt. -/
theorem recordOutcome_runs {pinned : Value}
    {resumed : Bool} {result : Except DispatchFailure (Value × Value)} (busy : position.Busy)
    (stage : position.stage = .answered resumed result)
    (isActive : position.claim.run.activeAttempt = some active)
    (found : position.claim.run.attempts[active]? = some attempt)
    (answered : conditions.answers position.claim.run result) :
    Runs ext conditions position (recordOutcome ext position.claim active attempt pinned result)
      fun later reply => Settles position later reply (successStage resumed) := by
  obtain ⟨_, planned, step, at_⟩ := busy.underway.active active isActive
  have within := (List.getElem?_eq_some_iff.mp at_.stepFound).1
  have unsettled : position.stage ≠ .items ∧ position.stage ≠ .failed := by
    rw [stage]
    exact ⟨by simp, by simp⟩
  have fails : ∀ {failure : RuntimeFailure} {write : ActionAttempt → ActionAttempt},
      FailedAttempt failure write → Runs ext conditions position
        (failStep .attemptFailed
          { position.claim with run := position.claim.run.settleAttempt active write } failure)
        fun later reply => Settles position later reply (successStage resumed) := by
    intro failure write written
    have failed : Runs ext conditions position
        (failStep .attemptFailed
          { position.claim with run := position.claim.run.settleAttempt active write } failure)
        fun later reply => Went position later reply .failed position.claim.run.nextStep :=
      failStep_runs busy rfl busy.underway.status rfl within rfl fun now =>
        .attemptFailed now unsettled isActive written
    exact failed.weaken fun later reply went => .failed went
  cases result with
  | ok answer =>
    obtain ⟨output, receipt⟩ := answer
    unfold recordOutcome
    dsimp only
    split
    next message _ => exact .seq (.now fun instant _ => fails (.reject receipt instant))
    refine .seq (.now fun instant _ => .seq (.deadlineElapsed fun elapsed => ?_))
    cases elapsed with
    | true =>
      refine .seq (.demand within ?_)
      have commit : Commit ext conditions position .attemptLate
          (position.claim.run.succeedLate active output receipt instant) :=
        .attemptLate instant stage isActive
      exact .commitRun busy rfl commit (.ended (committed_ended busy commit rfl))
    | false =>
      refine .seq (.demand within ?_)
      have commit : Commit ext conditions position .attemptSucceeded
          (position.claim.run.succeedAttempt active output receipt instant) :=
        .attemptSucceeded instant stage isActive
      have went := committed_went busy commit busy.underway.status
      have after : position.stage.after .attemptSucceeded = successStage resumed := by
        rw [stage]
        cases resumed <;> rfl
      rw [after] at went
      have stored := position.claim.run.setStep_steps?
        (fun step => { step with outputs := step.outputs ++ [output] })
        position.claim.run.nextStep
      rw [if_pos rfl, at_.stepFound] at stored
      refine .commitRun busy rfl commit (.succeeded went rfl at_.stepFound stored at_.running ?_)
      simp
  | error failure =>
    unfold recordOutcome
    dsimp only
    split
    next =>
      refine .seq (.now fun instant _ => .seq (.deadlineElapsed fun elapsed => ?_))
      cases elapsed with
      | true =>
        refine .seq (.now fun later _ => ?_)
        have commit : Commit ext conditions position .timedOut
            ((position.claim.run.settleAttempt active fun attempt =>
              attempt.fail ⟨failure.code, failure.message⟩ instant).timeoutRun later) :=
          .timedOutUnapplied _ instant later stage isActive
        exact .commitRun busy rfl commit (.ended (committed_ended busy commit rfl))
      | false => exact fails (.fail instant)
    rename_i unknown
    split
    next => exact .fail _
    rename_i once
    refine .seq (.now fun instant _ => .seq (.demand within ?_))
    have commit : Commit ext conditions position .attemptUnknown
        (position.claim.run.loseAttempt active failure instant) :=
      .attemptUnknown instant stage isActive found (by simpa using once) unknown answered
    exact .commitRun busy rfl commit (.ended (committed_ended busy commit rfl))

theorem callProvider_runs {dispatch : ActionDispatch} (underway : Underway position.claim.run)
    (isActive : position.claim.run.activeAttempt = some active)
    (allowed : Dispatches ext position dispatch.invocation) :
    Runs ext conditions position (callProvider ext run dispatch) fun later result =>
      later = { position with stage := .answered position.stage.isEvaluating result } ∧
        later.Busy ∧ conditions.answers position.claim.run result := by
  have asks : ∀ limit, Runs ext conditions position
      (do
        let answer ← Engine.ask (.dispatch limit dispatch.invocation)
        pure ((providerResult limit dispatch.invocation answer).bind
          (normalizeOutcome ext dispatch.invocation)))
      fun later result =>
        later = { position with stage := .answered position.stage.isEvaluating result } ∧
          later.Busy ∧ conditions.answers position.claim.run result := by
    intro limit
    refine .seq (.ask allowed ?_)
    rintro answer later ⟨rfl, answered⟩
    refine .pure ⟨rfl, ⟨underway, ?_⟩, answered⟩
    simp [Stage.Fits, Position.receive, isActive]
  unfold callProvider
  cases run.plan.timeoutAt with
  | none => exact .seq (.pure (asks none))
  | some deadline => exact .seq (.seq (.now fun later _ => .pure (asks (some _))))

/-- The dispatch of the active attempt, which a worker that resumes it may make
only when it may be repeated. -/
theorem dispatchActiveAttempt_runs (busy : position.Busy)
    (stage : position.stage = .fresh ∨ position.stage = .evaluating)
    (isActive : position.claim.run.activeAttempt = some active)
    (found : position.claim.run.attempts[active]? = some attempt)
    (repeatable : position.stage = .evaluating → attempt.idempotent = true) :
    Runs ext conditions position (dispatchActiveAttempt ext position.config position.claim active)
      fun later reply => Settles position later reply
        (successStage position.stage.isEvaluating) := by
  obtain ⟨_, planned, step, at_⟩ := busy.underway.active active isActive
  have unsettled : position.stage ≠ .items ∧ position.stage ≠ .failed := by
    rcases stage with stage | stage <;> rw [stage] <;> exact ⟨by simp, by simp⟩
  have fails : ∀ failure : RuntimeFailure, Runs ext conditions position
      (failActiveAttempt position.claim active failure)
      fun later reply => Settles position later reply
        (successStage position.stage.isEvaluating) := fun failure =>
    (failActiveAttempt_runs busy unsettled isActive failure).weaken
      fun later reply went => .failed went
  unfold dispatchActiveAttempt
  rw [found]
  dsimp only
  rw [at_.plannedFound]
  dsimp only
  split
  next error _ => exact fails _
  rename_i pinned _
  refine .seq (.now fun instant _ => .seq (.authorize fun decision => ?_))
  cases decision with
  | error error => exact fails _
  | ok _ =>
    refine .seq (.hasProvider fun known => ?_)
    cases known with
    | false => exact fails _
    | true =>
      refine .bind (callProvider_runs busy.underway isActive
        ⟨busy.underway.status, ⟨active, attempt, planned, instant, isActive, found,
          at_.plannedFound, repeatable, rfl⟩, stage⟩) ?_
      rintro later result ⟨rfl, received, answered⟩
      refine (recordOutcome_runs received rfl isActive found answered).weaken ?_
      intro last reply settles
      cases settles with
      | ended ended => exact .ended ended
      | failed went =>
        exact .failed ⟨went.holds, went.config, went.busy, went.stage, went.plan, went.nextStep⟩
      | succeeded went idle beforeFound afterFound running outputs =>
        exact .succeeded ⟨went.holds, went.config, went.busy, went.stage, went.plan,
          went.nextStep⟩ idle beforeFound afterFound running outputs

variable {later : Position}

theorem Went.active_status {stage : Stage}
    (went : Went position later claim stage nextStep) : claim.run.status.terminal = false := by
  obtain ⟨rfl, _, busy, _⟩ := went
  rw [busy.underway.status]
  rfl

theorem Went.stepFailed_of_failed
    (went : Went position later claim .failed nextStep) : stepFailed claim.run nextStep = true := by
  obtain ⟨rfl, _, busy, stage, _, rfl⟩ := went
  have fits := busy.fits
  rw [stage] at fits
  obtain ⟨_, step, found, failed⟩ := fits
  simp [stepFailed, found, failed]

variable {step : StepRecord}

theorem stepFailed_of_running {index : Nat}
    (found : run.steps[index]? = some step) (running : step.status = .running) :
    stepFailed run index = false := by
  simp [stepFailed, found, running]

/-- An attempt at one item settles it. -/
theorem attemptItem_runs {input : Value} (busy : position.Busy) (stage : position.stage = .items)
    (found : position.claim.run.plan.steps[position.claim.run.nextStep]? = some planned)
    (stored : position.claim.run.steps[position.claim.run.nextStep]? = some step)
    (single : planned.forEach = none → step.outputs = []) :
    Runs ext conditions position (attemptItem ext position.config position.claim planned
        (planned.forEach.map fun _ => step.outputs.length) input)
      fun later reply => Settles position later reply .items := by
  refine .seq (.now fun startedAt _ => .seq (.now fun instant _ => .seq ?_))
  obtain ⟨attempt, made⟩ : ∃ attempt, attempt = newAttempt ext position.claim.run planned
    (planned.forEach.map fun _ => step.outputs.length) input startedAt := ⟨_, rfl⟩
  have commit : Commit ext conditions position .attemptStarted
      (position.claim.run.startAttempt attempt instant) := by
    rw [made]
    exact .attemptStarted input startedAt instant stage found stored single
  have went := committed_went busy commit busy.underway.status
  have last : (position.claim.run.attempts ++ [attempt])[position.claim.run.attempts.length]? =
      some attempt := by simp
  rw [← made]
  refine .commitRun busy rfl commit ?_
  have dispatched : Runs ext conditions
      (committed position .attemptStarted (position.claim.run.startAttempt attempt instant))
      (dispatchActiveAttempt ext position.config
        (committed position .attemptStarted (position.claim.run.startAttempt attempt instant)).claim
        position.claim.run.attempts.length)
      fun later reply => Settles
        (committed position .attemptStarted (position.claim.run.startAttempt attempt instant))
        later reply .items :=
    dispatchActiveAttempt_runs went.busy (.inl went.stage) rfl last fun evaluating => by
      rw [went.stage] at evaluating
      cases evaluating
  refine dispatched.weaken fun later reply settles => ?_
  cases settles with
  | ended ended => exact .ended ended
  | failed later =>
    exact .failed ⟨later.holds, later.config, later.busy, later.stage, later.plan, later.nextStep⟩
  | succeeded later idle beforeFound afterFound running outputs =>
    exact .succeeded ⟨later.holds, later.config, later.busy, later.stage,
      later.plan, later.nextStep⟩ idle beforeFound afterFound running outputs

theorem runItem_runs {item : Value} (busy : position.Busy) (stage : position.stage = .items)
    (found : position.claim.run.plan.steps[position.claim.run.nextStep]? = some planned)
    (stored : position.claim.run.steps[position.claim.run.nextStep]? = some step)
    (single : planned.forEach = none → step.outputs = []) :
    Runs ext conditions position
      (runItem ext position.config planned position.claim item step.outputs.length)
      fun later reply => Settles position later reply .items := by
  have within := (List.getElem?_eq_some_iff.mp stored).1
  have fails : ∀ failure, Runs ext conditions position
      (failStep .itemFailed position.claim failure)
      fun later reply => Settles position later reply .items := by
    intro failure
    have failed : Runs ext conditions position (failStep .itemFailed position.claim failure)
        fun later reply => Went position later reply .failed position.claim.run.nextStep :=
      failStep_runs busy rfl busy.underway.status rfl within rfl fun now =>
        .itemFailed failure now stage
    exact failed.weaken fun later reply went => .failed went
  refine .seq (.now fun instant _ => ?_)
  split
  next failure _ => exact fails failure
  rename_i input _
  refine .seq (.now fun asked _ => .seq (.authorize fun decision => ?_))
  cases decision with
  | error error => exact fails _
  | ok _ => exact attemptItem_runs busy stage found stored single

/-- How the loop over the items leaves the run. -/
inductive ItemsDone (position later : Position) (claim : Claim) : Prop where
  | ended (ended : Ended claim.run)
  | failed (went : Went position later claim .failed position.claim.run.nextStep)
  | done (went : Went position later claim .items position.claim.run.nextStep)

/-- The remaining items of a step are run one after the other. -/
theorem runItems_runs {items : List Value}
    {pending : List (Value × Nat)} {index : Nat} (busy : position.Busy)
    (stage : position.stage = .items) (cursor : position.claim.run.nextStep = index)
    (found : position.claim.run.plan.steps[index]? = some planned)
    (stored : position.claim.run.steps[index]? = some step)
    (single : planned.forEach = none → items.length ≤ 1)
    (rest : pending = items.zipIdx.drop step.outputs.length) :
    Runs ext conditions position (runItems ext position.config planned index position.claim pending)
      fun later reply => ItemsDone position later reply := by
  induction pending generalizing position step with
  | nil => exact .pure (.done ⟨rfl, rfl, busy, stage, rfl, rfl⟩)
  | cons head tail ih =>
    subst cursor
    -- the first pending item is the one whose position is the number of outputs
    have short : step.outputs.length < items.length := by
      by_contra long
      rw [List.drop_eq_nil_of_le (by simpa using long)] at rest
      cases rest
    rw [List.drop_eq_getElem_cons (by simpa using short)] at rest
    obtain ⟨rfl, tailRest⟩ := List.cons.inj rest
    have once : planned.forEach = none → step.outputs = [] := by
      intro absent
      have few := single absent
      exact List.eq_nil_of_length_eq_zero (by omega)
    simp only [List.getElem_zipIdx, Nat.zero_add, runItems]
    refine .bind (runItem_runs busy stage found stored once) ?_
    intro later reply settles
    cases settles with
    | ended ended =>
      rw [ended.status]
      exact .pure (.ended ended)
    | failed went =>
      rw [went.stepFailed_of_failed, Bool.or_true]
      exact .pure (.failed went)
    | succeeded went idle beforeFound afterFound running outputs =>
      rw [went.active_status, stepFailed_of_running afterFound running]
      obtain ⟨rfl, config, laterBusy, laterStage, plan, nextStep⟩ := went
      obtain rfl := Option.some.inj (stored.symm.trans beforeFound)
      have onward := ih laterBusy laterStage nextStep (by rw [plan]; exact found) afterFound
        (by rw [outputs]; exact tailRest)
      rw [config] at onward
      refine onward.weaken fun last final done => ?_
      cases done with
      | ended ended => exact .ended ended
      | failed went =>
        exact .failed ⟨went.holds, went.config.trans config, went.busy, went.stage,
          went.plan.trans plan, went.nextStep.trans nextStep⟩
      | done went =>
        exact .done ⟨went.holds, went.config.trans config, went.busy, went.stage,
          went.plan.trans plan, went.nextStep.trans nextStep⟩

/-- How a round of the loop over the steps ends: with the next step, or with the
end of the run. -/
def FlowEnds (position later : Position) : Flow → Prop
  | .again claim =>
    Went position later claim .evaluating (position.claim.run.nextStep + 1) ∧
      claim.run.activeAttempt = none
  | .leave claim => Ended claim.run
  | .done _ => True

theorem flowEnds_of_advanced (advanced : Ended claim.run ∨
      Went position later claim .evaluating (position.claim.run.nextStep + 1) ∧
        claim.run.activeAttempt = none) :
    FlowEnds position later (againUnlessOver claim) := by
  unfold againUnlessOver
  rcases advanced with ended | ⟨went, idle⟩
  · rw [if_pos ended.status]
    exact ended
  · rw [if_neg (by rw [went.active_status]; exact Bool.false_ne_true)]
    exact ⟨went, idle⟩

/-- A step whose items are done is left. -/
theorem leaveStep_runs (done : ItemsDone position later claim) :
    Runs ext conditions later (leaveStep claim position.claim.run.nextStep)
      fun last flow => FlowEnds position last flow := by
  unfold leaveStep
  cases done with
  | ended ended =>
    rw [if_pos ended.status]
    exact .pure ended
  | failed failed =>
    rw [if_neg (by rw [failed.active_status]; exact Bool.false_ne_true),
      if_pos failed.stepFailed_of_failed]
    obtain ⟨rfl, config, busy, stage, plan, nextStep⟩ := failed
    refine .bind (advanceFailedStep_runs busy stage) fun last final advanced =>
      .pure (flowEnds_of_advanced ?_)
    rcases advanced with ended | ⟨went, idle⟩
    · exact .inl ended
    · refine .inr ⟨⟨went.holds, went.config.trans config, went.busy, went.stage,
        went.plan.trans plan, ?_⟩, idle⟩
      rw [went.nextStep, nextStep]
  | done done =>
    have active := done.active_status
    obtain ⟨rfl, config, busy, stage, plan, nextStep⟩ := done
    have fits := busy.fits
    rw [stage] at fits
    obtain ⟨idle, step, found, running⟩ := fits
    rw [nextStep] at found
    rw [if_neg (by rw [active]; exact Bool.false_ne_true),
      if_neg (by rw [stepFailed_of_running found running]; exact Bool.false_ne_true)]
    refine .seq (.now fun instant _ => .seq ?_)
    have commit : Commit ext conditions later .stepSucceeded
        (later.claim.run.succeedStep instant) := .stepSucceeded instant stage
    have went := committed_went busy commit busy.underway.status
    refine .commitRun busy rfl commit (.pure ⟨⟨rfl, config, went.busy, ?_, plan, ?_⟩, idle⟩)
    · rw [stage]
      rfl
    · change later.claim.run.nextStep + 1 = _
      rw [nextStep]

theorem firstStart_runs {ends : Position → DateTime → Prop}
    (holds : ∀ instant, ends position instant) :
    Runs ext conditions position (firstStart step) ends := by
  unfold firstStart
  split
  next => exact .pure (holds _)
  next => exact .now fun instant _ => holds instant

/-- A step is entered, run and left. -/
theorem enterStep_runs {items : List Value} (between : Between position)
    (found : position.claim.run.plan.steps[position.claim.run.nextStep]? = some planned)
    (single : planned.forEach = none → items.length ≤ 1) :
    Runs ext conditions position (enterStep ext position.config position.claim planned items)
      fun later flow => FlowEnds position later flow := by
  obtain ⟨busy, stage, idle⟩ := between
  have within : position.claim.run.nextStep < position.claim.run.steps.length := by
    rw [busy.underway.length]
    exact (List.getElem?_eq_some_iff.mp found).1
  unfold enterStep
  rw [List.getElem?_eq_getElem within]
  refine .seq (firstStart_runs fun startedAt => .seq (.now fun instant _ => .seq ?_))
  have commit : Commit ext conditions position .stepStarted
      (position.claim.run.startStep startedAt instant) :=
    .stepStarted startedAt instant stage idle within
  have went := committed_went busy commit busy.underway.status
  have stored := position.claim.run.setStep_steps? (fun step =>
    { step with status := .running, startedAt := some (step.startedAt.getD startedAt) })
    position.claim.run.nextStep
  rw [if_pos rfl, List.getElem?_eq_getElem within] at stored
  refine .commitRun busy rfl commit ?_
  split
  next absent => exact absurd (stored.symm.trans absent) (by simp)
  rename_i step stepStored
  have items : Runs ext conditions
      (committed position .stepStarted (position.claim.run.startStep startedAt instant))
      (runItems ext position.config planned position.claim.run.nextStep
        (committed position .stepStarted (position.claim.run.startStep startedAt instant)).claim
        (items.zipIdx.drop step.outputs.length))
      fun later reply => ItemsDone
        (committed position .stepStarted (position.claim.run.startStep startedAt instant))
        later reply :=
    runItems_runs went.busy went.stage rfl found stepStored single rfl
  refine .bind items fun later reply done => (leaveStep_runs done).weaken ?_
  intro last flow ends
  cases flow with
  | again claim =>
    obtain ⟨⟨holds, config, lastBusy, lastStage, plan, nextStep⟩, lastIdle⟩ := ends
    exact ⟨⟨holds, config, lastBusy, lastStage, plan, nextStep⟩, lastIdle⟩
  | leave claim => exact ends
  | done outcome => trivial

theorem expandStep_runs (between : Between position)
    (found : position.claim.run.plan.steps[position.claim.run.nextStep]? = some planned) :
    Runs ext conditions position (expandStep ext position.config position.claim planned)
      fun later flow => FlowEnds position later flow := by
  have fails : ∀ failure, Unevaluated ext conditions position.config position.claim.run planned
      failure → Runs ext conditions position
        (do pure (againUnlessOver (← advanceAfterFailure position.claim failure)))
        fun later flow => FlowEnds position later flow := fun failure cause =>
    .bind (advanceAfterFailure_runs between found cause) fun later reply advanced =>
      .pure (flowEnds_of_advanced advanced)
  unfold expandStep stepItems
  cases forEach : planned.forEach with
  | none =>
    refine .seq (.pure ?_)
    dsimp only
    split
    next exceeds => exact fails _ (.single forEach (by simpa using exceeds))
    next => exact enterStep_runs between found fun _ => by simp
  | some each =>
    refine .seq (.seq (.now fun instant read => .pure ?_))
    split
    next failure expands => exact fails _ (.items forEach read expands)
    rename_i items expands
    split
    next exceeds => exact fails _ (.limit forEach read expands exceeds)
    refine enterStep_runs between found fun absent => ?_
    rw [forEach] at absent
    cases absent

theorem runStep_runs (between : Between position)
    (within : position.claim.run.nextStep < position.claim.run.plan.steps.length) :
    Runs ext conditions position (runStep ext position.config position.claim)
      fun later flow => FlowEnds position later flow := by
  obtain ⟨step, planned, stored, found⟩ := between.busy.underway.current_exists within
  refine .seq (.deadlineElapsed fun elapsed => ?_)
  cases elapsed with
  | true => exact .bind (timeoutRun_runs between) fun later reply ended => .pure ended
  | false =>
    rw [if_neg Bool.false_ne_true]
    split
    next => exact .bind (finishCancelled_runs between) fun later reply _ => .pure trivial
    rw [found]
    dsimp only
    split
    next => exact expandStep_runs between found
    rename_i condition present
    refine .seq (.now fun instant read => ?_)
    split
    next failure fails =>
      exact .bind (advanceAfterFailure_runs between found (.condition present read fails))
        fun later reply advanced => .pure (flowEnds_of_advanced advanced)
    next => exact expandStep_runs between found
    rename_i unmet
    refine .seq (.now fun skipped _ => .seq (.demand
      (List.getElem?_eq_some_iff.mp stored).1 (.seq ?_)))
    have commit : Commit ext conditions position .stepSkipped
        (position.claim.run.skipStep skipped) :=
      .stepSkipped skipped between.stage between.idle found present read unmet
    have went := committed_went between.busy commit between.busy.underway.status
    refine .commitRun between.busy rfl commit (.pure ⟨⟨rfl, rfl, went.busy, ?_, rfl, rfl⟩,
      between.idle⟩)
    rw [between.stage]
    rfl

/-- The loop over the steps ends with the run or after its last step, within as
many rounds as there are steps left. -/
theorem runSteps_runs {bound : Nat} (between : Between position)
    (enough : position.claim.run.plan.steps.length ≤ position.claim.run.nextStep + bound) :
    Runs ext conditions position (runSteps ext position.config bound position.claim)
      fun later result => ∀ claim, result = .inl claim → Ended claim.run ∨
        later.claim = claim ∧ Between later ∧ claim.run.plan.steps.length ≤ claim.run.nextStep := by
  induction bound generalizing position with
  | zero =>
    unfold runSteps
    rw [if_neg (by omega)]
    refine .pure ?_
    rintro claim ⟨⟩
    exact .inr ⟨rfl, between, by omega⟩
  | succ bound ih =>
    unfold runSteps
    split
    next within =>
      refine .bind (runStep_runs between within) fun later flow ends => ?_
      cases flow with
      | again claim =>
        obtain ⟨⟨rfl, config, busy, stage, plan, nextStep⟩, idle⟩ := ends
        have onward := ih ⟨busy, stage, idle⟩ (by rw [plan, nextStep]; omega)
        rw [config] at onward
        exact onward
      | leave claim =>
        refine .pure ?_
        rintro other ⟨⟩
        exact .inl ends
      | done outcome =>
        refine .pure ?_
        rintro other ⟨⟩
    rename_i beyond
    refine .pure ?_
    rintro claim ⟨⟩
    exact .inr ⟨rfl, between, by omega⟩

theorem finishRun_runs (ends : Ended claim.run ∨ position.claim = claim ∧ Between position ∧
      claim.run.plan.steps.length ≤ claim.run.nextStep) :
    Runs ext conditions position (finishRun claim) fun _ _ => True := by
  unfold finishRun
  rcases ends with ended | ⟨rfl, between, done⟩
  · rw [if_neg (by simp [ended.status])]
    exact .pure trivial
  · split
    next =>
      refine .seq (.now fun instant _ => .seq ?_)
      exact .commitRun between.busy rfl (.finished instant between.stage done) (.pure trivial)
    next => exact .pure trivial

theorem continueRun_runs (between : Between position) :
    Runs ext conditions position (continueRun ext position.config position.claim)
      fun _ _ => True := by
  refine .seq (.deadlineElapsed fun elapsed => ?_)
  cases elapsed with
  | true => exact .bind (timeoutRun_runs between) fun later reply _ => .pure trivial
  | false =>
    refine .bind (runSteps_runs between (by omega)) fun later result ends => ?_
    cases result with
    | inr outcome => exact .pure trivial
    | inl claim => exact finishRun_runs (ends claim rfl)

/-- An open attempt is resumed within the rules of the engine. -/
theorem resumeAttempt_runs (busy : position.Busy) (stage : position.stage = .evaluating)
    (isActive : position.claim.run.activeAttempt = some active)
    (found : position.claim.run.attempts[active]? = some attempt) :
    Runs ext conditions position
      (resumeAttempt ext position.config position.claim active attempt) fun _ _ => True := by
  unfold resumeAttempt
  split
  next =>
    exact .bind (indeterminateActiveAttempt_runs busy stage isActive _ _)
      fun later reply _ => .pure trivial
  rename_i repeatable
  refine .bind (dispatchActiveAttempt_runs busy (.inr stage) isActive found
    fun _ => by simpa using repeatable) fun later reply settles => ?_
  rw [stage] at settles
  cases settles with
  | ended ended =>
    rw [if_pos ended.status]
    exact .pure trivial
  | failed went =>
    have failed := went.stepFailed_of_failed
    rw [if_neg (by rw [went.active_status]; exact Bool.false_ne_true)]
    obtain ⟨rfl, config, laterBusy, laterStage, plan, nextStep⟩ := went
    have fits := laterBusy.fits
    rw [laterStage] at fits
    obtain ⟨_, step, stepFound, _⟩ := fits
    refine .seq (.demand (List.getElem?_eq_some_iff.mp stepFound).1 ?_)
    rw [nextStep, if_pos failed]
    refine .bind (advanceFailedStep_runs laterBusy laterStage) fun last final advanced => ?_
    rcases advanced with ended | ⟨went, idle⟩
    · rw [if_pos ended.status]
      exact .pure trivial
    · rw [if_neg (by rw [went.active_status]; exact Bool.false_ne_true)]
      obtain ⟨rfl, lastConfig, lastBusy, lastStage, _, _⟩ := went
      have onward : Runs ext conditions last (continueRun ext last.config last.claim)
          fun _ _ => True := continueRun_runs ⟨lastBusy, lastStage, idle⟩
      rw [lastConfig, config] at onward
      exact onward
  | succeeded went idle _ afterFound running _ =>
    rw [if_neg (by rw [went.active_status]; exact Bool.false_ne_true)]
    obtain ⟨rfl, config, laterBusy, laterStage, plan, nextStep⟩ := went
    rw [← nextStep] at afterFound
    refine .seq (.demand (List.getElem?_eq_some_iff.mp afterFound).1 ?_)
    rw [if_neg (by rw [stepFailed_of_running afterFound running]; exact Bool.false_ne_true)]
    have onward : Runs ext conditions later (continueRun ext later.config later.claim)
        fun _ _ => True := continueRun_runs ⟨laterBusy, laterStage, idle⟩
    rw [config] at onward
    exact onward

theorem resumeRun_runs (busy : position.Busy) (stage : position.stage = .evaluating) :
    Runs ext conditions position (resumeRun ext position.config position.claim)
      fun _ _ => True := by
  unfold resumeRun
  cases isActive : position.claim.run.activeAttempt with
  | none =>
    refine .seq (.deadlineElapsed fun elapsed => ?_)
    cases elapsed with
    | true =>
      exact .bind (timeoutRun_runs ⟨busy, stage, isActive⟩) fun later reply _ => .pure trivial
    | false => exact continueRun_runs ⟨busy, stage, isActive⟩
  | some active =>
    obtain ⟨attempt, planned, step, at_⟩ := busy.underway.active active isActive
    dsimp only
    rw [at_.attemptFound]
    dsimp only
    rw [if_pos at_.dispatching]
    exact resumeAttempt_runs busy stage isActive at_.attemptFound

/-- The execution of a claim on a sound record follows the protocol, and ends with
an outcome or an error. -/
theorem executeClaim_runs (busy : position.Busy) (stage : position.stage = .evaluating) :
    Runs ext conditions position (executeClaim ext position.config position.claim)
      fun _ _ => True := by
  unfold executeClaim
  split
  next =>
    cases isActive : position.claim.run.activeAttempt with
    | none =>
      exact .bind (finishCancelled_runs ⟨busy, stage, isActive⟩) fun later reply _ => .pure trivial
    | some active =>
      obtain ⟨attempt, planned, step, at_⟩ := busy.underway.active active isActive
      dsimp only
      split
      next =>
        rw [at_.attemptFound]
        dsimp only
        rw [if_pos at_.dispatching]
        refine .bind (cancellationOutcome_runs _) fun later _ same => ?_
        subst same
        exact .bind (indeterminateActiveAttempt_runs busy stage isActive _ _)
          fun later reply _ => .pure trivial
      next => exact resumeRun_runs busy stage
  next => exact resumeRun_runs busy stage

end Engine

end Mdbase.Runtime
