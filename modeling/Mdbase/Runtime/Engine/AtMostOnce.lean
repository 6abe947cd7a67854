import Mdbase.Runtime.Engine.Evidence

/-!
# Actions that may not be repeated

A dispatch of an action that is not idempotent is spent when its attempt is stored,
before the provider is asked: the versions of a run only ever spend more, and a
worker stores an attempt only for an item that is not spent. The one way back is a
run that is claimed with its current step already stored as failed, because the
worker that failed the step did not come to advance the run: the next worker
enters the step once more. `Unspoiled` excludes it.
-/

namespace Mdbase.Runtime

open Library Relation Memory

/-- The item of a planned step that comes after the outputs of its record. -/
def StepRecord.nextItem (step : StepRecord) (planned : PlannedStep) : Option Nat :=
  planned.forEach.map fun _ => step.outputs.length

/-- Was the next item of a step that may not be repeated attempted before the step
failed? -/
def RunRecord.Spoiled (run : RunRecord) : Prop :=
  ∃ planned ∈ run.plan.steps[run.nextStep]?, ∃ step ∈ run.steps[run.nextStep]?,
    planned.idempotent = false ∧ step.status = .failed ∧
      ∃ attempt ∈ run.attempts, attempt.stepId = planned.id ∧
        attempt.itemIndex = step.nextItem planned

instance (run : RunRecord) : Decidable run.Spoiled := by
  unfold RunRecord.Spoiled
  infer_instance

/-- No run is claimed whose current step may not be repeated and was attempted and
stored as failed. -/
abbrev advancesFailures : Conditions :=
  { Conditions.none with claims := fun _ run => ¬ run.Spoiled }

/-- Is an item of a step behind the run? Items of the current step are while they
have an output, while they are being attempted and after they failed. -/
def RunRecord.Spent (run : RunRecord) (index item : Nat) : Prop :=
  index < run.nextStep ∨ index = run.nextStep ∧ ∃ step, run.steps[index]? = some step ∧
    (item < step.outputs.length ∨
      item = step.outputs.length ∧ (run.activeAttempt.isSome = true ∨ run.Spoiled))

/-- Whatever may not be repeated stays behind the run. -/
structure KeepsSpent (old new : RunRecord) : Prop where
  plan : new.plan = old.plan
  spent : ∀ index planned item, old.plan.steps[index]? = some planned →
    planned.idempotent = false → old.Spent index item → new.Spent index item

theorem RunRecord.setStep_current (run : RunRecord) (write : StepRecord → StepRecord) :
    (run.setStep write).steps[run.nextStep]? = run.steps[run.nextStep]?.map write := by
  rw [setStep_steps?, if_pos rfl]

namespace KeepsSpent

variable {run next : RunRecord}

theorem refl (run : RunRecord) : KeepsSpent run run := ⟨rfl, fun _ _ _ _ _ spent => spent⟩

theorem trans {first second third : RunRecord} (left : KeepsSpent first second)
    (right : KeepsSpent second third) : KeepsSpent first third := by
  refine ⟨right.plan.trans left.plan, ?_⟩
  intro index planned item found once spent
  refine right.spent index planned item ?_ once (left.spent index planned item found once spent)
  rw [left.plan]
  exact found

theorem of_passed (plan : next.plan = run.plan)
    (passed : run.nextStep < next.nextStep ∨ run.plan.steps.length ≤ next.nextStep) :
    KeepsSpent run next := by
  refine ⟨plan, ?_⟩
  intro index planned item found _ spent
  have within : index < run.plan.steps.length := (List.getElem?_eq_some_iff.mp found).1
  rcases spent with before | ⟨here, _⟩
  · exact .inl (by omega)
  · exact .inl (by omega)

theorem of_ended (plan : next.plan = run.plan) (ended : Ended next) : KeepsSpent run next := by
  refine .of_passed plan (.inr ?_)
  rw [ended.nextStep, ended.length, plan]

theorem of_current (plan : next.plan = run.plan) (cursor : next.nextStep = run.nextStep)
    (current : ∀ planned step item, run.plan.steps[run.nextStep]? = some planned →
      planned.idempotent = false → run.steps[run.nextStep]? = some step →
      (item < step.outputs.length ∨
        item = step.outputs.length ∧ (run.activeAttempt.isSome = true ∨ run.Spoiled)) →
      next.Spent run.nextStep item) : KeepsSpent run next := by
  refine ⟨plan, ?_⟩
  intro index planned item found once spent
  rcases spent with before | ⟨rfl, step, stepFound, behind⟩
  · exact .inl (by omega)
  · exact current planned step item found once stepFound behind

theorem of_same (plan : next.plan = run.plan) (cursor : next.nextStep = run.nextStep)
    (steps : next.steps = run.steps) (attempts : next.attempts = run.attempts)
    (active : next.activeAttempt = run.activeAttempt) : KeepsSpent run next := by
  have spoiled : run.Spoiled → next.Spoiled := by
    unfold RunRecord.Spoiled
    rw [plan, cursor, steps, attempts]
    exact id
  refine ⟨plan, ?_⟩
  intro index planned item _ _ spent
  rcases spent with before | ⟨here, step, found, behind⟩
  · exact .inl (by omega)
  · refine .inr ⟨here.trans cursor.symm, step, by rw [steps]; exact found, ?_⟩
    rw [active]
    exact behind.imp_right (And.imp_right (Or.imp_right spoiled))

theorem of_idle (plan : next.plan = run.plan) (cursor : next.nextStep = run.nextStep)
    (idle : run.activeAttempt = none) (unspoiled : ¬ run.Spoiled)
    (steps : ∃ write, next.steps = (run.setStep write).steps ∧
      ∀ step, (write step).outputs = step.outputs) : KeepsSpent run next := by
  obtain ⟨write, written, outputs⟩ := steps
  refine .of_current plan cursor ?_
  intro planned step item _ _ found behind
  rcases behind with output | ⟨_, active | spoiled⟩
  · refine .inr ⟨cursor.symm, write step, ?_, .inl (by rw [outputs]; exact output)⟩
    rw [written, RunRecord.setStep_steps?, if_pos rfl, found]
    rfl
  · rw [idle] at active
    cases active
  · exact absurd spoiled unspoiled

theorem of_failed {active : Nat} {failure : RuntimeFailure} {now : DateTime} {revision : Nat}
    {write : ActionAttempt → ActionAttempt} (underway : Underway run)
    (isActive : run.activeAttempt = some active)
    (keeps : ∀ attempt, (write attempt).identity = attempt.identity) :
    KeepsSpent run
      { (run.settleAttempt active write).failStep failure now with revision := revision } := by
  obtain ⟨attempt, planned, step, at_⟩ := underway.active active isActive
  refine .of_current rfl rfl ?_
  intro current record item found once recordFound behind
  obtain rfl := Option.some.inj (at_.plannedFound.symm.trans found)
  obtain rfl := Option.some.inj (at_.stepFound.symm.trans recordFound)
  have written : ((run.settleAttempt active write).failStep failure now).steps[run.nextStep]? =
      some { step with status := .failed, error := some failure, finishedAt := some now } := by
    exact (RunRecord.setStep_current (run.settleAttempt active write) _).trans
      (congrArg (Option.map _) at_.stepFound)
  refine .inr ⟨rfl, _, written, behind.imp_right fun here => ⟨here.1, .inr ?_⟩⟩
  refine ⟨planned, found, _, written, once, rfl, write attempt, ?_, ?_, ?_⟩
  · refine List.mem_of_getElem? (i := active) ?_
    refine (RunRecord.setAttempt_attempts? run active active write).trans ?_
    rw [if_pos rfl, at_.attemptFound]
    rfl
  · exact (congrArg ActionAttempt.stepId (keeps attempt)).trans at_.stepId
  · exact (congrArg ActionAttempt.itemIndex (keeps attempt)).trans at_.itemIndex

end KeepsSpent

theorem RunRecord.not_spoiled {run : RunRecord}
    (unfailed : ∀ step, run.steps[run.nextStep]? = some step → step.status ≠ .failed) :
    ¬ run.Spoiled := by
  rintro ⟨planned, _, step, found, _, failed, _⟩
  exact unfailed step found failed

/-- A worker that is about to evaluate a step was not led back to it by a failure. -/
def Position.Unspoiled (position : Position) : Prop :=
  position.stage = .evaluating → ¬ position.claim.run.Spoiled

theorem Underway.next_unfailed {run next : RunRecord} (underway : Underway run)
    (cursor : next.nextStep = run.nextStep + 1)
    (steps : ∃ write, next.steps = (run.setStep write).steps) :
    ∀ step, next.steps[next.nextStep]? = some step → step.status ≠ .failed := by
  obtain ⟨write, written⟩ := steps
  intro step found
  rw [cursor, written, RunRecord.setStep_steps?, if_neg (by omega)] at found
  rw [(underway.later _ step (Nat.lt_succ_self _) found).1]
  simp

/-- A commit that goes on to evaluate leaves no failed current step. -/
theorem Commit.evaluating_unfailed {ext : Externals} {conditions : Conditions}
    {position : Position} {site : CommitSite} {run : RunRecord} (busy : position.Busy)
    (commit : Commit ext conditions position site run)
    (evaluating : position.stage.after site = .evaluating) :
    ∀ step, run.steps[run.nextStep]? = some step → step.status ≠ .failed := by
  have sound := commit.sound busy
  -- a run that has ended has no current step
  have over_ : Ended run → ∀ step, run.steps[run.nextStep]? = some step → step.status ≠ .failed := by
    intro ended step found
    rw [ended.nextStep, List.getElem?_eq_none (le_refl _)] at found
    cases found
  rcases sound with ended | ⟨underway, _⟩
  · exact over_ ended
  cases commit with
  | failureAdvanced now stage =>
    unfold RunRecord.advanceFailedStep
    split
    next stops =>
      rw [RunRecord.advanceFailedStep, if_pos stops] at underway
      cases underway.status
    exact busy.underway.next_unfailed rfl ⟨id, by simp [RunRecord.setStep]⟩
  | stepSkipped now _ _ _ _ _ _
  | stepSucceeded now _ => exact busy.underway.next_unfailed rfl ⟨_, rfl⟩
  | attemptSucceeded now _ isActive =>
    obtain ⟨attempt, planned, step, at_⟩ := busy.underway.active _ isActive
    intro written found
    obtain ⟨_, fits⟩ := busy.underway.succeed_fits isActive _ _ now
    obtain ⟨other, otherFound, running⟩ := fits
    obtain rfl := Option.some.inj (otherFound.symm.trans found)
    rw [running]
    simp
  | cancelled _ _ _ | interrupted _ _ _ _ | timedOut _ _ _ | timedOutUnapplied _ _ _ _ _
  | attemptLate _ _ _ | attemptUnknown _ _ _ _ _ _ _ => cases underway.status
  | finished _ _ _ =>
    have status := underway.status
    simp only [RunRecord.finish] at status
    split at status <;> cases status
  | conditionFailed _ stage _ _ _ | itemFailed _ _ stage =>
    rw [stage] at evaluating
    cases evaluating
  | attemptFailed _ _ _ _ =>
    cases stage : position.stage <;> rw [stage] at evaluating <;> cases evaluating
  | stepStarted _ _ stage _ _ | attemptStarted _ _ _ stage _ _ _ =>
    rw [stage] at evaluating
    cases evaluating

theorem unspoiled_rule (ext : Externals) :
    PositionRule ext advancesFailures Position.Unspoiled where
  claimed _ permitted _ := permitted
  answered _ _ _ evaluating := by cases evaluating
  committed {position site run} busy _ commit evaluating := by
    have unfailed : ∀ step, run.steps[run.nextStep]? = some step → step.status ≠ .failed :=
      commit.evaluating_unfailed busy evaluating
    exact RunRecord.not_spoiled unfailed

/-- No step of the engine gives back a spent attempt. -/
theorem keepsSpent_rule (ext : Externals) :
    LineageRule ext advancesFailures Position.Unspoiled KeepsSpent where
  refl := KeepsSpent.refl
  trans := KeepsSpent.trans
  cancels {run next} sound cancels := by
    obtain ⟨now, cancelled, accepted, rfl⟩ := cancels
    have attempts := RunRecord.requestCancel_attempts accepted
    have active := RunRecord.requestCancel_activeAttempt accepted
    have plan := (RunRecord.requestCancel_cancellation accepted).plan
    -- a run that goes on is as it was, and one that was still queued has spent nothing
    cases running : cancelled.status.terminal with
    | false =>
      obtain ⟨steps, nextStep⟩ := RunRecord.requestCancel_running accepted running
      exact ⟨.of_same plan nextStep steps attempts active,
        fun _ => .of_same plan.symm nextStep.symm steps.symm attempts.symm active.symm⟩
    | true =>
      have ended := (sound.cancelled accepted).of_terminal running
      refine ⟨.of_ended plan (ended.bump _), fun still => ?_⟩
      cases still
  started {run} now sound := by
    unfold startRun
    split <;> exact .of_same rfl rfl rfl rfl rfl
  committed {position site run} busy unspoiled commit := by
    have underway := busy.underway
    have fits := busy.fits
    rcases commit.sound busy with ended | ⟨after, _⟩
    · exact .of_ended commit.kept.plan (ended.bump _)
    cases commit with
    | cancelled _ _ _ | interrupted _ _ _ _ | timedOut _ _ _ | timedOutUnapplied _ _ _ _ _
    | attemptLate _ _ _ | attemptUnknown _ _ _ _ _ _ _ => cases after.status
    | finished now _ _ => exact .of_same rfl rfl rfl rfl rfl
    | conditionFailed now stage idle _ _ =>
      exact .of_idle rfl rfl idle (unspoiled stage) ⟨_, rfl, fun _ => rfl⟩
    | itemFailed failure now stage =>
      rw [stage] at fits
      obtain ⟨idle, step, found, running⟩ := fits
      refine .of_idle rfl rfl idle (RunRecord.not_spoiled ?_) ⟨_, rfl, fun _ => rfl⟩
      intro other otherFound
      obtain rfl := Option.some.inj (found.symm.trans otherFound)
      rw [running]
      simp
    | attemptFailed now _ isActive written => exact .of_failed underway isActive written.identity
    | failureAdvanced now stage =>
      rw [RunRecord.advanceFailedStep] at after ⊢
      split at after
      next => cases after.status
      next goes_on =>
        rw [if_neg goes_on]
        exact .of_passed rfl (.inl (Nat.lt_succ_self _))
    | stepSkipped now _ _ _ _ _ _ => exact .of_passed rfl (.inl (Nat.lt_succ_self _))
    | stepStarted startedAt now stage idle _ =>
      exact .of_idle rfl rfl idle (unspoiled stage) ⟨_, rfl, fun _ => rfl⟩
    | attemptStarted input startedAt now stage _ _ _ =>
      refine .of_current rfl rfl ?_
      intro planned step item _ _ found behind
      exact .inr ⟨rfl, step, found, behind.imp_right (And.imp_right fun _ => .inl rfl)⟩
    | @attemptSucceeded _ _ output _ now _ isActive =>
      refine .of_current rfl rfl ?_
      intro planned step item _ _ found behind
      refine .inr ⟨rfl, { step with outputs := step.outputs ++ [output] }, ?_, .inl ?_⟩
      · exact (RunRecord.setStep_current (RunRecord.settleAttempt _ _ _) _).trans
          (congrArg (Option.map _) found)
      · simp only [List.length_append, List.length_singleton]
        omega
    | stepSucceeded now _ => exact .of_passed rfl (.inl (Nat.lt_succ_self _))

/-- What a dispatch is made for: an item of a step of a run. -/
structure Effect where
  plan : PlannedRun
  step : Nat
  item : Option Nat
deriving DecidableEq

/-- The effect that the active attempt of a run is made for. -/
def RunRecord.effect (run : RunRecord) : Option Effect :=
  run.activeAttempt.bind fun active =>
    run.attempts[active]?.map fun attempt => ⟨run.plan, run.nextStep, attempt.itemIndex⟩

/-- May the effect not be repeated? -/
def Effect.Unrepeatable (effect : Effect) : Prop :=
  ∃ planned, effect.plan.steps[effect.step]? = some planned ∧ planned.idempotent = false

/-- The effect of a stored attempt that its worker is about to dispatch. -/
def Position.pending (position : Position) : Option Effect :=
  match position.stage with
  | .fresh => position.claim.run.effect
  | .evaluating | .items | .answered _ _ | .failed => none

theorem Position.effect_of_pending {position : Position} {effect : Effect}
    (waiting : position.pending = some effect) : position.claim.run.effect = some effect := by
  unfold pending at waiting
  split at waiting
  next => exact waiting
  all_goals cases waiting

theorem Stage.after_fresh {stage : Stage} {site : CommitSite} (fresh : stage.after site = .fresh) :
    site = .attemptStarted := by
  unfold after at fresh
  split at fresh <;> first | rfl | cases fresh

theorem ActiveAt.effect {run : RunRecord} {index : Nat} {attempt : ActionAttempt}
    {planned : PlannedStep} {step : StepRecord} (at_ : ActiveAt run index attempt planned step)
    (isActive : run.activeAttempt = some index) :
    run.effect = some ⟨run.plan, run.nextStep, step.nextItem planned⟩ := by
  simp only [RunRecord.effect, isActive, Option.bind_some, at_.attemptFound, Option.map_some,
    at_.itemIndex, StepRecord.nextItem]

theorem ActiveAt.spent {run : RunRecord} {index : Nat} {attempt : ActionAttempt}
    {planned : PlannedStep} {step : StepRecord} {effect : Effect}
    (at_ : ActiveAt run index attempt planned step) (isActive : run.activeAttempt = some index)
    (found : run.effect = some effect) :
    effect.plan = run.plan ∧ run.Spent effect.step (effect.item.getD 0) := by
  rw [at_.effect isActive] at found
  cases found
  refine ⟨rfl, .inr ⟨rfl, step, at_.stepFound, .inr ⟨?_, .inl (by simp [isActive])⟩⟩⟩
  cases forEach : planned.forEach with
  | none => simp [StepRecord.nextItem, forEach, at_.single forEach]
  | some _ => simp [StepRecord.nextItem, forEach]

theorem Sound.active_of_effect {run : RunRecord} {effect : Effect} (sound : Sound run)
    (found : run.effect = some effect) (unrepeatable : effect.Unrepeatable) :
    ∃ index attempt planned step, run.activeAttempt = some index ∧
      ActiveAt run index attempt planned step := by
  unfold RunRecord.effect at found
  obtain ⟨index, isActive, made⟩ := Option.bind_eq_some_iff.mp found
  obtain ⟨attempt, _, rfl⟩ := Option.map_eq_some_iff.mp made
  cases sound with
  | fresh fresh =>
    rw [fresh.activeAttempt] at isActive
    cases isActive
  | underway underway =>
    obtain ⟨attempt, planned, step, at_⟩ := underway.active index isActive
    exact ⟨index, attempt, planned, step, isActive, at_⟩
  | ended ended =>
    obtain ⟨planned, plannedFound, _⟩ := unrepeatable
    have beyond : run.plan.steps[run.nextStep]? = none :=
      List.getElem?_eq_none (by rw [ended.nextStep, ended.length])
    cases beyond.symm.trans plannedFound

/-- A worker sends an effect that may not be repeated only right after its attempt
was stored. -/
theorem Dispatches.pending {ext : Externals} {position : Position}
    {invocation : ActionInvocation} {effect : Effect}
    (dispatches : Dispatches ext position invocation) (sound : Sound position.claim.run)
    (found : position.claim.run.effect = some effect) (unrepeatable : effect.Unrepeatable) :
    position.pending = some effect := by
  rcases dispatches.stage with fresh | evaluating
  · rw [Position.pending, fresh]
    exact found
  · obtain ⟨index, attempt, planned, step, isActive, at_⟩ :=
      sound.active_of_effect found unrepeatable
    obtain ⟨active, sent, current, _, sentActive, sentFound, _, repeats, _⟩ := dispatches.built
    obtain rfl := Option.some.inj (isActive.symm.trans sentActive)
    obtain rfl := Option.some.inj (at_.attemptFound.symm.trans sentFound)
    rw [at_.effect isActive] at found
    cases found
    obtain ⟨other, otherFound, once⟩ := unrepeatable
    obtain rfl := Option.some.inj (at_.plannedFound.symm.trans otherFound)
    have repeatable := repeats evaluating
    rw [at_.idempotent, once] at repeatable
    cases repeatable

/-- No effect that may not be repeated is about to be dispatched twice, or once
more, or was dispatched twice. -/
structure DispatchedOnce (trace : Trace) : Prop where
  pending : ∀ left right leftPosition rightPosition effect,
    trace.positions left = some leftPosition → trace.positions right = some rightPosition →
    effect.Unrepeatable → leftPosition.pending = some effect →
    rightPosition.pending = some effect → left = right
  unsent : ∀ slot position effect, trace.positions slot = some position →
    effect.Unrepeatable → position.pending = some effect →
    ∀ sent ∈ trace.sent, sent.run.effect ≠ some effect
  sent : trace.sent.Pairwise fun later earlier => ∀ effect : Effect, effect.Unrepeatable →
    later.run.effect = some effect → earlier.run.effect ≠ some effect

namespace DispatchedOnce

variable {ext : Externals} {trace : Trace}

/-- A worker that is about to dispatch something was so before, or it is the one
that moved. -/
theorem kept {slot other : Nat} {moved : Option Position} {position : Position} {effect : Effect}
    (quiet : ∀ position, moved = some position → position.pending = none)
    (holds : Function.update trace.positions slot moved other = some position)
    (waiting : position.pending = some effect) :
    other ≠ slot ∧ trace.positions other = some position := by
  rcases updated_cases holds with ⟨_, same⟩ | kept
  · rw [quiet position same] at waiting
    cases waiting
  · exact kept

theorem idle (once : DispatchedOnce trace) (slot : Nat) {moved : Option Position}
    (quiet : ∀ position, moved = some position → position.pending = none) (store : MemoryState)
    (issued : List String) (recorded : List Recorded) :
    DispatchedOnce ⟨store, Function.update trace.positions slot moved, issued, trace.sent,
      recorded⟩ := by
  refine ⟨?_, ?_, once.sent⟩
  · intro left right leftPosition rightPosition effect leftHolds rightHolds unrepeatable leftWaits
      rightWaits
    exact once.pending left right leftPosition rightPosition effect
      (kept quiet leftHolds leftWaits).2 (kept quiet rightHolds rightWaits).2 unrepeatable
      leftWaits rightWaits
  · intro other position effect holds unrepeatable waiting
    exact once.unsent other position effect (kept quiet holds waiting).2 unrepeatable waiting

/-- A dispatch turns the pending effect of its worker into one that was sent, or
repeats one that may be repeated. -/
theorem send (once : DispatchedOnce trace) (sound : trace.Sound) {slot : Nat} {position : Position}
    {invocation : ActionInvocation} {result : Except DispatchFailure (Value × Value)}
    (at_ : trace.positions slot = some position) (dispatches : Dispatches ext position invocation) :
    DispatchedOnce { trace with
        positions := Function.update trace.positions slot (some
          { position with stage := .answered position.stage.isEvaluating result })
        sent := { run := position.claim.run, invocation := invocation } :: trace.sent } := by
  have quiet : ∀ moved, some { position with
      stage := .answered position.stage.isEvaluating result } = some moved →
      Position.pending moved = none := by
    rintro _ ⟨⟩
    rfl
  have before : ∀ effect : Effect, effect.Unrepeatable →
      position.claim.run.effect = some effect → position.pending = some effect :=
    fun effect unrepeatable found =>
      dispatches.pending (sound.held slot position at_).1 found unrepeatable
  have after := once.idle slot quiet trace.store trace.issued trace.recorded
  refine ⟨after.pending, ?_, ?_⟩
  · intro other place effect holds unrepeatable waiting sent member
    rcases List.mem_cons.mp member with rfl | older
    · intro found
      obtain ⟨elsewhere, placed⟩ := kept quiet holds waiting
      exact elsewhere (once.pending other slot place position effect placed at_ unrepeatable waiting
        (before effect unrepeatable found))
    · exact after.unsent other place effect holds unrepeatable waiting sent older
  · refine List.pairwise_cons.mpr ⟨?_, once.sent⟩
    intro earlier member effect unrepeatable found
    exact once.unsent slot position effect at_ unrepeatable (before effect unrepeatable found)
      earlier member

theorem spent_in_held {versions : List RunRecord} (chronicle : Chronicle KeepsSpent trace versions)
    {slot : Nat} {position : Position} {entry : String × Lease}
    (at_ : trace.positions slot = some position)
    (leased : trace.store.runLeases.get? position.claim.run.plan.id = some entry)
    (mine : entry.2.token = position.claim.token) {old : RunRecord} (member : old ∈ versions)
    {effect : Effect} (found : old.effect = some effect) (unrepeatable : effect.Unrepeatable)
    (active : ∃ index attempt planned step, old.activeAttempt = some index ∧
      ActiveAt old index attempt planned step)
    (plan : effect.plan = position.claim.run.plan) :
    position.claim.run.Spent effect.step (effect.item.getD 0) := by
  obtain ⟨index, attempt, _, step, isActive, oldAt⟩ := active
  obtain ⟨oldPlan, spent⟩ := oldAt.spent isActive found
  obtain ⟨planned, plannedFound, once⟩ := unrepeatable
  rw [oldPlan] at plannedFound
  have later := chronicle.heldLast slot position entry at_ leased mine old member
    (oldPlan.symm.trans plan)
  exact later.spent effect.step planned _ plannedFound once spent

theorem unspent {position : Position} {planned : PlannedStep} {step : StepRecord}
    (busy : position.Busy) (stage : position.stage = .items)
    (record : position.claim.run.steps[position.claim.run.nextStep]? = some step)
    (single : planned.forEach = none → step.outputs = []) :
    ¬ position.claim.run.Spent position.claim.run.nextStep ((step.nextItem planned).getD 0) := by
  have fits := busy.fits
  rw [stage] at fits
  obtain ⟨idle, other, otherFound, running⟩ := fits
  obtain rfl := Option.some.inj (record.symm.trans otherFound)
  have item : (step.nextItem planned).getD 0 = step.outputs.length := by
    cases forEach : planned.forEach with
    | none => simp [StepRecord.nextItem, forEach, single forEach]
    | some _ => simp [StepRecord.nextItem, forEach]
  rw [item]
  rintro (before | ⟨_, found, foundHere, behind⟩)
  · exact absurd before (lt_irrefl _)
  · obtain rfl := Option.some.inj (record.symm.trans foundHere)
    rcases behind with output | ⟨_, active | spoiled⟩
    · exact absurd output (lt_irrefl _)
    · rw [idle] at active
      cases active
    · refine RunRecord.not_spoiled ?_ spoiled
      intro current currentFound
      obtain rfl := Option.some.inj (record.symm.trans currentFound)
      rw [running]
      simp

/-- A commit that is accepted keeps every effect dispatched once. -/
theorem commit (once : DispatchedOnce trace) (sound : trace.Sound)
    (built : ∀ sent ∈ trace.sent, ∃ index attempt planned step,
      Built ext sent index attempt planned step)
    {versions : List RunRecord} (chronicle : Chronicle KeepsSpent trace versions)
    {slot : Nat} {position : Position} {site : CommitSite} {run : RunRecord}
    {store : MemoryState} {next : Claim} {recorded : List Recorded}
    (at_ : trace.positions slot = some position)
    (running : position.claim.run.status = .running)
    (commit : Commit ext advancesFailures position site run)
    (result : commitRun trace.store { position.claim with run := run } [] =
      some (store, .ok next)) :
    DispatchedOnce
      { trace with
        store := store
        positions := Function.update trace.positions slot (some
          { position with claim := next, stage := position.stage.after site })
        recorded := recorded } := by
  obtain ⟨rfl, rfl, entry, stored, leased, _, mine, _, _⟩ := commitRun_stores result
  by_cases starts : site = .attemptStarted
  swap
  · refine once.idle slot ?_ _ trace.issued recorded
    rintro _ ⟨⟩
    unfold Position.pending
    split
    next fresh => exact absurd (Stage.after_fresh fresh) starts
    all_goals rfl
  subst starts
  cases commit with
  | @attemptStarted planned step input startedAt now stage found record single =>
    have busy := (sound.held slot position at_).2 running
    -- the effect of the new attempt is not that of an older version
    have unseen : ∀ old ∈ versions, ∀ effect : Effect, effect.Unrepeatable →
        old.effect = some effect → (∃ index attempt planned step,
          old.activeAttempt = some index ∧ ActiveAt old index attempt planned step) →
        ∀ revision, RunRecord.effect { position.claim.run.startAttempt
          (newAttempt ext position.claim.run planned
            (planned.forEach.map fun _ => step.outputs.length) input startedAt) now with
          revision := revision } ≠ some effect := by
      intro old member effect unrepeatable oldFound active revision made
      have same : effect = ⟨position.claim.run.plan, position.claim.run.nextStep,
          step.nextItem planned⟩ := by
        simpa [RunRecord.effect, RunRecord.startAttempt, newAttempt, StepRecord.nextItem]
          using made.symm
      have spent := spent_in_held chronicle at_ leased mine member oldFound unrepeatable active
        (congrArg Effect.plan same)
      rw [same] at spent
      exact unspent busy stage record single spent
    refine ⟨?_, ?_, once.sent⟩
    · intro left right leftPosition rightPosition effect leftHolds rightHolds unrepeatable
        leftWaits rightWaits
      have leftEffect := Position.effect_of_pending leftWaits
      have rightEffect := Position.effect_of_pending rightWaits
      rcases updated_cases leftHolds with ⟨rfl, leftHere⟩ | ⟨_, leftKept⟩ <;>
        rcases updated_cases rightHolds with ⟨rfl, rightHere⟩ | ⟨_, rightKept⟩
      · rfl
      · cases leftHere
        have record := (sound.held right rightPosition rightKept).1
        exact absurd leftEffect (unseen _ (chronicle.held right rightPosition rightKept) effect
          unrepeatable rightEffect (record.active_of_effect rightEffect unrepeatable) _)
      · cases rightHere
        have record := (sound.held left leftPosition leftKept).1
        exact absurd rightEffect (unseen _ (chronicle.held left leftPosition leftKept) effect
          unrepeatable leftEffect (record.active_of_effect leftEffect unrepeatable) _)
      · exact once.pending left right leftPosition rightPosition effect leftKept rightKept
          unrepeatable leftWaits rightWaits
    · intro other place effect holds unrepeatable waits sent member
      rcases updated_cases holds with ⟨rfl, here⟩ | ⟨_, kept⟩
      · cases here
        intro sentEffect
        obtain ⟨index, attempt, _, _, from_⟩ := built sent member
        exact unseen _ (chronicle.sent sent member) effect unrepeatable sentEffect
          ⟨index, attempt, _, _, from_.isActive, from_.at_⟩ _ (Position.effect_of_pending waits)
      · exact once.unsent other place effect kept unrepeatable waits sent member

theorem step (once : DispatchedOnce trace) (before : TraceRun ext advancesFailures .initial trace)
    {later : Trace} (step : TraceStep ext advancesFailures trace later) : DispatchedOnce later := by
  have sound := Trace.Sound.run before
  cases step with
  | admitEvent _ _ => exact ⟨once.pending, once.unsent, once.sent⟩
  | claimed slot _ _ _ =>
    refine once.idle slot ?_ _ _ trace.recorded
    rintro _ ⟨⟩
    rfl
  | released _ | requestCancel _ _ => exact ⟨once.pending, once.unsent, once.sent⟩
  | crash slot => exact once.idle slot (fun _ gone => by cases gone) _ _ _
  | send _ at_ dispatches _ => exact once.send sound at_ dispatches
  | commit at_ running commit result =>
    obtain ⟨versions, chronicle⟩ :=
      (keepsSpent_rule ext).run (fun reached => (unspoiled_rule ext).run reached) before
    exact once.commit sound (sent_built before) chronicle at_ running commit result

theorem run (reached : TraceRun ext advancesFailures .initial trace) : DispatchedOnce trace := by
  induction reached with
  | refl => constructor <;> simp [Trace.initial]
  | tail before last ih => exact ih.step before last

end DispatchedOnce

/-- An effect that may not be repeated is dispatched at most once, whatever the
workers and the providers do, and every dispatch is made for an effect of its run. -/
theorem unrepeatable_effects_are_dispatched_once {ext : Externals} {sys : Fleet}
    (reached : FleetRun ext advancesFailures .initial sys) :
    (∀ effect : Effect, effect.Unrepeatable →
      (sys.sent.filter fun sent => sent.run.effect = some effect).length ≤ 1) ∧
    ∀ sent ∈ sys.sent, ∃ index attempt planned step,
      Built ext sent index attempt planned step ∧
        sent.run.effect = some ⟨sent.run.plan, sent.run.nextStep, attempt.itemIndex⟩ := by
  obtain ⟨trace, before, tracks⟩ := Tracks.run reached
  have once := (DispatchedOnce.run before).sent
  have built := sent_built before
  rw [tracks.sent] at once built
  constructor
  · intro effect unrepeatable
    have apart := once.filter fun sent => decide (sent.run.effect = some effect)
    match matching : sys.sent.filter fun sent => decide (sent.run.effect = some effect) with
    | [] => simp [matching]
    | [_] => simp [matching]
    | left :: right :: _ =>
      have member : ∀ sent ∈ [left, right], sent.run.effect = some effect := by
        intro sent here
        have filtered : sent ∈ sys.sent.filter fun sent =>
            decide (sent.run.effect = some effect) := by
          rw [matching]
          exact List.mem_of_mem_take (i := 2) here
        simpa using (List.mem_filter.mp filtered).2
      rw [matching] at apart
      have differ := (List.pairwise_cons.mp apart).1 right List.mem_cons_self effect unrepeatable
        (member left (by simp))
      exact absurd (member right (by simp)) differ
  · intro sent member
    obtain ⟨index, attempt, planned, step, from_⟩ := built sent member
    refine ⟨index, attempt, planned, step, from_, ?_⟩
    rw [from_.at_.effect from_.isActive, from_.at_.itemIndex]
    rfl

/-- A worker that dies between the dispatch and the next commit leaves an attempt
that the next worker does not dispatch again. -/
theorem unrepeatable_effects_are_dispatched_once_after_crash :
    ∃ sys, FleetRun sampleExternals advancesFailures .initial sys ∧ ∃ effect : Effect,
      effect.Unrepeatable ∧
      (sys.sent.filter fun sent => sent.run.effect = some effect).length = 1 := by
  obtain ⟨sys, reached, sent, member, planned, found, once⟩ := exists_of_replayFleet
    sampleExternals advancesFailures .initial
    (sampleClaim [sampleStep "a" false] ++ sampleAttempt 0 ++
      [.send 0 sampleLoss, .crash 0,
        .claimRun 1 sampleConfig "runner" "w" 5000 1000 "u", .readClock 1 5001, .commit 1])
    (fun sys => ∃ sent ∈ sys.sent, ∃ planned ∈ sent.run.plan.steps[sent.run.nextStep]?,
      planned.idempotent = false) (by decide +kernel)
  obtain ⟨atMost, effects⟩ := unrepeatable_effects_are_dispatched_once reached
  obtain ⟨_, attempt, _, _, _, effect⟩ := effects sent member
  have unrepeatable : Effect.Unrepeatable
      ⟨sent.run.plan, sent.run.nextStep, attempt.itemIndex⟩ := ⟨planned, found, once⟩
  refine ⟨sys, reached, _, unrepeatable, Nat.le_antisymm (atMost _ unrepeatable) ?_⟩
  exact List.length_pos_of_mem (List.mem_filter.mpr ⟨member, by simpa using effect⟩)

/-- A worker that dies between failing the step and advancing the run makes the
next worker dispatch the refused action once more. -/
theorem unrepeatable_effect_is_dispatched_twice :
    ∃ sys, FleetRun sampleExternals .none .initial sys ∧ ∃ effect : Effect,
      effect.Unrepeatable ∧
      (sys.sent.filter fun sent => sent.run.effect = some effect).length = 2 := by
  obtain ⟨sys, reached, twice⟩ := exists_of_replayFleet
    sampleExternals .none .initial
    (sampleClaim [sampleStep "a" false] ++ sampleAttempt 0 ++
      [.send 0 sampleRefusal, .readClock 0 2, .readClock 0 2, .commit 0, .crash 0,
        .claimRun 1 sampleConfig "runner" "w" 5000 1000 "u"] ++ (sampleAttempt 1).tail ++
      [.send 1 sampleRefusal])
    (fun sys => ∃ sent ∈ sys.sent, ∃ effect ∈ sent.run.effect,
      (∃ planned ∈ effect.plan.steps[effect.step]?, planned.idempotent = false) ∧
      (sys.sent.filter fun sent => sent.run.effect = some effect).length = 2) (by decide +kernel)
  obtain ⟨_, _, effect, _, unrepeatable, count⟩ := twice
  exact ⟨sys, reached, effect, unrepeatable, count⟩

end Mdbase.Runtime
