import Mdbase.Runtime.Engine.AtMostOnce

/-!
# The results of steps

A step that has come to its end keeps its status in every later version of its
run, and a step with a successful attempt is neither skipped nor failed by its
condition. Both hold as long as a resumed run is not led back into what is behind
it: a run is not claimed with its current step stored as failed, and the
expressions of a step whose attempts have succeeded still let it go on when they
are evaluated once more.
-/

namespace Mdbase.Runtime

open Library Relation Memory

/-- Did an attempt for a step succeed? -/
def RunRecord.Achieved (run : RunRecord) (stepId : String) : Prop :=
  ∃ attempt ∈ run.attempts, attempt.stepId = stepId ∧ attempt.status = .succeeded

/-- Did an attempt for the current step succeed? -/
def RunRecord.CurrentAchieved (run : RunRecord) : Prop :=
  ∃ planned ∈ run.plan.steps[run.nextStep]?, run.Achieved planned.id

/-- Is the current step of a run stored as failed? -/
def RunRecord.AtFailure (run : RunRecord) : Prop :=
  ∃ step ∈ run.steps[run.nextStep]?, step.status = .failed

/-- Do the condition and the items of a step, evaluated at a given time, let the
step go on? -/
def PlannedStep.LetsGoOn (ext : Externals) (config : RuntimeConfig) (run : RunRecord)
    (planned : PlannedStep) : ClockUse → DateTime → Prop
  | .condition, now => ∀ condition ∈ planned.condition,
      (conditionHolds ext config run condition now).toOption = some true
  | .items, now => ∀ forEach ∈ planned.forEach,
      ∃ items ∈ (expandItems ext config run planned.id forEach now).toOption,
        items.length ≤ config.maxItems
  | .other, _ => True

/-- Whatever is evaluated for a step with a successful attempt lets it go on. -/
def StaysOn (ext : Externals) (config : RuntimeConfig) (run : RunRecord) (use : ClockUse)
    (now : DateTime) : Prop :=
  ∀ planned ∈ run.plan.steps[run.nextStep]?, run.Achieved planned.id →
    planned.LetsGoOn ext config run use now

instance (run : RunRecord) (stepId : String) : Decidable (run.Achieved stepId) := by
  unfold RunRecord.Achieved
  infer_instance

instance (run : RunRecord) : Decidable run.AtFailure := by
  unfold RunRecord.AtFailure
  infer_instance

instance (ext : Externals) (config : RuntimeConfig) (run : RunRecord) (planned : PlannedStep)
    (now : DateTime) : (use : ClockUse) → Decidable (planned.LetsGoOn ext config run use now)
  | .condition => inferInstanceAs (Decidable (∀ condition ∈ planned.condition, _))
  | .items => inferInstanceAs (Decidable (∀ forEach ∈ planned.forEach, _))
  | .other => .isTrue trivial

instance (ext : Externals) (config : RuntimeConfig) (run : RunRecord) (use : ClockUse)
    (now : DateTime) : Decidable (StaysOn ext config run use now) := by
  unfold StaysOn
  infer_instance

/-- No run is claimed at a step that is stored as failed, or by a worker that
allows no item, and what has succeeded is not put in question. -/
abbrev keepsResults (ext : Externals) : Conditions where
  admits _ _ := True
  claims config run := ¬ run.AtFailure ∧ 0 < config.maxItems
  reads := StaysOn ext
  answers _ _ := True

/-- The statuses of the steps after a commit: a step other than the current one is
kept unless it is pending, and the current one does not become pending. -/
structure StepsMove (site : CommitSite) (old new : RunRecord) : Prop where
  others : ∀ index step, index ≠ old.nextStep → old.steps[index]? = some step →
    ∃ next, new.steps[index]? = some next ∧ (next.status = step.status ∨ step.status = .pending)
  current : ∀ step, old.steps[old.nextStep]? = some step →
    ∃ next, new.steps[old.nextStep]? = some next ∧ (next.status = step.status ∨
      next.status ≠ .pending ∧ (next.status = .skipped → site = .stepSkipped))

namespace StepsMove

variable {site : CommitSite} {run next : RunRecord}

theorem of_same (steps : next.steps = run.steps) : StepsMove site run next := by
  refine ⟨fun index step _ found => ⟨step, ?_, .inl rfl⟩, fun step found => ⟨step, ?_, .inl rfl⟩⟩
  · rw [steps]
    exact found
  · rw [steps]
    exact found

variable {write : StepRecord → StepRecord}

theorem of_setStep (steps : next.steps = (run.setStep write).steps)
    (written : ∀ step, (write step).status = step.status ∨ (write step).status ≠ .pending ∧
      ((write step).status = .skipped → site = .stepSkipped)) : StepsMove site run next := by
  constructor
  · intro index step elsewhere found
    refine ⟨step, ?_, .inl rfl⟩
    rw [steps, RunRecord.setStep_steps?, if_neg (Ne.symm elsewhere)]
    exact found
  · intro step found
    refine ⟨write step, ?_, written step⟩
    rw [steps, RunRecord.setStep_current, found]
    rfl

theorem of_conclude {settled : RunRecord} {now : DateTime}
    (settledSteps : settled.steps = (run.setStep write).steps)
    (cursor : settled.nextStep = run.nextStep)
    (steps : next.steps = (settled.skipRemainingSteps (settled.nextStep + 1) now).steps)
    (written : ∀ step, (write step).status = step.status ∨ (write step).status ≠ .pending ∧
      ((write step).status = .skipped → site = .stepSkipped)) : StepsMove site run next := by
  constructor
  · intro index step elsewhere found
    rw [steps, RunRecord.skipRemainingSteps_steps?, settledSteps, RunRecord.setStep_steps?,
      if_neg (Ne.symm elsewhere), found]
    refine ⟨_, rfl, ?_⟩
    dsimp only
    split
    next pending => exact .inr pending.2
    next => exact .inl rfl
  · intro step found
    rw [steps, RunRecord.skipRemainingSteps_steps?, settledSteps, RunRecord.setStep_current, found, cursor]
    refine ⟨write step, ?_, written step⟩
    simp

end StepsMove

variable {site : CommitSite} {ext : Externals} {conditions : Conditions} {run : RunRecord}

theorem Commit.moves {position : Position} (commit : Commit ext conditions position site run) :
    StepsMove site position.claim.run run := by
  cases commit with
  | cancelled _ _ _ | interrupted _ _ _ _ | timedOut _ _ _ | timedOutUnapplied _ _ _ _ _
  | attemptLate _ _ _
  | attemptUnknown _ _ _ _ _ _ _ => exact .of_conclude rfl rfl rfl fun _ => .inr (by simp)
  | conditionFailed _ _ _ _ _ | itemFailed _ _ _ | attemptFailed _ _ _ _ | stepSkipped _ _ _ _ _ _ _
  | stepStarted _ _ _ _ _ | stepSucceeded _ _ => exact .of_setStep rfl fun _ => .inr (by simp)
  | attemptSucceeded _ _ _ => exact .of_setStep rfl fun _ => .inl rfl
  | attemptStarted _ _ _ _ _ _ _ | finished _ _ _ => exact .of_same rfl
  | failureAdvanced _ _ =>
    unfold RunRecord.advanceFailedStep
    split
    next =>
      have same : position.claim.run.steps = (position.claim.run.setStep id).steps := by
        simp [RunRecord.setStep]
      exact .of_conclude same rfl rfl fun _ => .inl rfl
    next => exact .of_same rfl

/-- Steps that have come to their end keep their status. -/
def KeepsFinal (old new : RunRecord) : Prop :=
  ∀ (index : Nat) (step : StepRecord), old.steps[index]? = some step → step.status.final = true →
    ∃ next : StepRecord, new.steps[index]? = some next ∧ next.status = step.status

/-- A worker that allows items and was not led back to a step that had failed. -/
structure Position.Settled (position : Position) : Prop where
  unfailed : position.stage = .evaluating → ¬ position.claim.run.AtFailure
  allows : 0 < position.config.maxItems

theorem settled_rule (ext : Externals) :
    PositionRule ext (keepsResults ext) Position.Settled where
  claimed _ permitted := ⟨fun _ => permitted.1, permitted.2⟩
  answered _ _ settled := by
    refine ⟨fun evaluating => ?_, settled.allows⟩
    cases evaluating
  committed {position site run} busy settled commit := by
    refine ⟨fun evaluating => ?_, settled.allows⟩
    have unfailed : ∀ step, run.steps[run.nextStep]? = some step → step.status ≠ .failed :=
      commit.evaluating_unfailed busy evaluating
    rintro ⟨step, found, failed⟩
    exact unfailed step found failed

/-- A commit made by a worker that was not led back keeps the status of its step if
it is final. -/
theorem Commit.current_kept {position : Position} (busy : position.Busy)
    (unfailed : position.stage = .evaluating → ¬ position.claim.run.AtFailure)
    (commit : Commit ext conditions position site run) {step : StepRecord}
    (found : position.claim.run.steps[position.claim.run.nextStep]? = some step)
    (final : step.status.final = true) : ∃ next,
      run.steps[position.claim.run.nextStep]? = some next ∧ next.status = step.status := by
  have fits := busy.fits
  -- only a failed step is final, and only where its worker is about to advance the run
  have here : position.stage = .failed := by
    cases stage : position.stage with
    | evaluating =>
      rcases busy.underway.current step found with ⟨pending, _⟩ | running | failed
      · rw [pending] at final
        cases final
      · rw [running] at final
        cases final
      · exact absurd ⟨step, found, failed⟩ (unfailed stage)
    | items =>
      rw [stage] at fits
      obtain ⟨_, other, otherFound, running⟩ := fits
      obtain rfl := Option.some.inj (found.symm.trans otherFound)
      rw [running] at final
      cases final
    | fresh | answered _ _ =>
      rw [stage] at fits
      obtain ⟨index, isActive⟩ := Option.isSome_iff_exists.mp fits
      obtain ⟨_, _, other, at_⟩ := busy.underway.active index isActive
      obtain rfl := Option.some.inj (found.symm.trans at_.stepFound)
      rw [at_.running] at final
      cases final
    | failed => rfl
  cases commit with
  | failureAdvanced now _ =>
    refine ⟨step, ?_, rfl⟩
    unfold RunRecord.advanceFailedStep
    split
    next => simp [RunRecord.conclude_steps?, found]
    next => exact found
  | attemptFailed _ stage _ _ => exact absurd here stage.2
  | cancelled _ stage _ | interrupted _ _ stage _ | timedOut _ stage _
  | timedOutUnapplied _ _ _ stage _ | conditionFailed _ stage _ _ _ | itemFailed _ _ stage
  | stepSkipped _ stage _ _ _ _ _ | stepStarted _ _ stage _ _ | attemptStarted _ _ _ stage _ _ _
  | attemptSucceeded _ stage _ | attemptLate _ stage _ | attemptUnknown _ stage _ _ _ _ _
  | stepSucceeded _ stage | finished _ stage _ => cases here.symm.trans stage

theorem Sound.fresh_of_cancelled {run cancelled : RunRecord} {now : DateTime} (sound : Sound run)
    (accepted : run.requestCancel now = some cancelled)
    (terminal : cancelled.status.terminal = true) : Fresh run := by
  have effect := RunRecord.requestCancel_cancellation accepted
  cases sound with
  | fresh fresh => exact fresh
  | underway underway =>
    have status := effect.status
    rw [if_pos underway.status] at status
    rw [status] at terminal
    cases terminal
  | ended ended =>
    have active := effect.active
    rw [ended.status] at active
    cases active

/-- No step of the engine changes a final result. -/
theorem keepsFinal_rule (ext : Externals) :
    LineageRule ext (keepsResults ext) Position.Settled KeepsFinal where
  refl run index step found _ := ⟨step, found, rfl⟩
  trans {first second third} left right index step found final := by
    obtain ⟨middle, middleFound, same⟩ := left index step found final
    rw [← same] at final
    obtain ⟨last, lastFound, lastSame⟩ := right index middle middleFound final
    exact ⟨last, lastFound, lastSame.trans same⟩
  cancels {run next} sound cancels := by
    obtain ⟨now, cancelled, accepted, rfl⟩ := cancels
    cases running : cancelled.status.terminal with
    | false =>
      have steps := (RunRecord.requestCancel_running accepted running).1
      constructor
      · intro index step found _
        exact ⟨step, by rw [← steps] at found; exact found, rfl⟩
      · intro _ index step found _
        refine ⟨step, ?_, rfl⟩
        rw [← steps]
        exact found
    | true =>
      refine ⟨?_, fun still => by cases still⟩
      -- only a queued run ends at once, and all its steps are pending
      intro index step found final
      have fresh := sound.fresh_of_cancelled accepted running
      rw [(fresh.steps step (List.mem_of_getElem? found)).1] at final
      cases final
  started {run} now sound index step found _ := by
    refine ⟨step, ?_, rfl⟩
    unfold startRun
    split <;> exact found
  committed {position site run} busy settled commit index step found final := by
    by_cases here : index = position.claim.run.nextStep
    · subst here
      exact commit.current_kept busy settled.unfailed found final
    · obtain ⟨next, nextFound, same | pending⟩ := commit.moves.others index step here found
      · exact ⟨next, nextFound, same⟩
      · rw [pending] at final
        cases final

/-- A step of the run that an attempt with the given step id and status is made for:
it was started, and it was not skipped if the attempt succeeded. -/
def RunRecord.Places (run : RunRecord) (stepId : String) (status : ActionAttemptStatus) : Prop :=
  ∃ (index : Nat) (planned : PlannedStep) (step : StepRecord),
    run.plan.steps[index]? = some planned ∧ planned.id = stepId ∧
      run.steps[index]? = some step ∧ step.status ≠ .pending ∧
      (status = .succeeded → step.status ≠ .skipped)

/-- Every attempt of a run has its step. -/
def Accounted (run : RunRecord) : Prop :=
  ∀ attempt ∈ run.attempts, run.Places attempt.stepId attempt.status

variable {run next : RunRecord}

/-- A commit that does not skip a step on which an attempt succeeded keeps the
places of attempts. -/
theorem RunRecord.Places.moved {stepId : String}
    {status : ActionAttemptStatus} (places : run.Places stepId status) (plan : next.plan = run.plan)
    (moves : StepsMove site run next)
    (unskipped : site = .stepSkipped → status = .succeeded → ∀ planned,
      run.plan.steps[run.nextStep]? = some planned → planned.id ≠ stepId) :
    next.Places stepId status := by
  obtain ⟨index, planned, step, plannedFound, same, found, started, kept⟩ := places
  by_cases here : index = run.nextStep
  · subst here
    obtain ⟨after, afterFound, move⟩ := moves.current step found
    refine ⟨_, planned, after, by rw [plan]; exact plannedFound, same, afterFound, ?_, ?_⟩
    · rcases move with equal | ⟨unpending, _⟩
      · rw [equal]
        exact started
      · exact unpending
    · intro succeeded skipped
      rcases move with equal | ⟨_, skips⟩
      · exact kept succeeded (equal.symm.trans skipped)
      · exact unskipped (skips skipped) succeeded planned plannedFound same
  · obtain ⟨after, afterFound, equal | pending⟩ := moves.others index step here found
    · refine ⟨index, planned, after, by rw [plan]; exact plannedFound, same, afterFound, ?_, ?_⟩
      · rw [equal]
        exact started
      · rw [equal]
        exact kept
    · exact absurd pending started

/-- A commit keeps every attempt in its place if it keeps the attempts or writes to
the active one. -/
theorem Accounted.moved (accounted : Accounted run)
    (plan : next.plan = run.plan) (moves : StepsMove site run next)
    (unskipped : site ≠ .stepSkipped)
    (attempts : ∀ attempt ∈ next.attempts, (∃ old ∈ run.attempts, old.stepId = attempt.stepId ∧
        (attempt.status = .succeeded → old.status = .succeeded)) ∨
      next.Places attempt.stepId attempt.status) : Accounted next := by
  intro attempt member
  rcases attempts attempt member with ⟨old, oldMember, stepId, status⟩ | places
  · obtain ⟨index, planned, step, plannedFound, same, found, started, kept⟩ :=
      (accounted old oldMember).moved plan moves (fun skips => absurd skips unskipped)
    exact ⟨index, planned, step, plannedFound, same.trans stepId, found, started,
      fun succeeded => kept (status succeeded)⟩
  · exact places

variable {write : ActionAttempt → ActionAttempt}

/-- The attempts after one of them was written to: the others are as they were, and
so is the one that was written to unless it succeeded. -/
theorem setAttempt_origin {active : Nat} {written : ActionAttempt}
    (found : run.attempts[active]? = some written)
    (keeps : ∀ attempt, (write attempt).identity = attempt.identity) :
    ∀ attempt ∈ (run.setAttempt active write).attempts,
      (∃ old ∈ run.attempts, old.stepId = attempt.stepId ∧
        (attempt.status = .succeeded → old.status = .succeeded)) ∨
      attempt.stepId = written.stepId := by
  intro attempt member
  obtain ⟨index, attemptFound⟩ := List.mem_iff_getElem?.mp member
  rw [RunRecord.setAttempt_attempts?] at attemptFound
  split at attemptFound
  next here =>
    subst here
    rw [found] at attemptFound
    cases attemptFound
    have stepId := congrArg ActionAttempt.stepId (keeps written)
    exact .inr stepId
  next => exact .inl ⟨attempt, List.mem_of_getElem? attemptFound, rfl, id⟩

theorem Accounted.settled {active : Nat} (accounted : Accounted run) (underway : Underway run)
    (isActive : run.activeAttempt = some active) (plan : next.plan = run.plan)
    (moves : StepsMove site run next) (unskipped : site ≠ .stepSkipped)
    (attempts : next.attempts = (run.setAttempt active write).attempts)
    (keeps : ∀ attempt, (write attempt).identity = attempt.identity) : Accounted next := by
  obtain ⟨written, planned, step, at_⟩ := underway.active active isActive
  refine accounted.moved plan moves unskipped fun attempt member => ?_
  rw [attempts] at member
  refine (setAttempt_origin at_.attemptFound keeps attempt member).imp_right fun stepId => ?_
  obtain ⟨after, afterFound, move⟩ := moves.current step at_.stepFound
  refine ⟨_, planned, after, by rw [plan]; exact at_.plannedFound,
    at_.stepId.symm.trans stepId.symm, afterFound, ?_, ?_⟩
  · rcases move with equal | ⟨unpending, _⟩
    · rw [equal, at_.running]
      simp
    · exact unpending
  · intro _ skipped
    rcases move with equal | ⟨_, skips⟩
    · rw [equal, at_.running] at skipped
      cases skipped
    · exact unskipped (skips skipped)

/-- Every record that a step writes is accounted for. -/
theorem accounted_rule (ext : Externals) : RecordRule ext (keepsResults ext) Accounted where
  admitted plan attempt member := by cases member
  cancelled {run cancelled now} sound accounted accepted := by
    have attempts := RunRecord.requestCancel_attempts accepted
    have plan := (RunRecord.requestCancel_cancellation accepted).plan
    intro attempt member
    have before : attempt ∈ run.attempts := by
      rw [← attempts]
      exact member
    cases running : cancelled.status.terminal with
    | false =>
      have steps := (RunRecord.requestCancel_running accepted running).1
      obtain ⟨index, planned, step, rest⟩ := accounted attempt before
      rw [← plan, ← steps] at rest
      exact ⟨index, planned, step, rest⟩
    | true =>
      rw [(sound.fresh_of_cancelled accepted running).attempts] at before
      cases before
  started {run} now sound accounted := by
    unfold startRun
    split <;> exact accounted
  committed {position site run} busy accounted commit := by
    have underway := busy.underway
    have plan := commit.kept.plan
    have moves := commit.moves
    have same : site ≠ .stepSkipped → run.attempts = position.claim.run.attempts →
        Accounted run := fun unskipped attempts =>
      accounted.moved plan moves unskipped fun attempt member =>
        .inl ⟨attempt, by rw [← attempts]; exact member, rfl, id⟩
    have bump : Accounted run → Accounted { run with revision := run.revision + 1 } := id
    refine bump ?_
    cases commit with
    | cancelled _ _ _ => exact same (by simp) rfl
    | interrupted _ _ _ isActive =>
      exact accounted.settled underway isActive plan moves (by simp) rfl fun _ => rfl
    | timedOut _ _ _ => exact same (by simp) rfl
    | timedOutUnapplied _ _ _ _ isActive | attemptLate _ _ isActive
    | attemptUnknown _ _ isActive _ _ _ _ =>
      exact accounted.settled underway isActive plan moves (by simp) rfl fun _ => rfl
    | conditionFailed _ _ _ _ _ | itemFailed _ _ _ => exact same (by simp) rfl
    | attemptFailed _ _ isActive written =>
      exact accounted.settled underway isActive plan moves (by simp) rfl written.identity
    | @stepSkipped planned condition evaluatedAt _ _ _ found present read unmet =>
      intro attempt member
      refine (accounted attempt member).moved plan moves fun _ succeeded current foundAgain same => ?_
      obtain rfl := Option.some.inj (found.symm.trans foundAgain)
      have holds := read planned found ⟨attempt, member, same.symm, succeeded⟩ condition present
      rw [unmet] at holds
      cases holds
    | stepStarted _ _ _ _ _ | stepSucceeded _ _ => exact same (by simp) rfl
    | attemptSucceeded _ _ isActive =>
      exact accounted.settled underway isActive plan moves (by simp) rfl fun _ => rfl
    | @attemptStarted planned step input startedAt now stage found stored _ =>
      have fits := busy.fits
      rw [stage] at fits
      obtain ⟨_, other, otherFound, running⟩ := fits
      obtain rfl := Option.some.inj (stored.symm.trans otherFound)
      refine accounted.moved plan moves (by simp) fun attempt member => ?_
      rcases List.mem_append.mp member with before | new
      · exact .inl ⟨attempt, before, rfl, id⟩
      · obtain rfl := List.mem_singleton.mp new
        refine .inr ⟨_, planned, step, found, rfl, stored, ?_, fun succeeded => ?_⟩
        · rw [running]
          simp
        · cases succeeded
    | finished _ _ _ => exact same (by simp) rfl
    | failureAdvanced now _ =>
      refine same (by simp) ?_
      unfold RunRecord.advanceFailedStep
      split <;> rfl

/-- No step that is recorded as skipped had achieved anything. -/
theorem recorded_achieved {trace : Trace}
    (reached : TraceRun ext (keepsResults ext) .initial trace) :
    ∀ entry ∈ trace.recorded, entry.site = .conditionFailed ∨ entry.site = .stepSkipped →
      ¬ entry.held.CurrentAchieved := by
  induction reached with
  | refl =>
    intro entry member
    cases member
  | tail before last ih =>
    cases last with
    | @commit slot position site run _ _ at_ running commit _ =>
      intro entry member sort
      rcases List.mem_cons.mp member with rfl | older
      · have settled := (settled_rule ext).run before slot position at_
        rintro ⟨planned, plannedFound, achieved⟩
        cases commit with
        | conditionFailed now _ _ found cause =>
          obtain rfl := Option.some.inj (Eq.trans (Eq.symm plannedFound) found)
          cases cause with
          | condition present read fails =>
            have holds := read planned found achieved _ present
            rw [fails] at holds
            cases holds
          | items present read fails =>
            obtain ⟨items, expanded, _⟩ := read planned found achieved _ present
            rw [fails] at expanded
            cases expanded
          | limit present read expands exceeds =>
            obtain ⟨items, expanded, within⟩ := read planned found achieved _ present
            rw [expands] at expanded
            cases expanded
            exact absurd within (by omega)
          | single _ exceeds =>
            have allows := settled.allows
            omega
        | stepSkipped now _ _ found present read unmet =>
          obtain rfl := Option.some.inj (Eq.trans (Eq.symm plannedFound) found)
          have holds := read planned found achieved _ present
          rw [unmet] at holds
          cases holds
        | _ => simp at sort
      · exact ih entry older sort
    | admitEvent _ _ | claimed _ _ _ _ | released _ | requestCancel _ _ | crash _
    | send _ _ _ _ => exact ih

/-- The stored status of a step that has come to its end stays, and a step with a
successful attempt is not skipped and not failed by its condition. -/
theorem step_results_are_final {ext : Externals} {sys : Fleet}
    (reached : FleetRun ext (keepsResults ext) .initial sys) :
    (∀ later, FleetRun ext (keepsResults ext) sys later → ∀ run ∈ sys.store.runs,
      ∀ next ∈ later.store.runs, next.plan = run.plan → KeepsFinal run next) ∧
    (∀ run ∈ sys.store.runs, (run.plan.steps.map PlannedStep.id).Nodup →
      ∀ (index : Nat) (planned : PlannedStep) (step : StepRecord),
        run.plan.steps[index]? = some planned → run.steps[index]? = some step →
        run.Achieved planned.id → step.status ≠ .skipped) ∧
    ∀ entry ∈ sys.recorded, entry.site = .conditionFailed ∨ entry.site = .stepSkipped →
      ¬ entry.held.CurrentAchieved := by
  obtain ⟨trace, before, tracks⟩ := Tracks.run reached
  refine ⟨?_, ?_, ?_⟩
  · intro later onward run stored next nextStored plan
    have fits : ∀ {trace}, TraceRun ext (keepsResults ext) .initial trace →
        ∀ slot position, trace.positions slot = some position → position.Settled :=
      fun reached => (settled_rule ext).run reached
    obtain ⟨after, steps, laterTracks⟩ := Tracks.onward before tracks onward
    obtain ⟨versions, chronicle⟩ := (keepsFinal_rule ext).run fits before
    obtain ⟨newer, laterChronicle⟩ := (keepsFinal_rule ext).onward fits before chronicle steps
    rw [← tracks.store] at stored
    rw [← laterTracks.store] at nextStored
    exact laterChronicle.storedLast next nextStored run
      (List.mem_append_right _ (chronicle.stored run stored)) plan.symm
  · intro run stored distinct index planned step plannedFound found achieved
    rw [← tracks.store] at stored
    obtain ⟨attempt, member, stepId, succeeded⟩ := achieved
    obtain ⟨other, current, record, currentFound, same, recordFound, _, unskipped⟩ :=
      ((accounted_rule ext).run before).1 run stored attempt member
    have here : other = index := by
      have within : other < (run.plan.steps.map PlannedStep.id).length := by
        rw [List.length_map]
        exact (List.getElem?_eq_some_iff.mp currentFound).1
      refine (List.getElem?_inj within distinct).mp ?_
      rw [List.getElem?_map, List.getElem?_map, currentFound, plannedFound]
      exact congrArg some (same.trans stepId)
    subst here
    obtain rfl := Option.some.inj (found.symm.trans recordFound)
    exact unskipped succeeded
  · rw [← tracks.recorded]
    exact recorded_achieved before

/-- A step whose attempt succeeded before its worker died is not skipped by the
next one. -/
theorem step_results_are_final_after_crash :
    ∃ sys, FleetRun sampleExternals (keepsResults sampleExternals) .initial sys ∧
      ∃ run ∈ sys.store.runs, run.Achieved "a" ∧
        ∀ step ∈ run.steps[0]?, step.status = .succeeded ∧ step.status ≠ .skipped := by
  obtain ⟨sys, reached, run, stored, achieved, distinct, ⟨planned, plannedFound, same⟩, status⟩ :=
    exists_of_replayFleet sampleExternals (keepsResults sampleExternals) .initial
      (sampleClaim [sampleStep "a" false] ++ sampleAttempt 0 ++
        [.send 0 sampleSuccess, .readClock 0 2, .commit 0, .crash 0,
          .claimRun 1 sampleConfig "runner" "w" 5000 1000 "u",
          .readClock 1 5001, .commit 1, .readClock 1 5001, .commit 1])
      (fun sys => ∃ run ∈ sys.store.runs.entries, run.Achieved "a" ∧
        (run.plan.steps.map PlannedStep.id).Nodup ∧
        (∃ planned ∈ run.plan.steps[0]?, planned.id = "a") ∧
        ∀ step ∈ run.steps[0]?, step.status = .succeeded) (by decide +kernel)
  refine ⟨sys, reached, run, stored, achieved, fun step found => ⟨status step found, ?_⟩⟩
  exact (step_results_are_final reached).2.1 run stored distinct 0 planned step plannedFound found
    (by rw [same]; exact achieved)

/-- Libraries under which a condition holds until the time 100. -/
def earlyExternals : Externals :=
  { sampleExternals with
    evaluateRuntimeExpression := fun _ _ now _ => .ok (.bool (decide (now < 100))) }

/-- A step that was stored as failed is running again after its worker died, and a
step with a successful attempt is skipped where its condition no longer holds. -/
theorem step_results_are_changed :
    (∃ sys later, FleetRun sampleExternals .none .initial sys ∧
      FleetRun sampleExternals .none sys later ∧ ∃ run ∈ sys.store.runs,
        ∃ next ∈ later.store.runs, next.plan = run.plan ∧ ¬ KeepsFinal run next) ∧
    ∃ sys, FleetRun earlyExternals .none .initial sys ∧ ∃ run ∈ sys.store.runs,
      run.Achieved "a" ∧ ∃ planned ∈ run.plan.steps[0]?, planned.id = "a" ∧
        ∃ step ∈ run.steps[0]?, step.status = .skipped := by
  constructor
  · obtain ⟨sys, later, reached, onward, run, stored, next, nextStored, plan, failed, running⟩ :=
      exists_of_replayFleet_parts sampleExternals .none .initial
        (sampleClaim [sampleStep "a" false] ++ sampleAttempt 0 ++
          [.send 0 sampleRefusal, .readClock 0 2, .readClock 0 2, .commit 0, .crash 0])
        [.claimRun 1 sampleConfig "runner" "w" 5000 1000 "u", .readClock 1 5001, .commit 1]
        (fun sys later => ∃ run ∈ sys.store.runs.entries, ∃ next ∈ later.store.runs.entries,
          next.plan = run.plan ∧ (∃ step ∈ run.steps[0]?, step.status = .failed) ∧
            ∃ step ∈ next.steps[0]?, step.status = .running) (by decide +kernel)
    refine ⟨sys, later, reached, onward, run, stored, next, nextStored, plan, fun keeps => ?_⟩
    obtain ⟨step, found, failed⟩ := failed
    obtain ⟨other, otherFound, running⟩ := running
    obtain ⟨same, sameFound, status⟩ := keeps 0 step found (by rw [failed]; rfl)
    obtain rfl := Option.some.inj (sameFound.symm.trans otherFound)
    rw [failed, running] at status
    cases status
  · exact exists_of_replayFleet earlyExternals .none .initial
      (sampleClaim [{ sampleStep "a" false with condition := some "early" }] ++
        .readClock 0 1 :: sampleAttempt 0 ++
        [.send 0 sampleSuccess, .readClock 0 2, .commit 0, .crash 0,
          .claimRun 1 sampleConfig "runner" "w" 5000 1000 "u",
          .readClock 1 5001, .readClock 1 5001, .commit 1])
      (fun sys => ∃ run ∈ sys.store.runs.entries, run.Achieved "a" ∧
        ∃ planned ∈ run.plan.steps[0]?, planned.id = "a" ∧
          ∃ step ∈ run.steps[0]?, step.status = .skipped) (by decide +kernel)

end Mdbase.Runtime
