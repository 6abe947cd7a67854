import Mdbase.Runtime.Engine.Records

/-!
# Sound run records

The shape of a run record by its status: `Fresh` while it is queued, `Underway`
while it is running and `Ended` when it is terminal. `Underway` ties the cursor,
the step statuses and the active attempt together; it is what makes a resumed
claim pick up the step and the attempt that the last commit left.
-/

namespace Mdbase.Runtime

/-- The statuses of the steps that a running run has passed. -/
def StepStatus.passed : StepStatus → Bool
  | .succeeded | .failed | .skipped => true
  | .pending | .running | .cancelled | .timedOut | .indeterminate => false

theorem StepStatus.final_of_passed {status : StepStatus} (passed : status.passed = true) :
    status.final = true := by
  cases status <;> simp_all [StepStatus.passed, StepStatus.final]

namespace RunRecord

@[simp] theorem setStep_steps? (run : RunRecord) (write : StepRecord → StepRecord) (index : Nat) :
    (run.setStep write).steps[index]? =
      if run.nextStep = index then run.steps[index]?.map write else run.steps[index]? := by
  simp only [setStep, List.getElem?_modify]
  split <;> simp

@[simp] theorem setStep_length (run : RunRecord) (write : StepRecord → StepRecord) :
    (run.setStep write).steps.length = run.steps.length := by
  simp [setStep]

@[simp] theorem setAttempt_attempts? (run : RunRecord) (active index : Nat)
    (write : ActionAttempt → ActionAttempt) :
    (run.setAttempt active write).attempts[index]? =
      if active = index then run.attempts[index]?.map write else run.attempts[index]? := by
  simp only [setAttempt, List.getElem?_modify]
  split <;> simp

@[simp] theorem conclude_length (run : RunRecord) (status : RunStatus) (now : DateTime) :
    (run.conclude status now).steps.length = run.steps.length := by
  simp only [conclude, skipRemainingSteps, List.length_append, List.length_map, List.length_take,
    List.length_drop]
  omega

theorem skipRemainingSteps_steps? (run : RunRecord) (start : Nat) (now : DateTime) (index : Nat) :
    (run.skipRemainingSteps start now).steps[index]? = run.steps[index]?.map fun step =>
      if start ≤ index ∧ step.status = .pending then
        { step with status := .skipped, finishedAt := some now }
      else step := by
  simp only [skipRemainingSteps]
  by_cases before : index < start
  · have unreached : ¬ start ≤ index := by omega
    by_cases within : index < run.steps.length
    · rw [List.getElem?_append_left (by simp; omega), List.getElem?_take_of_lt before]
      simp [unreached]
    · rw [List.getElem?_eq_none (by simp; omega), List.getElem?_eq_none (by omega)]
      rfl
  · by_cases within : start ≤ run.steps.length
    · rw [List.getElem?_append_right (by simp; omega)]
      simp only [List.length_take, Nat.min_eq_left within, List.getElem?_map, List.getElem?_drop]
      have same : start + (index - start) = index := by omega
      rw [same]
      simp [Nat.not_lt.mp before]
    · rw [List.getElem?_eq_none (by simp; omega), List.getElem?_eq_none (by omega)]
      rfl

theorem conclude_steps? (run : RunRecord) (status : RunStatus) (now : DateTime) (index : Nat) :
    (run.conclude status now).steps[index]? = run.steps[index]?.map fun step =>
      if run.nextStep + 1 ≤ index ∧ step.status = .pending then
        { step with status := .skipped, finishedAt := some now }
      else step :=
  run.skipRemainingSteps_steps? (run.nextStep + 1) now index

end RunRecord

/-- A queued run: nothing has happened to it. -/
structure Fresh (run : RunRecord) : Prop where
  status : run.status = .queued
  length : run.steps.length = run.plan.steps.length
  nextStep : run.nextStep = 0
  steps : ∀ step ∈ run.steps, step.status = .pending ∧ step.outputs = []
  attempts : run.attempts = []
  activeAttempt : run.activeAttempt = none

/-- The active attempt of a running run: the last one, the only one that is
dispatching, made for the current step and for its first item without output. -/
structure ActiveAt (run : RunRecord) (index : Nat) (attempt : ActionAttempt)
    (planned : PlannedStep) (step : StepRecord) : Prop where
  last : index + 1 = run.attempts.length
  attemptFound : run.attempts[index]? = some attempt
  plannedFound : run.plan.steps[run.nextStep]? = some planned
  stepFound : run.steps[run.nextStep]? = some step
  dispatching : attempt.status = .dispatching
  others : ∀ other found, run.attempts[other]? = some found → found.status = .dispatching →
    other = index
  stepId : attempt.stepId = planned.id
  idempotent : attempt.idempotent = planned.idempotent
  itemIndex : attempt.itemIndex = planned.forEach.map fun _ => step.outputs.length
  single : planned.forEach = none → step.outputs = []
  running : step.status = .running

/-- A running run, between its steps or inside one. -/
structure Underway (run : RunRecord) : Prop where
  status : run.status = .running
  length : run.steps.length = run.plan.steps.length
  cursor : run.nextStep ≤ run.steps.length
  earlier : ∀ index step, index < run.nextStep → run.steps[index]? = some step →
    step.status.passed = true
  current : ∀ step, run.steps[run.nextStep]? = some step →
    (step.status = .pending ∧ step.outputs = []) ∨ step.status = .running ∨ step.status = .failed
  later : ∀ index step, run.nextStep < index → run.steps[index]? = some step →
    step.status = .pending ∧ step.outputs = []
  idle : run.activeAttempt = none → ∀ attempt ∈ run.attempts, attempt.status ≠ .dispatching
  active : ∀ index, run.activeAttempt = some index →
    ∃ attempt planned step, ActiveAt run index attempt planned step

/-- A terminal run. Only an attempt whose unknown outcome ended the run can still
be named as the active one. -/
structure Ended (run : RunRecord) : Prop where
  status : run.status.terminal = true
  length : run.steps.length = run.plan.steps.length
  nextStep : run.nextStep = run.steps.length
  finishedAt : run.finishedAt.isSome = true
  steps : ∀ step ∈ run.steps, step.status.final = true
  attempts : ∀ attempt ∈ run.attempts, attempt.status ≠ .dispatching
  succeeded : run.status = .succeeded → ∀ step ∈ run.steps,
    step.status = .succeeded ∨ step.status = .skipped
  active : ∀ index, run.activeAttempt = some index → run.status = .indeterminate ∧
    ∃ attempt, run.attempts[index]? = some attempt ∧ attempt.idempotent = false ∧
      attempt.status = .indeterminate

/-- A record has the shape of its status. -/
inductive Sound (run : RunRecord) : Prop where
  | fresh (fresh : Fresh run)
  | underway (underway : Underway run)
  | ended (ended : Ended run)

variable {run : RunRecord}

theorem Underway.bump (underway : Underway run) (revision : Nat) :
    Underway { run with revision := revision } := by
  obtain ⟨status, length, cursor, earlier, current, later, idle, active⟩ := underway
  refine ⟨status, length, cursor, earlier, current, later, idle, ?_⟩
  intro index found
  obtain ⟨attempt, planned, step, at_⟩ := active index found
  exact ⟨attempt, planned, step, { at_ with }⟩

theorem Ended.bump (ended : Ended run) (revision : Nat) :
    Ended { run with revision := revision } := by
  obtain ⟨status, length, nextStep, finishedAt, steps, attempts, succeeded, active⟩ := ended
  exact ⟨status, length, nextStep, finishedAt, steps, attempts, succeeded, active⟩

namespace Sound

variable {run : RunRecord}

theorem of_queued (sound : Sound run) (queued : run.status = .queued) : Fresh run := by
  cases sound with
  | fresh fresh => exact fresh
  | underway underway =>
    have running := underway.status
    rw [queued] at running
    cases running
  | ended ended =>
    have terminal := ended.status
    rw [queued] at terminal
    cases terminal

theorem of_running (sound : Sound run) (running : run.status = .running) : Underway run := by
  cases sound with
  | fresh fresh =>
    have queued := fresh.status
    rw [running] at queued
    cases queued
  | underway underway => exact underway
  | ended ended =>
    have terminal := ended.status
    rw [running] at terminal
    cases terminal

theorem of_terminal (sound : Sound run) (terminal : run.status.terminal = true) : Ended run := by
  cases sound with
  | fresh fresh => simp [fresh.status, RunStatus.terminal] at terminal
  | underway underway => simp [underway.status, RunStatus.terminal] at terminal
  | ended ended => exact ended

theorem bump (sound : Sound run) (revision : Nat) : Sound { run with revision := revision } := by
  cases sound with
  | fresh fresh =>
    obtain ⟨status, length, nextStep, steps, attempts, active⟩ := fresh
    exact .fresh ⟨status, length, nextStep, steps, attempts, active⟩
  | underway underway => exact .underway (underway.bump revision)
  | ended ended => exact .ended (ended.bump revision)

theorem admitted (plan : PlannedRun) : Sound (RunRecord.admitted plan) := by
  refine .fresh ⟨rfl, by simp [RunRecord.admitted], rfl, ?_, rfl, rfl⟩
  intro step member
  simp only [RunRecord.admitted, List.mem_map] at member
  obtain ⟨_, _, rfl⟩ := member
  exact ⟨rfl, rfl⟩

end Sound

namespace Underway

variable {run next : RunRecord}

theorem current_exists (underway : Underway run) (within : run.nextStep < run.plan.steps.length) :
    ∃ step planned, run.steps[run.nextStep]? = some step ∧
      run.plan.steps[run.nextStep]? = some planned := by
  have short : run.nextStep < run.steps.length := by
    rw [underway.length]
    exact within
  exact ⟨run.steps[run.nextStep], run.plan.steps[run.nextStep],
    List.getElem?_eq_getElem short, List.getElem?_eq_getElem within⟩

theorem idle_of_done (underway : Underway run) (done : run.plan.steps.length ≤ run.nextStep) :
    run.activeAttempt = none := by
  cases found : run.activeAttempt with
  | none => rfl
  | some index =>
    obtain ⟨attempt, planned, step, at_⟩ := underway.active index found
    have none := List.getElem?_eq_none done
    rw [at_.plannedFound] at none
    cases none

theorem rewrite (underway : Underway run) (status : next.status = .running)
    (plan : next.plan = run.plan) (cursor : next.nextStep = run.nextStep)
    (steps : ∃ write, next.steps = (run.setStep write).steps ∧
      ∀ step, run.steps[run.nextStep]? = some step →
        ((write step).status = .pending ∧ (write step).outputs = []) ∨
          (write step).status = .running ∨ (write step).status = .failed)
    (idle : next.activeAttempt = none → ∀ attempt ∈ next.attempts, attempt.status ≠ .dispatching)
    (active : ∀ index, next.activeAttempt = some index →
      ∃ attempt planned step, ActiveAt next index attempt planned step) : Underway next := by
  obtain ⟨write, same, written⟩ := steps
  refine ⟨status, ?_, ?_, ?_, ?_, ?_, idle, active⟩
  · rw [same, plan, RunRecord.setStep_length]
    exact underway.length
  · rw [same, cursor, RunRecord.setStep_length]
    exact underway.cursor
  · intro index step before found
    rw [cursor] at before
    rw [same, RunRecord.setStep_steps?, if_neg (by omega)] at found
    exact underway.earlier index step before found
  · intro step found
    rw [same, cursor, RunRecord.setStep_steps?, if_pos rfl] at found
    obtain ⟨old, oldFound, rfl⟩ := Option.map_eq_some_iff.mp found
    exact written old oldFound
  · intro index step after found
    rw [cursor] at after
    rw [same, RunRecord.setStep_steps?, if_neg (by omega)] at found
    exact underway.later index step after found

theorem pass (underway : Underway run) (within : run.nextStep < run.steps.length)
    (status : next.status = .running) (plan : next.plan = run.plan)
    (cursor : next.nextStep = run.nextStep + 1)
    (steps : ∃ write, next.steps = (run.setStep write).steps ∧
      ∀ step, run.steps[run.nextStep]? = some step → (write step).status.passed = true)
    (idle : run.activeAttempt = none) (attempts : next.attempts = run.attempts)
    (active : next.activeAttempt = none) : Underway next := by
  obtain ⟨write, same, written⟩ := steps
  refine ⟨status, ?_, ?_, ?_, ?_, ?_, ?_, ?_⟩
  · rw [same, plan, RunRecord.setStep_length]
    exact underway.length
  · rw [same, cursor, RunRecord.setStep_length]
    exact within
  · intro index step before found
    rw [same, RunRecord.setStep_steps?] at found
    split at found
    next here =>
      subst here
      obtain ⟨old, oldFound, rfl⟩ := Option.map_eq_some_iff.mp found
      exact written old oldFound
    next elsewhere => exact underway.earlier index step (by omega) found
  · intro step found
    rw [same, cursor, RunRecord.setStep_steps?, if_neg (by omega)] at found
    exact .inl (underway.later _ step (by omega) found)
  · intro index step after found
    rw [cursor] at after
    rw [same, RunRecord.setStep_steps?, if_neg (by omega)] at found
    exact underway.later index step (by omega) found
  · intro _ attempt member
    rw [attempts] at member
    exact underway.idle idle attempt member
  · intro index found
    rw [active] at found
    cases found

theorem settled (underway : Underway run) {index : Nat} {write : ActionAttempt → ActionAttempt}
    (active : run.activeAttempt = some index)
    (written : ∀ attempt, (write attempt).status ≠ .dispatching) :
    ∀ attempt ∈ (run.setAttempt index write).attempts, attempt.status ≠ .dispatching := by
  intro attempt member dispatching
  obtain ⟨other, found⟩ := List.mem_iff_getElem?.mp member
  rw [RunRecord.setAttempt_attempts?] at found
  split at found
  next =>
    obtain ⟨old, _, rfl⟩ := Option.map_eq_some_iff.mp found
    exact written old dispatching
  next elsewhere =>
    obtain ⟨_, _, _, at_⟩ := underway.active index active
    exact elsewhere (at_.others other attempt found dispatching).symm

end Underway

namespace Ended

variable {run : RunRecord}

theorem of_conclude {status : RunStatus} {now : DateTime} (terminal : status.terminal = true)
    (unsuccessful : status ≠ .succeeded) (length : run.steps.length = run.plan.steps.length)
    (before : ∀ index step, index ≤ run.nextStep → run.steps[index]? = some step →
      step.status.final = true)
    (after : ∀ index step, run.nextStep < index → run.steps[index]? = some step →
      step.status = .pending)
    (attempts : ∀ attempt ∈ run.attempts, attempt.status ≠ .dispatching)
    (active : ∀ index, run.activeAttempt = some index → status = .indeterminate ∧
      ∃ attempt, run.attempts[index]? = some attempt ∧ attempt.idempotent = false ∧
        attempt.status = .indeterminate) :
    Ended (run.conclude status now) := by
  refine ⟨terminal, ?_, ?_, rfl, ?_, attempts, fun same => absurd same unsuccessful, active⟩
  · rw [RunRecord.conclude_length]
    exact length
  · rw [RunRecord.conclude_length]
    rfl
  · intro step member
    obtain ⟨index, found⟩ := List.mem_iff_getElem?.mp member
    rw [RunRecord.conclude_steps?] at found
    obtain ⟨old, oldFound, rfl⟩ := Option.map_eq_some_iff.mp found
    by_cases reached : index ≤ run.nextStep
    · rw [if_neg (by omega)]
      exact before index old reached oldFound
    · rw [if_pos ⟨by omega, after index old (by omega) oldFound⟩]
      rfl

theorem clear (ended : Ended run) : Ended { run with activeAttempt := none } := by
  obtain ⟨status, length, nextStep, finishedAt, steps, attempts, succeeded, _⟩ := ended
  exact ⟨status, length, nextStep, finishedAt, steps, attempts, succeeded, by simp⟩

end Ended

/-- A cancellation keeps a run sound. -/
theorem Sound.cancelled (sound : Sound run) {now : DateTime} {cancelled : RunRecord}
    (accepted : run.requestCancel now = some cancelled) : Sound cancelled := by
  unfold RunRecord.requestCancel at accepted
  split at accepted
  next => cases accepted
  rename_i active
  dsimp only at accepted
  split at accepted
  next waits =>
    cases accepted
    have queued : run.status = .queued := by
      rcases waits with queued | waiting
      · exact queued
      · cases sound with
        | fresh fresh => exact fresh.status
        | underway underway => rw [underway.status] at waiting; cases waiting
        | ended ended => exact absurd ended.status active
    obtain ⟨_, length, nextStep, steps, attempts, idle⟩ := sound.of_queued queued
    have ended : Ended ((run.endStep .cancelled now).conclude .cancelled now) := by
      refine .of_conclude rfl (by simp) ?_ ?_ ?_ ?_ ?_
      · rw [RunRecord.endStep, RunRecord.setStep_length]
        exact length
      · intro index step reached found
        rw [RunRecord.endStep, RunRecord.setStep_steps?] at found
        have first : run.nextStep = index := by
          have zero : index ≤ run.nextStep := reached
          omega
        rw [if_pos first] at found
        obtain ⟨old, _, rfl⟩ := Option.map_eq_some_iff.mp found
        rfl
      · intro index step after found
        have beyond : run.nextStep < index := after
        rw [RunRecord.endStep, RunRecord.setStep_steps?, if_neg (by omega)] at found
        exact (steps step (List.mem_of_getElem? found)).1
      · intro attempt member
        rw [show (run.endStep .cancelled now).attempts = run.attempts from rfl, attempts]
          at member
        cases member
      · intro index found
        rw [show (run.endStep .cancelled now).activeAttempt = run.activeAttempt from rfl, idle]
          at found
        cases found
    obtain ⟨status, endedLength, endedCursor, finishedAt, endedSteps, endedAttempts, succeeded,
      endedActive⟩ := ended
    refine .ended ⟨status, endedLength, ?_, finishedAt, endedSteps, endedAttempts, succeeded,
      endedActive⟩
    rfl
  rename_i busy
  cases accepted
  cases sound with
  | fresh fresh => exact absurd (.inl fresh.status) busy
  | underway underway =>
    obtain ⟨status, length, cursor, earlier, current, later, idle, at_⟩ := underway
    refine .underway ⟨status, length, cursor, earlier, current, later, idle, ?_⟩
    intro index found
    obtain ⟨attempt, planned, step, at_⟩ := at_ index found
    exact ⟨attempt, planned, step, { at_ with }⟩
  | ended ended => exact absurd ended.status active

variable {write : StepRecord → StepRecord}

/-- The steps of a running run whose current step was ended: those up to it are
final, those after it pending. -/
theorem Underway.breaks (underway : Underway run)
    (ends : ∀ step, (write step).status.final = true) :
    (∀ index step, index ≤ run.nextStep → (run.setStep write).steps[index]? = some step →
      step.status.final = true) ∧
    (∀ index step, run.nextStep < index → (run.setStep write).steps[index]? = some step →
      step.status = .pending) := by
  constructor
  · intro index step reached found
    rw [RunRecord.setStep_steps?] at found
    split at found
    next =>
      obtain ⟨old, _, rfl⟩ := Option.map_eq_some_iff.mp found
      exact ends old
    next elsewhere =>
      exact StepStatus.final_of_passed (underway.earlier index step (by omega) found)
  · intro index step after found
    rw [RunRecord.setStep_steps?, if_neg (by omega)] at found
    exact (underway.later index step after found).1

theorem Fresh.start {run : RunRecord} (fresh : Fresh run) (startedAt : Option DateTime)
    (now : DateTime) :
    Underway { run with status := .running, startedAt := startedAt, updatedAt := now } := by
  obtain ⟨_, length, nextStep, steps, attempts, idle⟩ := fresh
  refine ⟨rfl, length, ?_, ?_, ?_, ?_, ?_, ?_⟩
  · rw [nextStep]
    exact Nat.zero_le _
  · intro index step before _
    rw [nextStep] at before
    exact absurd before (Nat.not_lt_zero index)
  · exact fun step found => .inl (steps step (List.mem_of_getElem? found))
  · exact fun index step _ found => steps step (List.mem_of_getElem? found)
  · intro _ attempt member
    rw [attempts] at member
    cases member
  · intro index found
    rw [idle] at found
    cases found

theorem Underway.ends (underway : Underway run) (settled : RunRecord)
    (steps : settled.steps = run.steps) (plan : settled.plan = run.plan)
    (cursor : settled.nextStep = run.nextStep)
    {status : RunStatus} {now : DateTime} (ends : ∀ step, (write step).status.final = true)
    (terminal : status.terminal = true) (unsuccessful : status ≠ .succeeded)
    (attempts : ∀ attempt ∈ settled.attempts, attempt.status ≠ .dispatching)
    (active : ∀ index, settled.activeAttempt = some index → status = .indeterminate ∧
      ∃ attempt, settled.attempts[index]? = some attempt ∧ attempt.idempotent = false ∧
        attempt.status = .indeterminate) :
    Ended ((settled.setStep write).conclude status now) := by
  obtain ⟨before, after⟩ := underway.breaks ends
  have same : (settled.setStep write).steps = (run.setStep write).steps := by
    simp only [RunRecord.setStep, steps, cursor]
  refine .of_conclude terminal unsuccessful ?_ ?_ ?_ attempts active
  · rw [RunRecord.setStep_length, steps, underway.length]
    exact congrArg (fun plan => plan.steps.length) plan.symm
  · intro index step reached found
    rw [same] at found
    have within : index ≤ run.nextStep := by
      rw [← cursor]
      exact reached
    exact before index step within found
  · intro index step reached found
    rw [same] at found
    have beyond : run.nextStep < index := by
      rw [← cursor]
      exact reached
    exact after index step beyond found

end Mdbase.Runtime
