import Mdbase.Runtime.Engine.Lineage

/-!
# Replays carry the same evidence

A replayed dispatch is rebuilt from the current step and the stored attempt. The
versions of a run agree on what identifies its attempts, and while an attempt is
the active one the cursor stays on its step; so two dispatches for one attempt are
the same invocation, up to the worker that sends it and the time it is sent.
-/

namespace Mdbase.Runtime

open Library Relation Memory

/-- The part of an attempt that is fixed when it is stored. -/
def ActionAttempt.identity (attempt : ActionAttempt) : ActionAttempt :=
  { attempt with
    status := .dispatching
    output := none
    receipt := none
    error := none
    finishedAt := none }

/-- The attempts of a run are only added to, and while no attempt is added the
active one and its step stay. -/
structure SameAttempts (old new : RunRecord) : Prop where
  attempts : old.attempts.map ActionAttempt.identity <+: new.attempts.map ActionAttempt.identity
  terminal : old.status.terminal = true → new.status.terminal = true
  active : old.attempts.length = new.attempts.length → new.status.terminal = false →
    new.activeAttempt.isSome = true →
    old.activeAttempt = new.activeAttempt ∧ old.nextStep = new.nextStep

namespace SameAttempts

variable {run : RunRecord}

theorem refl (run : RunRecord) : SameAttempts run run :=
  ⟨List.prefix_refl _, fun terminal => terminal, fun _ _ _ => ⟨rfl, rfl⟩⟩

theorem trans {first second third : RunRecord} (left : SameAttempts first second)
    (right : SameAttempts second third) : SameAttempts first third := by
  refine ⟨left.attempts.trans right.attempts, fun over_ => right.terminal (left.terminal over_), ?_⟩
  intro same running isActive
  have leftLength := left.attempts.length_le
  have rightLength := right.attempts.length_le
  simp only [List.length_map] at leftLength rightLength
  obtain ⟨rightActive, rightStep⟩ := right.active (by omega) running isActive
  have middleRunning : second.status.terminal = false := by
    cases ended : second.status.terminal with
    | false => rfl
    | true =>
      rw [right.terminal ended] at running
      cases running
  obtain ⟨leftActive, leftStep⟩ := left.active (by omega) middleRunning (by rwa [rightActive])
  exact ⟨leftActive.trans rightActive, leftStep.trans rightStep⟩

theorem of_idle {next : RunRecord} (attempts : next.attempts.map ActionAttempt.identity =
      run.attempts.map ActionAttempt.identity)
    (running : run.status = .running)
    (active : next.activeAttempt = none ∨ next.status.terminal = true) : SameAttempts run next := by
  refine ⟨by rw [attempts], fun ended => ?_, ?_⟩
  · rw [running] at ended
    cases ended
  · intro _ stillRunning isActive
    rcases active with idle | ended
    · rw [idle] at isActive
      cases isActive
    · rw [ended] at stillRunning
      cases stillRunning

end SameAttempts

variable {write : ActionAttempt → ActionAttempt}

theorem setAttempt_identity (run : RunRecord) (active : Nat)
    (keeps : ∀ attempt, (write attempt).identity = attempt.identity) :
    (run.setAttempt active write).attempts.map ActionAttempt.identity =
      run.attempts.map ActionAttempt.identity := by
  apply List.ext_getElem?
  intro index
  rw [List.getElem?_map, List.getElem?_map, RunRecord.setAttempt_attempts?]
  split
  next =>
    cases run.attempts[index]? with
    | none => rfl
    | some attempt => simp [keeps attempt]
  next => rfl

theorem FailedAttempt.identity {failure : RuntimeFailure}
    (written : FailedAttempt failure write) (attempt : ActionAttempt) :
    (write attempt).identity = attempt.identity := by
  cases written <;> rfl

variable {run cancelled : RunRecord}

theorem RunRecord.requestCancel_attempts {now : DateTime}
    (accepted : run.requestCancel now = some cancelled) : cancelled.attempts = run.attempts := by
  unfold requestCancel at accepted
  split at accepted
  next => cases accepted
  dsimp only at accepted
  split at accepted <;> cases accepted <;> rfl

theorem RunRecord.requestCancel_running {now : DateTime}
    (accepted : run.requestCancel now = some cancelled)
    (active : cancelled.status.terminal = false) :
    cancelled.steps = run.steps ∧ cancelled.nextStep = run.nextStep := by
  unfold requestCancel at accepted
  split at accepted
  next => cases accepted
  dsimp only at accepted
  split at accepted
  next =>
    cases accepted
    cases active
  cases accepted
  exact ⟨rfl, rfl⟩

/-- No step of the engine changes what an attempt was built from. -/
theorem sameAttempts_rule (ext : Externals) (conditions : Conditions) :
    LineageRule ext conditions (fun _ => True) SameAttempts where
  refl := SameAttempts.refl
  trans := SameAttempts.trans
  cancels {run next} sound cancels := by
    obtain ⟨now, cancelled, accepted, rfl⟩ := cancels
    have attempts := RunRecord.requestCancel_attempts accepted
    have active := RunRecord.requestCancel_activeAttempt accepted
    have effect := RunRecord.requestCancel_cancellation accepted
    constructor
    · refine ⟨by rw [show RunRecord.attempts { cancelled with revision := _ } = cancelled.attempts
        from rfl, attempts], fun ended => ?_, fun _ running _ => ?_⟩
      · rw [effect.active] at ended
        cases ended
      · obtain ⟨_, nextStep⟩ := RunRecord.requestCancel_running accepted running
        exact ⟨active.symm, nextStep.symm⟩
    · intro running
      obtain ⟨_, nextStep⟩ := RunRecord.requestCancel_running accepted running
      refine ⟨by rw [show RunRecord.attempts { cancelled with revision := _ } = cancelled.attempts
        from rfl, attempts], fun ended => ?_, fun _ _ _ => ⟨active, nextStep⟩⟩
      have still : cancelled.status.terminal = true := ended
      rw [show cancelled.status.terminal = false from running] at still
      cases still
  started {run} now sound := by
    have same : (startRun run now).attempts = run.attempts ∧
        (startRun run now).nextStep = run.nextStep := by
      unfold startRun
      split <;> exact ⟨rfl, rfl⟩
    refine ⟨by rw [same.1], fun ended => ?_, fun _ _ _ => ⟨?_, same.2.symm⟩⟩
    · rw [startRun_status]
      exact ended
    · rw [startRun_activeAttempt]
  committed {position site run} busy _ commit := by
    have running := busy.underway.status
    cases commit with
    | cancelled now _ idle => exact .of_idle rfl running (.inl rfl)
    | interrupted failure now _ isActive =>
      exact .of_idle (setAttempt_identity _ _ fun _ => rfl) running (.inl rfl)
    | timedOut now _ idle => exact .of_idle rfl running (.inl rfl)
    | timedOutUnapplied failure failedAt now _ isActive =>
      exact .of_idle (setAttempt_identity _ _ fun _ => rfl) running (.inl rfl)
    | conditionFailed now _ _ _ _
    | itemFailed failure now _ => exact .of_idle rfl running (.inl rfl)
    | attemptFailed now _ isActive written =>
      exact .of_idle (setAttempt_identity _ _ written.identity) running (.inl rfl)
    | failureAdvanced now stage =>
      have fits := busy.fits
      rw [stage] at fits
      unfold RunRecord.advanceFailedStep
      split <;> exact .of_idle rfl running (.inl fits.1)
    | stepSkipped now _ idle _ _ _ _
    | stepStarted startedAt now _ idle _ => exact .of_idle rfl running (.inl idle)
    | attemptStarted input startedAt now _ _ _ _ =>
      refine ⟨?_, fun ended => ?_, fun same => ?_⟩
      · rw [show RunRecord.attempts { RunRecord.startAttempt _ _ _ with revision := _ } = _
          from rfl, RunRecord.startAttempt, List.map_append]
        exact List.prefix_append _ _
      · rw [running] at ended
        cases ended
      · simp [RunRecord.startAttempt] at same
    | attemptSucceeded now _ isActive | attemptLate now _ isActive =>
      exact .of_idle (setAttempt_identity _ _ fun _ => rfl) running (.inl rfl)
    | attemptUnknown now _ isActive _ _ _ _ =>
      exact .of_idle (setAttempt_identity _ _ fun _ => rfl) running (.inr rfl)
    | stepSucceeded now stage =>
      have fits := busy.fits
      rw [stage] at fits
      exact .of_idle rfl running (.inl fits.1)
    | finished now _ done => exact .of_idle rfl running (.inl (busy.underway.idle_of_done done))

/-- What a sent invocation was built from: the active attempt and the current step
of the record that its worker held. -/
structure Built (ext : Externals) (sent : Sent) (index : Nat) (attempt : ActionAttempt)
    (planned : PlannedStep) (step : StepRecord) : Prop where
  running : sent.run.status = .running
  isActive : sent.run.activeAttempt = some index
  at_ : ActiveAt sent.run index attempt planned step
  invocation : ∃ config now claim, claim.run = sent.run ∧
    sent.invocation = (dispatchValue ext config now claim planned attempt.itemIndex
      attempt.invocationId attempt.attempt attempt.input).invocation

/-- Every request that was sent was built for an attempt at a step. -/
theorem sent_built {ext : Externals} {conditions : Conditions} {trace : Trace}
    (reached : TraceRun ext conditions .initial trace) :
    ∀ sent ∈ trace.sent, ∃ index attempt planned step,
      Built ext sent index attempt planned step := by
  induction reached with
  | refl =>
    intro sent member
    cases member
  | tail before last ih =>
    cases last with
    | @send slot position invocation result at_ dispatches _ =>
      intro sent member
      rcases List.mem_cons.mp member with rfl | older
      · obtain ⟨index, attempt, planned, now, isActive, found, foundPlanned, _, built⟩ :=
          dispatches.built
        have busy := ((Trace.Sound.run before).held slot position at_).2 dispatches.running
        obtain ⟨stored, step, record, active⟩ := busy.underway.active index isActive
        obtain rfl := Option.some.inj (active.attemptFound.symm.trans found)
        obtain rfl := Option.some.inj (active.plannedFound.symm.trans foundPlanned)
        exact ⟨index, stored, step, record, dispatches.running, isActive, active,
          position.config, now, position.claim, rfl, built⟩
      · exact ih sent older
    | admitEvent _ _ | claimed _ _ _ _ | released _ | requestCancel _ _ | crash _
    | commit _ _ _ _ => exact ih

theorem Chronicle.comparable {Later : RunRecord → RunRecord → Prop} {trace : Trace}
    {versions : List RunRecord} (chronicle : Chronicle Later trace versions)
    (refl : ∀ run, Later run run) {left right : RunRecord} (leftMember : left ∈ versions)
    (rightMember : right ∈ versions) (same : left.plan = right.plan) :
    Later left right ∨ Later right left := by
  obtain ⟨i, iBound, rfl⟩ := List.mem_iff_getElem.mp leftMember
  obtain ⟨j, jBound, rfl⟩ := List.mem_iff_getElem.mp rightMember
  have chain := List.pairwise_iff_getElem.mp chronicle.chain
  rcases Nat.lt_trichotomy i j with before | rfl | after
  · exact .inr (chain i j iBound jBound before same.symm)
  · exact .inl (refl _)
  · exact .inl (chain j i jBound iBound after same)

/-- An invocation without the worker that sends it and the time it is sent. -/
def ActionInvocation.evidence (invocation : ActionInvocation) : ActionInvocation :=
  { invocation with caller := default, admittedAt := 0 }

/-- Invocations of the same attempts carry the same evidence. -/
theorem Built.evidence_eq {ext : Externals} {left right : Sent} {index : Nat}
    {leftAttempt rightAttempt : ActionAttempt} {leftPlanned rightPlanned : PlannedStep}
    {leftStep rightStep : StepRecord}
    (leftBuilt : Built ext left index leftAttempt leftPlanned leftStep)
    (rightBuilt : Built ext right index rightAttempt rightPlanned rightStep)
    (plan : left.run.plan = right.run.plan) (later : SameAttempts left.run right.run) :
    left.invocation.evidence = right.invocation.evidence := by
  -- both attempts are the last ones, so no attempt was added in between
  have length : left.run.attempts.length = right.run.attempts.length :=
    leftBuilt.at_.last.symm.trans rightBuilt.at_.last
  have running : right.run.status.terminal = false := by
    rw [rightBuilt.running]
    rfl
  obtain ⟨_, nextStep⟩ := later.active length running (by simp [rightBuilt.isActive])
  have planned : leftPlanned = rightPlanned := by
    have found := leftBuilt.at_.plannedFound
    rw [plan, nextStep, rightBuilt.at_.plannedFound] at found
    exact (Option.some.inj found).symm
  have identity : leftAttempt.identity = rightAttempt.identity := by
    have same : left.run.attempts.map ActionAttempt.identity =
        right.run.attempts.map ActionAttempt.identity :=
      later.attempts.eq_of_length (by simpa using length)
    have found := congrArg (fun attempts => attempts[index]?) same
    simp only [List.getElem?_map, leftBuilt.at_.attemptFound, rightBuilt.at_.attemptFound,
      Option.map_some, Option.some.injEq] at found
    exact found
  obtain ⟨leftConfig, leftNow, leftClaim, leftRun, leftEq⟩ := leftBuilt.invocation
  obtain ⟨rightConfig, rightNow, rightClaim, rightRun, rightEq⟩ := rightBuilt.invocation
  have itemIndex := congrArg ActionAttempt.itemIndex identity
  have invocationId := congrArg ActionAttempt.invocationId identity
  have attempt := congrArg ActionAttempt.attempt identity
  have input := congrArg ActionAttempt.input identity
  simp only [ActionAttempt.identity] at itemIndex invocationId attempt input
  rw [leftEq, rightEq]
  simp only [ActionInvocation.evidence, dispatchValue, leftRun, rightRun, plan, planned,
    itemIndex, invocationId, attempt, input]

/-- Two dispatches for one attempt of a run carry the same evidence, each dispatch
is made for the active attempt of the current step, and in every stored record
that can still be resumed the active attempt belongs to the current step. -/
theorem replays_carry_same_evidence {ext : Externals} {sys : Fleet}
    (reached : FleetRun ext .none .initial sys) :
    (∀ left ∈ sys.sent, ∀ right ∈ sys.sent, left.run.plan = right.run.plan →
      left.run.activeAttempt = right.run.activeAttempt →
      left.invocation.evidence = right.invocation.evidence) ∧
    (∀ sent ∈ sys.sent, ∃ index attempt planned step, Built ext sent index attempt planned step) ∧
    ∀ run ∈ sys.store.runs, ∀ index attempt, run.activeAttempt = some index →
      run.attempts[index]? = some attempt →
      attempt.idempotent = true ∨ run.status.terminal = false →
      ∃ planned, run.plan.steps[run.nextStep]? = some planned ∧ attempt.stepId = planned.id := by
  obtain ⟨trace, before, tracks⟩ := Tracks.run reached
  have built := sent_built before
  rw [tracks.sent] at built
  refine ⟨?_, built, ?_⟩
  · intro left leftSent right rightSent plan active
    obtain ⟨index, leftAttempt, leftPlanned, leftStep, leftBuilt⟩ := built left leftSent
    obtain ⟨other, rightAttempt, rightPlanned, rightStep, rightBuilt⟩ := built right rightSent
    obtain rfl : index = other := by
      rw [leftBuilt.isActive, rightBuilt.isActive] at active
      exact Option.some.inj active
    obtain ⟨versions, chronicle⟩ :=
      (sameAttempts_rule ext .none).run (fun _ _ _ _ => trivial) before
    have leftMember := chronicle.sent left (by rw [tracks.sent]; exact leftSent)
    have rightMember := chronicle.sent right (by rw [tracks.sent]; exact rightSent)
    rcases chronicle.comparable SameAttempts.refl leftMember rightMember plan with later | later
    · exact leftBuilt.evidence_eq rightBuilt plan later
    · exact (rightBuilt.evidence_eq leftBuilt plan.symm later).symm
  · intro run stored index attempt isActive found resumable
    rw [← tracks.store] at stored
    cases (Trace.Sound.run before).stored run stored with
    | fresh fresh =>
      rw [fresh.activeAttempt] at isActive
      cases isActive
    | underway underway =>
      obtain ⟨other, planned, step, at_⟩ := underway.active index isActive
      obtain rfl := Option.some.inj (at_.attemptFound.symm.trans found)
      exact ⟨planned, at_.plannedFound, at_.stepId⟩
    | ended ended =>
      obtain ⟨_, other, otherFound, once, _⟩ := ended.active index isActive
      obtain rfl := Option.some.inj (otherFound.symm.trans found)
      rcases resumable with repeatable | active
      · rw [once] at repeatable
        cases repeatable
      · rw [ended.status] at active
        cases active

/-- An attempt that was lost and replayed by a second worker was sent twice with
the same evidence. -/
theorem replays_carry_same_evidence_after_crash :
    ∃ sys, FleetRun sampleExternals .none .initial sys ∧
      ∃ left right, sys.sent = [left, right] ∧
        left.invocation.evidence = right.invocation.evidence := by
  obtain ⟨sys, reached, twice, plans, attempts⟩ := exists_of_replayFleet sampleExternals .none
    .initial
    (sampleClaim [sampleStep "a" true] ++ sampleAttempt 0 ++
      [.send 0 sampleLoss, .crash 0, .claimRun 1 sampleConfig "runner" "w" 5000 1000 "u",
        .readClock 1 5001, .decide 1 .allow, .lookUp 1 true, .send 1 sampleSuccess])
    (fun sys => sys.sent.length = 2 ∧
      (sys.sent.map fun sent => sent.run.plan).Pairwise (· = ·) ∧
      (sys.sent.map fun sent => sent.run.activeAttempt).Pairwise (· = ·)) (by decide +kernel)
  obtain ⟨left, right, sent⟩ := List.length_eq_two.mp twice
  rw [sent] at plans attempts
  refine ⟨sys, reached, left, right, sent, ?_⟩
  exact (replays_carry_same_evidence reached).1 left (by simp [sent]) right (by simp [sent])
    (by simpa using plans) (by simpa using attempts)

end Mdbase.Runtime
