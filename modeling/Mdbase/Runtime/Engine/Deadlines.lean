import Mdbase.Runtime.Engine.Replay

/-!
# What a deadline ends

A claim is executed in surroundings whose clock does not run backwards and whose store accepts
every commit; providers answer as they like, or not at all. Once the deadline of a run has
passed, the execution of its claim ends the run, unless a provider leaves unknown what became
of an attempt that may be repeated: then the claim fails, and the run stays as it was.
-/

namespace Mdbase.Runtime

open Library Program Memory

/-- What surrounds the execution of a claim: the clock, the record that the store holds, and
what the providers answered. -/
structure Surroundings where
  clock : DateTime
  stored : RunRecord
  replies : List (Except DispatchFailure (Value × Value))

namespace Surroundings

/-- What became of every action that was asked for is known. -/
def AllKnown (state : Surroundings) : Prop :=
  ∀ failure, .error failure ∈ state.replies → failure.outcome = .notApplied

/-- The stored run is terminal exactly if what became of every action is known. -/
def IsDecided (state : Surroundings) : Prop := state.stored.status.terminal = true ↔ state.AllKnown

/-- The deadline of a run has passed. -/
def IsLate (state : Surroundings) (run : RunRecord) : Prop :=
  ∃ deadline, run.plan.timeoutAt = some deadline ∧ deadline ≤ state.clock

theorem IsLate.onward {state : Surroundings} {run next : RunRecord} {instant : DateTime}
    (late : state.IsLate run) (plan : next.plan = run.plan) (onward : state.clock ≤ instant)
    (stored : RunRecord) (replies : List (Except DispatchFailure (Value × Value))) :
    IsLate ⟨instant, stored, replies⟩ next := by
  obtain ⟨deadline, timeout, passed⟩ := late
  exact ⟨deadline, by rw [plan, timeout], passed.trans onward⟩

end Surroundings

/-- The surroundings of one claim, whose store accepts every commit. -/
def accepting (ext : Externals) : Protocol Question Question.Answer Surroundings where
  allows _ _ := True
  moves state
    | .now _, instant, later => state.clock ≤ instant ∧ later = { state with clock := instant }
    | .commitRun _ submitted, reply, later =>
      reply = .ok submitted.bump ∧ later = { state with stored := submitted.bump.run }
    | .dispatch limit invocation, answer, later =>
      later = { state with
        replies := (Engine.providerResult limit invocation answer).bind
          (normalizeOutcome ext invocation) :: state.replies }
    | .authorize _, _, later => later = state
    | .provider _ _, _, later => later = state
    | .cancel _ _ _, _, later => later = state

theorem RunRecord.plan_advanceFailedStep (run : RunRecord) (now : DateTime) :
    (run.advanceFailedStep now).plan = run.plan := by
  unfold RunRecord.advanceFailedStep
  split <;> rfl

namespace Engine

variable {ext : Externals} {state : Surroundings} {α β : Type}

/-- What a part of the engine leaves, and returns or fails with, in accepting surroundings. -/
def Meets (ext : Externals) (state : Surroundings) (part : Engine α)
    (ends : Surroundings → Except Halt α → Prop) : Prop :=
  Follows (accepting ext) state part.run ends

namespace Meets

variable {ends : Surroundings → Except Halt α → Prop}

/-- A value meets what holds of it. -/
theorem pure {value : α} (holds : ends state (.ok value)) :
    Meets ext state (Pure.pure value) ends := holds

theorem fail {error : RuntimeError} (holds : ends state (.error (.error error))) :
    Meets ext state (Engine.fail error) ends := holds

/-- A composition meets its conclusion if an error of its first part does and its rest does. -/
theorem seq {part : Engine β} {rest : β → Engine α}
    (first : Meets ext state part fun later result =>
      match result with
      | .ok value => Meets ext later (rest value) ends
      | .error error => ends later (.error error)) :
    Meets ext state (part >>= rest) ends :=
  Follows.bindExcept (Follows.weaken first fun _ result holds => by cases result <;> exact holds)

theorem weaken {weaker : Surroundings → Except Halt α → Prop} {part : Engine α}
    (meets : Meets ext state part ends)
    (weakens : ∀ later result, ends later result → weaker later result) :
    Meets ext state part weaker :=
  Follows.weaken meets weakens

theorem ask {question : Question} {ends : Surroundings → Except Halt question.Answer → Prop}
    (holds : ∀ answer later, (accepting ext).moves state question answer later →
      ends later (.ok answer)) : Meets ext state (Engine.ask question) ends :=
  ⟨trivial, fun answer later moves => holds answer later moves⟩

theorem now {use : ClockUse} {ends : Surroundings → Except Halt DateTime → Prop}
    (holds : ∀ instant, state.clock ≤ instant → ends { state with clock := instant } (.ok instant)) :
    Meets ext state (Engine.now use) ends := by
  refine ask ?_
  rintro instant later ⟨onward, rfl⟩
  exact holds instant onward

variable {ends : Surroundings → Except Halt Bool → Prop}

theorem hasProvider {planned : PlannedStep} (holds : ∀ found, ends state (.ok found)) :
    Meets ext state (Engine.hasProvider planned) ends := by
  refine ask ?_
  rintro found later rfl
  exact holds found

theorem demand {valid : Prop} [Decidable valid] {ends : Surroundings → Except Halt Unit → Prop}
    (holds : valid) (after : ends state (.ok ())) :
    Meets ext state (Engine.demand valid) ends := by
  unfold Engine.demand
  rw [if_pos holds]
  exact pure after

theorem authorize {dispatch : ActionDispatch}
    {ends : Surroundings → Except Halt (Except RuntimeError Unit) → Prop}
    (holds : ∀ decision, ends state (.ok decision)) :
    Meets ext state (Engine.authorize dispatch) ends := by
  refine seq (ask ?_)
  rintro decision later rfl
  cases decision with
  | allow | deny code message => exact pure (holds _)

theorem commitRun {site : CommitSite} {claim : Claim} {run : RunRecord}
    {ends : Surroundings → Except Halt Claim → Prop}
    (holds : ends { state with stored := { run with revision := run.revision + 1 } }
      (.ok (Claim.bump { claim with run := run }))) :
    Meets ext state (Engine.commitRun site claim run) ends := by
  refine seq (ask ?_)
  rintro reply later ⟨rfl, rfl⟩
  exact pure holds

theorem deadlineElapsed {run : RunRecord} (late : state.IsLate run)
    (holds : ∀ instant, state.clock ≤ instant → ends { state with clock := instant } (.ok true)) :
    Meets ext state (Engine.deadlineElapsed run) ends := by
  obtain ⟨deadline, timeout, passed⟩ := late
  unfold Engine.deadlineElapsed
  rw [timeout]
  refine seq (now fun instant onward => pure ?_)
  rw [decide_eq_true (passed.trans onward)]
  exact holds instant onward

end Meets

/-- A part that ends the run by one commit. -/
def EndsRun (state : Surroundings) (later : Surroundings) : Prop :=
  later.stored.status.terminal = true ∧ later.replies = state.replies

theorem timeoutRun_ends (claim : Claim) :
    Meets ext state (timeoutRun claim) fun later _ => EndsRun state later :=
  .seq (.now fun _ _ => .commitRun ⟨rfl, rfl⟩)

theorem finishCancelled_ends (claim : Claim) :
    Meets ext state (finishCancelled claim) fun later _ => EndsRun state later :=
  .seq (.now fun _ _ => .commitRun ⟨rfl, rfl⟩)

variable {claim : Claim} {active : Nat}

theorem indeterminateActiveAttempt_ends {code message : String}
    (attempt : active < claim.run.attempts.length)
    (step : claim.run.nextStep < claim.run.steps.length) :
    Meets ext state (indeterminateActiveAttempt claim active code message) fun later _ =>
      EndsRun state later :=
  .seq (.now fun _ _ => .seq (.demand attempt (.seq (.demand step (.commitRun ⟨rfl, rfl⟩)))))

theorem EndsRun.isDecided {later : Surroundings} (ended : EndsRun state later)
    (known : state.AllKnown) : later.IsDecided := by
  refine iff_of_true ended.1 ?_
  rw [Surroundings.AllKnown, ended.2]
  exact known

theorem Meets.decided {part : Engine β} {rest : β → Engine α} (known : state.AllKnown)
    (first : Meets ext state part fun later _ => EndsRun state later)
    (second : ∀ later value, EndsRun state later →
      Meets ext later (rest value) fun final _ => final = later) :
    Meets ext state (part >>= rest) fun final _ => final.IsDecided := by
  refine .seq (first.weaken fun later result ended => ?_)
  cases result with
  | ok value =>
    refine (second later value ended).weaken fun final _ same => ?_
    rw [same]
    exact ended.isDecided known
  | error error => exact ended.isDecided known

/-- The step of a run has failed, and nothing is dispatched. -/
structure HasFailed (held run : RunRecord) : Prop where
  plan : run.plan = held.plan
  idle : run.activeAttempt = none
  within : run.nextStep < run.steps.length
  failed : stepFailed run run.nextStep = true

/-- How the dispatch of an attempt leaves a run whose deadline has passed: it is over, its step
has failed, or what became of the action is not known. -/
def Dispatched (state : Surroundings) (held : RunRecord) (later : Surroundings) :
    Except Halt Claim → Prop
  | .ok reply => later.AllKnown ∧ state.clock ≤ later.clock ∧ later.stored = reply.run ∧
      (reply.run.status.terminal = true ∨ HasFailed held reply.run)
  | .error _ => ¬later.AllKnown ∧ later.stored = state.stored

variable {failure : RuntimeFailure}

theorem hasFailed_failStep {held run : RunRecord} {instant : DateTime}
    {revision : Nat} (plan : run.plan = held.plan) (within : run.nextStep < run.steps.length) :
    HasFailed held { run.failStep failure instant with revision := revision } := by
  have length : (run.failStep failure instant).steps.length = run.steps.length :=
    RunRecord.setStep_length _ _
  refine ⟨plan, rfl, length ▸ within, ?_⟩
  unfold stepFailed
  change Option.any _ ((run.setStep _).steps[run.nextStep]?) = true
  rw [RunRecord.setStep_steps?, if_pos rfl, List.getElem?_eq_getElem within]
  rfl

theorem failActiveAttempt_dispatched {start : Surroundings} (known : state.AllKnown)
    (onward : start.clock ≤ state.clock) (attempt : active < claim.run.attempts.length)
    (step : claim.run.nextStep < claim.run.steps.length) :
    Meets ext state (failActiveAttempt claim active failure) (Dispatched start claim.run) := by
  refine .seq (.demand attempt (.seq (.now fun first after => ?_)))
  refine .seq (.now fun second again => .seq (.demand step (.commitRun ?_)))
  exact ⟨known, onward.trans (after.trans again), rfl, .inr (hasFailed_failStep rfl step)⟩

variable {attempt : ActionAttempt}

/-- An answer that is recorded after the deadline leaves the run as `Dispatched` says. -/
theorem recordOutcome_dispatched {start : Surroundings} {pinned : Value}
    {result : Except DispatchFailure (Value × Value)} (known : start.AllKnown)
    (onward : start.clock ≤ state.clock) (stored : state.stored = start.stored)
    (replies : state.replies = result :: start.replies) (late : state.IsLate claim.run)
    (step : claim.run.nextStep < claim.run.steps.length) (idempotent : attempt.idempotent = true) :
    Meets ext state (recordOutcome ext claim active attempt pinned result)
      (Dispatched start claim.run) := by
  have settled (answered : ∀ failure, result = .error failure → failure.outcome = .notApplied) :
      state.AllKnown := by
    intro failure member
    rw [replies] at member
    rcases List.mem_cons.mp member with here | before
    · exact answered failure here.symm
    · exact known failure before
  rcases result with failure | ⟨output, receipt⟩
  · unfold recordOutcome
    dsimp only
    split
    next notApplied =>
      have known := settled fun other same => by cases same; exact notApplied
      refine .seq (.now fun first after => .seq (.deadlineElapsed
        (late.onward rfl after _ _) fun second again => ?_))
      refine .seq (.now fun third further => .commitRun ?_)
      exact ⟨known, onward.trans (after.trans (again.trans further)), rfl, .inl rfl⟩
    rename_i unknown
    rw [if_pos idempotent]
    refine .fail ⟨fun known => ?_, stored⟩
    have notApplied := known failure (replies ▸ List.mem_cons_self)
    rw [unknown] at notApplied
    cases notApplied
  · have known := settled fun other same => by cases same
    unfold recordOutcome
    dsimp only
    split
    next =>
      refine .seq (.now fun first after => .seq (.now fun second again => ?_))
      refine .seq (.demand step (.commitRun ?_))
      exact ⟨known, onward.trans (after.trans again), rfl, .inr (hasFailed_failStep rfl step)⟩
    refine .seq (.now fun first after => .seq (.deadlineElapsed
      (late.onward rfl after _ _) fun second again => ?_))
    refine .seq (.demand step (.commitRun ?_))
    exact ⟨known, onward.trans (after.trans again), rfl, .inl rfl⟩

theorem callProvider_replies {run : RunRecord} {dispatch : ActionDispatch} :
    Meets ext state (callProvider ext run dispatch) fun later result =>
      ∃ reply, result = .ok reply ∧ state.clock ≤ later.clock ∧ later.stored = state.stored ∧
        later.replies = reply :: state.replies := by
  have asks (limit : Option Duration) (start : Surroundings) (onward : state.clock ≤ start.clock)
      (stored : start.stored = state.stored) (replies : start.replies = state.replies) :
      Meets ext start
        (do
          let answer ← Engine.ask (.dispatch limit dispatch.invocation)
          pure ((providerResult limit dispatch.invocation answer).bind
            (normalizeOutcome ext dispatch.invocation)))
        fun later result =>
          ∃ reply, result = .ok reply ∧ state.clock ≤ later.clock ∧
            later.stored = state.stored ∧ later.replies = reply :: state.replies := by
    refine .seq (.ask ?_)
    rintro answer later rfl
    exact .pure ⟨_, rfl, onward, stored, congrArg _ replies⟩
  unfold callProvider
  cases run.plan.timeoutAt with
  | none => exact .seq (.pure (asks none state le_rfl rfl rfl))
  | some deadline =>
    exact .seq (.now fun instant onward =>
      .seq (.pure (asks (some _) { state with clock := instant } onward rfl rfl)))

variable {config : RuntimeConfig}

theorem dispatchActiveAttempt_dispatched (known : state.AllKnown) (late : state.IsLate claim.run)
    (found : claim.run.attempts[active]? = some attempt)
    (planned : claim.run.nextStep < claim.run.plan.steps.length)
    (step : claim.run.nextStep < claim.run.steps.length) (idempotent : attempt.idempotent = true) :
    Meets ext state (dispatchActiveAttempt ext config claim active)
      (Dispatched state claim.run) := by
  have within : active < claim.run.attempts.length := (List.getElem?_eq_some_iff.mp found).1
  have fails (failure : RuntimeFailure) {later : Surroundings} (onward : state.clock ≤ later.clock)
      (replies : later.replies = state.replies) :
      Meets ext later (failActiveAttempt claim active failure) (Dispatched state claim.run) :=
    failActiveAttempt_dispatched (fun other member => known other (replies ▸ member)) onward
      within step
  unfold dispatchActiveAttempt
  rw [found, List.getElem?_eq_getElem planned]
  dsimp only
  split
  next => exact fails _ le_rfl rfl
  rename_i pinned accepted
  refine .seq (.now fun instant onward => .seq (.authorize fun decision => ?_))
  cases decision with
  | error error => exact fails _ onward rfl
  | ok allowed =>
    refine .seq (.hasProvider fun found => ?_)
    cases found with
    | false => exact fails _ onward rfl
    | true =>
      refine .seq (callProvider_replies.weaken ?_)
      rintro later _ ⟨reply, rfl, after, stored, replies⟩
      obtain ⟨deadline, timeout, passed⟩ := late
      exact recordOutcome_dispatched known (onward.trans after) stored replies
        ⟨deadline, timeout, passed.trans (onward.trans after)⟩ step idempotent

theorem continueRun_decided (known : state.AllKnown) (late : state.IsLate claim.run) :
    Meets ext state (continueRun ext config claim) fun final _ => final.IsDecided := by
  refine .seq (.deadlineElapsed late fun instant onward => ?_)
  refine Meets.decided known (timeoutRun_ends claim) fun later value ended => ?_
  exact .pure rfl

/-- An attempt that is resumed after the deadline ends its run, unless an action is left unknown. -/
theorem resumeAttempt_decided (known : state.AllKnown) (late : state.IsLate claim.run)
    (stored : state.stored.status.terminal = false)
    (found : claim.run.attempts[active]? = some attempt)
    (planned : claim.run.nextStep < claim.run.plan.steps.length)
    (step : claim.run.nextStep < claim.run.steps.length) :
    Meets ext state (resumeAttempt ext config claim active attempt) fun final _ =>
      final.IsDecided := by
  unfold resumeAttempt
  split
  next =>
    have within := (List.getElem?_eq_some_iff.mp found).1
    refine Meets.decided known (indeterminateActiveAttempt_ends within step) fun _ _ _ => ?_
    exact .pure rfl
  rename_i repeatable
  have idempotent : attempt.idempotent = true := by simpa using repeatable
  refine .seq ((dispatchActiveAttempt_dispatched known late found planned step
    idempotent).weaken fun later result dispatched => ?_)
  cases result with
  | error error =>
    obtain ⟨unknown, same⟩ := dispatched
    exact iff_of_false (by rw [same, stored]; exact Bool.false_ne_true) unknown
  | ok reply =>
    obtain ⟨known, onward, same, left⟩ := dispatched
    dsimp only
    split
    next terminal => exact .pure (iff_of_true (same ▸ terminal) known)
    rename_i running
    have failed := left.resolve_left running
    have late := late.onward failed.plan onward later.stored later.replies
    rw [if_pos failed.failed]
    refine .seq (.demand failed.within (.seq (.seq (.now fun first after => .commitRun ?_))))
    dsimp only
    split
    next terminal => exact .pure (iff_of_true terminal known)
    exact continueRun_decided known
      (late.onward (RunRecord.plan_advanceFailedStep _ _) after _ _)

theorem cancellationOutcome_keeps {run : RunRecord} :
    Meets ext state (cancellationOutcome ext run) fun later result =>
      result = .ok () ∧ later.replies = state.replies := by
  unfold cancellationOutcome
  split
  next => exact .pure ⟨rfl, rfl⟩
  split
  next =>
    split
    next =>
      refine .seq (.hasProvider fun found => ?_)
      cases found with
      | false => exact .pure ⟨rfl, rfl⟩
      | true =>
        refine .seq (.now fun instant _ => .seq (.ask ?_))
        rintro answer later rfl
        exact .pure ⟨rfl, rfl⟩
    next => exact .pure ⟨rfl, rfl⟩
  next => exact .pure ⟨rfl, rfl⟩

/-- A claim that is executed after the deadline ends its run, unless an action is left unknown. -/
theorem executeClaim_decided (underway : Underway claim.run) (known : state.AllKnown)
    (late : state.IsLate claim.run) (stored : state.stored.status.terminal = false) :
    Meets ext state (executeClaim ext config claim) fun final _ => final.IsDecided := by
  have resumes : Meets ext state (resumeRun ext config claim) fun final _ => final.IsDecided := by
    unfold resumeRun
    cases active : claim.run.activeAttempt with
    | none =>
      refine .seq (.deadlineElapsed late fun instant onward => ?_)
      refine Meets.decided known (timeoutRun_ends claim) fun later value ended => ?_
      exact .pure rfl
    | some index =>
      obtain ⟨attempt, planned, step, at_⟩ := underway.active index active
      dsimp only
      rw [at_.attemptFound]
      dsimp only
      rw [if_pos at_.dispatching]
      exact resumeAttempt_decided known late stored at_.attemptFound
        (List.getElem?_eq_some_iff.mp at_.plannedFound).1
        (List.getElem?_eq_some_iff.mp at_.stepFound).1
  unfold executeClaim
  split
  next =>
    cases active : claim.run.activeAttempt with
    | none =>
      refine Meets.decided known (finishCancelled_ends claim) fun _ _ _ => ?_
      exact .pure rfl
    | some index =>
      obtain ⟨attempt, planned, step, at_⟩ := underway.active index active
      dsimp only
      split
      next =>
        rw [at_.attemptFound]
        dsimp only
        rw [if_pos at_.dispatching]
        refine .seq (cancellationOutcome_keeps.weaken ?_)
        rintro later _ ⟨rfl, same⟩
        refine Meets.decided (fun failure member => known failure (same ▸ member))
          (indeterminateActiveAttempt_ends (List.getElem?_eq_some_iff.mp at_.attemptFound).1
            (List.getElem?_eq_some_iff.mp at_.stepFound).1) fun _ _ _ => ?_
        exact .pure rfl
      next => exact resumes
  next => exact resumes

end Engine

theorem underway_of_claimRun {ext : Externals} {sys : Fleet} {store : MemoryState}
    {executor worker token : String} {now : DateTime} {leaseFor : Duration} {claim : Claim}
    (reached : FleetRun ext .none .initial sys)
    (claimed : claimRun sys.store executor worker now leaseFor token =
      some (store, .ok (some claim))) : Underway claim.run := by
  obtain ⟨trace, before, tracks⟩ := Tracks.run reached
  obtain ⟨run, granted⟩ := claimRun_granted claimed
  have sound := (Trace.Sound.run before).stored run (by rw [tracks.store]; exact granted.stored)
  exact granted.underway sound

/-- Surroundings whose clock stands still and whose provider gives one answer, or none within a
limit. -/
def stillRespond (ext : Externals) (answer : Option (Except DispatchFailure ActionOutcome))
    (state : Surroundings) : (question : Question) → question.Answer × Surroundings
  | .now _ => (state.clock, state)
  | .commitRun _ submitted => (.ok submitted.bump, { state with stored := submitted.bump.run })
  | .authorize _ => (.allow, state)
  | .provider _ _ => (true, state)
  | .dispatch none invocation =>
    let reply : Except DispatchFailure ActionOutcome := answer.getD (.error default)
    (reply, { state with
      replies := reply.bind (normalizeOutcome ext invocation) :: state.replies })
  | .dispatch (some limit) invocation =>
    (answer, { state with
      replies := (Engine.providerResult (some limit) invocation answer).bind
        (normalizeOutcome ext invocation) :: state.replies })
  | .cancel _ _ _ => (none, state)

theorem stillRespond_permits (ext : Externals)
    (answer : Option (Except DispatchFailure ActionOutcome)) (state : Surroundings)
    (question : Question) :
    (accepting ext).moves state question (stillRespond ext answer state question).1
      (stillRespond ext answer state question).2 := by
  cases question with
  | now use => exact ⟨le_rfl, rfl⟩
  | commitRun site claim => exact ⟨rfl, rfl⟩
  | dispatch limit invocation => cases limit <;> exact rfl
  | authorize dispatch | provider digest handler
  | cancel cancellationId requestId requestedAt => exact rfl

/-- The worker of a run with a deadline dies while the only step is dispatched. -/
def lateCalls : List FleetCall :=
  [.admitEvent (sampleEvent "e" 0
      [{ sampleRun [sampleStep "a" true] with timeoutAt := some 100 }]),
    .claimRun 0 sampleConfig "runner" "w" 0 1000 "t",
    .readClock 0 1, .readClock 0 1, .readClock 0 1] ++ (sampleAttempt 0).take 9 ++ [.crash 0]

theorem exists_lateClaim (answer : Option (Except DispatchFailure ActionOutcome))
    (test : Claim → Surroundings → Bool)
    (holds : ((replayFleet sampleExternals .none .initial lateCalls).any fun sys =>
      (claimRun sys.store "runner" "w" 5000 1000 "u").any fun reply =>
        match reply.2 with
        | .ok (some claim) => claim.run.plan.timeoutAt = some 100 &&
            test claim (play (stillRespond sampleExternals answer) ⟨5000, claim.run, []⟩
              (Engine.executeClaim sampleExternals sampleConfig claim).run).1
        | _ => false) = true) :
    ∃ sys store claim, FleetRun sampleExternals .none .initial sys ∧
      claimRun sys.store "runner" "w" 5000 1000 "u" = some (store, .ok (some claim)) ∧
      claim.run.plan.timeoutAt = some 100 ∧ ∃ final result,
        Ends (accepting sampleExternals) ⟨5000, claim.run, []⟩
          (Engine.executeClaim sampleExternals sampleConfig claim).run final result ∧
        test claim final = true := by
  obtain ⟨sys, replayed, holds⟩ := (Option.any_eq_true _ _).mp holds
  obtain ⟨⟨store, reply⟩, claimed, holds⟩ := (Option.any_eq_true _ _).mp holds
  dsimp only at holds
  split at holds
  next claim =>
    obtain ⟨timeout, tested⟩ := Bool.and_eq_true_iff.mp holds
    exact ⟨sys, store, claim, replayFleet_run _ _ replayed, claimed, of_decide_eq_true timeout,
      _, _, ends_play (stillRespond_permits _ _) _ _, tested⟩
  next => cases holds

/-- A run that is claimed when its deadline has passed is terminal after the execution of its
claim if and only if no provider left unknown what became of an action. -/
theorem deadline_ends_run_iff {ext : Externals} {config : RuntimeConfig} {sys : Fleet}
    {store : MemoryState} {executor worker token : String} {now start deadline : DateTime}
    {leaseFor : Duration} {claim : Claim} {final : Surroundings}
    {result : Except Halt WorkerOutcome} (reached : FleetRun ext .none .initial sys)
    (claimed : claimRun sys.store executor worker now leaseFor token =
      some (store, .ok (some claim)))
    (timeout : claim.run.plan.timeoutAt = some deadline) (late : deadline ≤ start)
    (execution : Ends (accepting ext) ⟨start, claim.run, []⟩
      (Engine.executeClaim ext config claim).run final result) :
    final.stored.status.terminal = true ↔ final.AllKnown := by
  have underway := underway_of_claimRun reached claimed
  have meets : Engine.Meets ext ⟨start, claim.run, []⟩ (Engine.executeClaim ext config claim)
      fun final _ => final.IsDecided := by
    refine Engine.executeClaim_decided underway ?_ ⟨deadline, timeout, late⟩ ?_
    · exact fun failure member => absurd member List.not_mem_nil
    · rw [underway.status]
      rfl
  exact meets.ends execution

/-- A run whose provider refuses the action ends. -/
theorem deadline_ends_refused_run : ∃ sys store claim,
    FleetRun sampleExternals .none .initial sys ∧
      claimRun sys.store "runner" "w" 5000 1000 "u" = some (store, .ok (some claim)) ∧
      claim.run.plan.timeoutAt = some 100 ∧ ∃ final result,
        Ends (accepting sampleExternals) ⟨5000, claim.run, []⟩
          (Engine.executeClaim sampleExternals sampleConfig claim).run final result ∧
        final.stored.status.terminal = true := by
  obtain ⟨sys, store, claim, reached, claimed, timeout, final, result, execution, test⟩ :=
    exists_lateClaim sampleRefusal
      (fun _ final => final.replies = [.error ⟨"refused", "Not applied.", .notApplied⟩])
      (by decide +kernel)
  refine ⟨sys, store, claim, reached, claimed, timeout, final, result, execution, ?_⟩
  refine (deadline_ends_run_iff reached claimed timeout (by decide) execution).mpr ?_
  intro failure member
  rw [of_decide_eq_true test, List.mem_singleton] at member
  cases member
  rfl

/-- A run whose provider does not answer an attempt that may be repeated stays as it was, and is
claimed again. -/
theorem deadline_does_not_end_run : ∃ sys store claim,
    FleetRun sampleExternals .none .initial sys ∧
      claimRun sys.store "runner" "w" 5000 1000 "u" = some (store, .ok (some claim)) ∧
      claim.run.plan.timeoutAt = some 100 ∧ ∃ final result,
        Ends (accepting sampleExternals) ⟨5000, claim.run, []⟩
          (Engine.executeClaim sampleExternals sampleConfig claim).run final result ∧
        final.stored = claim.run ∧ final.stored.status.terminal = false := by
  obtain ⟨sys, store, claim, reached, claimed, timeout, final, result, execution, test⟩ :=
    exists_lateClaim none (fun claim final =>
      final.stored = claim.run && !final.stored.status.terminal) (by decide +kernel)
  obtain ⟨same, running⟩ := Bool.and_eq_true_iff.mp test
  exact ⟨sys, store, claim, reached, claimed, timeout, final, result, execution,
    of_decide_eq_true same, by simpa using running⟩

end Mdbase.Runtime
