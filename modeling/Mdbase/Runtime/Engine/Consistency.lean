import Mdbase.Runtime.Engine.Replay

/-!
# Consistency of stored records

What holds of every record that a fleet stores: a terminal record is complete and
stays as it is, and the active attempt is the one that is dispatching. The first
needs that no plan takes the id of a terminal run; the second fails where the
outcome of an attempt that may not be repeated is unknown, because that commit
leaves the attempt active.
-/

namespace Mdbase.Runtime

open Library Relation Memory

/-- A terminal record is complete. -/
structure Complete (run : RunRecord) : Prop where
  finishedAt : run.finishedAt.isSome = true
  nextStep : run.nextStep = run.steps.length
  steps : ∀ step ∈ run.steps, step.status.final = true
  attempts : ∀ attempt ∈ run.attempts, attempt.status ≠ .dispatching
  succeeded : run.status = .succeeded → ∀ step ∈ run.steps,
    step.status = .succeeded ∨ step.status = .skipped

/-- No plan of an event has the id of a terminal run with another idempotency
scope or key. -/
def TerminalIdsKept (store : MemoryState) (event : PreparedEvent) : Prop :=
  ∀ plan ∈ event.runs, ∀ run ∈ store.runs.entries, run.status.terminal = true →
    run.plan.id = plan.id → run.plan.idempotency = plan.idempotency

instance (store : MemoryState) (event : PreparedEvent) :
    Decidable (TerminalIdsKept store event) := by
  unfold TerminalIdsKept
  infer_instance

/-- Events leave the ids of terminal runs alone. -/
abbrev keepsTerminalIds : Conditions := { Conditions.none with admits := TerminalIdsKept }

/-- A run under lease is not terminal. -/
def LeasedActive (store : MemoryState) : Prop :=
  ∀ id entry run, store.runLeases.get? id = some entry → store.runs.get? id = some run →
    run.status.terminal = false

namespace LeasedActive

variable {store next : MemoryState}

theorem erase (active : LeasedActive store) (released : String) :
    LeasedActive { store with runLeases := store.runLeases.erase released } := by
  intro id entry run leased found
  rw [Table.get?_erase] at leased
  split at leased
  next => cases leased
  next => exact active id entry run leased found

theorem releaseExpired (active : LeasedActive store) (now : DateTime) :
    LeasedActive (Memory.releaseExpired store now) := by
  intro id entry run leased found
  unfold Memory.releaseExpired at leased
  dsimp only at leased
  rw [Table.get?_filter] at leased
  exact active id entry run (Option.filter_eq_some_iff.mp leased).1 found

theorem install (active : LeasedActive store) (run : RunRecord) :
    LeasedActive (releaseTerminal (installRun store run) run) := by
  intro id entry other leased found
  rw [releaseTerminal_runs, installRun, Table.get?_insert] at found
  unfold releaseTerminal at leased
  split at leased
  next terminal =>
    rw [Table.get?_erase] at leased
    split at leased
    next => cases leased
    next elsewhere =>
      rw [if_neg elsewhere] at found
      exact active id entry other leased found
  rename_i running
  split at found
  next =>
    cases found
    simpa using running
  next => exact active id entry other leased found

theorem recordCancellation (active : LeasedActive store) (cancelled : RunRecord) :
    LeasedActive (Memory.recordCancellation store cancelled) := by
  have same : Memory.recordCancellation store cancelled =
      releaseTerminal (installRun store cancelled) cancelled := by
    unfold Memory.recordCancellation releaseTerminal
    cases terminal : cancelled.status.terminal <;> simp [terminal, installRun]
  rw [same]
  exact active.install cancelled

theorem change (active : LeasedActive store) {event : PreparedEvent} {cursor : Nat}
    (change : Change event cursor store next) : LeasedActive next := by
  cases change with
  | remove removed _ =>
    intro id entry run leased found
    rw [Table.get?_erase] at leased found
    split at leased
    next => cases leased
    next elsewhere =>
      rw [if_neg elsewhere] at found
      exact active id entry run leased found
  | cancel _ _ => exact active.recordCancellation _
  | release _ _ => exact active.erase _
  | store _ _ _ _ _ =>
    intro id entry run leased found
    rw [Table.get?_insert] at found
    split at found
    next =>
      cases found
      rfl
    next => exact active id entry run leased found

theorem admit_ (active : LeasedActive store) {event : PreparedEvent} {outcome : AdmitOutcome}
    (result : Memory.admit_ store event = some (next, outcome)) : LeasedActive next := by
  rcases admit_changes result with ⟨rfl, _⟩ | ⟨_, _, _, changes⟩
  · exact active
  · have entry : LeasedActive (journal store event) := active
    clear result
    induction changes with
    | refl => exact entry
    | tail _ last ih => exact ih.change last

theorem requestCancel (active : LeasedActive store) (id : String) (now : DateTime) :
    LeasedActive (Memory.requestCancel store id now).1 := by
  unfold Memory.requestCancel
  split
  next => exact active
  split
  next => exact active
  next => exact active.recordCancellation _

theorem step {ext : Externals} {conditions : Conditions} {trace later : Trace}
    (active : LeasedActive trace.store) (sound : trace.Sound)
    (step : TraceStep ext conditions trace later) : LeasedActive later.store := by
  cases step with
  | admitEvent _ result => exact active.admit_ result
  | @claimed slot config _ _ _ now _ _ claim _ _ result =>
    obtain ⟨run, granted⟩ := claimRun_granted result
    have running := (granted.underway (sound.stored run granted.stored)).status
    have released := active.releaseExpired now
    rw [granted.next_eq]
    intro id entry other leased found
    rw [Table.get?_insert] at leased found
    split at leased
    next here =>
      rw [if_pos here] at found
      cases found
      rw [running]
      rfl
    next elsewhere =>
      rw [if_neg elsewhere] at found
      exact released id entry other leased found
  | released now => exact active.releaseExpired now
  | requestCancel id now => exact active.requestCancel id now
  | crash slot | send _ _ _ _ => exact active
  | commit _ _ _ result =>
    obtain ⟨_, rfl, _⟩ := commitRun_stores result
    exact active.install _

theorem run {ext : Externals} {conditions : Conditions} {trace : Trace}
    (reached : TraceRun ext conditions .initial trace) : LeasedActive trace.store := by
  induction reached with
  | refl =>
    intro id entry run leased
    simp [Trace.initial, MemoryState.new] at leased
  | tail before last ih => exact ih.step (Trace.Sound.run before) last

end LeasedActive

variable {run : RunRecord} {store next : MemoryState}

/-- The elementary changes of an admission keep the terminal runs whose ids the
event leaves alone. -/
theorem Memory.Change.keeps_terminal {event : PreparedEvent} {cursor : Nat}
    (change : Change event cursor store next)
    (stored : run ∈ store.runs) (terminal : run.status.terminal = true)
    (kept : ∀ plan ∈ event.runs, run.plan.id = plan.id →
      run.plan.idempotency = plan.idempotency) : run ∈ next.runs := by
  cases change with
  | remove id queued =>
    refine Table.mem_erase.mpr ⟨stored, ?_⟩
    rintro rfl
    have waiting := queued run (Runs.get?_id stored)
    rw [waiting] at terminal
    cases terminal
  | @cancel old cancelled now oldStored accepted =>
    refine Table.mem_insert.mpr (.inr ⟨stored, ?_⟩)
    intro same
    have effect := RunRecord.requestCancel_cancellation accepted
    have here : run = old := Runs.eq_of_id stored oldStored (by
      rw [← effect.plan]
      exact same)
    rw [here, effect.active] at terminal
    cases terminal
  | release _ _ => exact stored
  | @store planned plan member same own displaced untaken =>
    refine Table.mem_insert.mpr (.inr ⟨stored, ?_⟩)
    intro here
    have id : plan.id = planned.id := by rw [same]; rfl
    have idempotency : plan.idempotency = planned.idempotency := by rw [same]; rfl
    have taken := kept planned member (here.trans id)
    exact untaken run stored (taken.trans idempotency.symm)

theorem admit_keeps_terminal {event : PreparedEvent} {outcome : AdmitOutcome}
    (holds : TerminalIdsKept store event) (result : admit_ store event = some (next, outcome))
    (stored : run ∈ store.runs) (terminal : run.status.terminal = true) : run ∈ next.runs := by
  rcases admit_changes result with ⟨rfl, _⟩ | ⟨_, _, _, changes⟩
  · exact stored
  · have entry : run ∈ (journal store event).runs := stored
    have kept : ∀ plan ∈ event.runs, run.plan.id = plan.id →
        run.plan.idempotency = plan.idempotency :=
      fun plan member same => holds plan member run stored terminal same
    clear result
    induction changes with
    | refl => exact entry
    | tail _ last ih => exact last.keeps_terminal ih terminal kept

/-- A terminal run is never changed. -/
theorem TraceStep.keeps_terminal {ext : Externals} {trace later : Trace}
    (step : TraceStep ext keepsTerminalIds trace later) (leases : LeasedActive trace.store)
    (stored : run ∈ trace.store.runs) (terminal : run.status.terminal = true) :
    run ∈ later.store.runs := by
  -- a record that is replaced was not terminal, so it is not this one
  have survives : ∀ {replaced : RunRecord}, replaced.plan.id ≠ run.plan.id →
      run ∈ trace.store.runs.insert replaced := fun different =>
    Table.mem_insert.mpr (.inr ⟨stored, fun same => different same.symm⟩)
  cases step with
  | admitEvent holds result => exact admit_keeps_terminal holds result stored terminal
  | @claimed slot config _ _ _ now _ _ claim _ _ result =>
    obtain ⟨old, granted⟩ := claimRun_granted result
    rw [granted.next_eq]
    refine survives fun same => ?_
    rw [granted.run_eq, startRun_plan] at same
    have here := Runs.eq_of_id granted.stored stored same
    rcases granted.status with queued | running
    · rw [here] at queued
      rw [queued] at terminal
      cases terminal
    · rw [here] at running
      rw [running] at terminal
      cases terminal
  | released now => exact stored
  | requestCancel id now =>
    change run ∈ (Memory.requestCancel trace.store id now).1.runs
    unfold Memory.requestCancel
    split
    next => exact stored
    rename_i old found
    split
    next => exact stored
    rename_i cancelled accepted
    have effect := RunRecord.requestCancel_cancellation accepted
    refine survives fun same => ?_
    have samePlan : old.plan.id = run.plan.id := by
      rw [← effect.plan]
      exact same
    have here := Runs.eq_of_id (Table.mem_of_get? found) stored samePlan
    have active := effect.active
    rw [here, terminal] at active
    cases active
  | crash slot | send _ _ _ _ => exact stored
  | commit _ _ _ result =>
    obtain ⟨_, rfl, entry, old, leased, _, _, found, _⟩ := commitRun_stores result
    rw [releaseTerminal_runs]
    refine survives fun same => ?_
    have here := Runs.eq_of_id (Table.mem_of_get? found) stored ((Runs.id_of_get? found).trans same)
    have active := leases _ entry old leased found
    rw [here, terminal] at active
    cases active

/-- Every terminal record that a fleet stores is complete, and no later step
changes it. -/
theorem terminal_records_are_complete_and_final {ext : Externals} {sys : Fleet}
    (reached : FleetRun ext keepsTerminalIds .initial sys) :
    (∀ run ∈ sys.store.runs, run.status.terminal = true → Complete run) ∧
    ∀ later, FleetRun ext keepsTerminalIds sys later →
      ∀ run ∈ sys.store.runs, run.status.terminal = true → run ∈ later.store.runs := by
  obtain ⟨trace, before, tracks⟩ := Tracks.run reached
  constructor
  · intro run stored terminal
    rw [← tracks.store] at stored
    have ended := ((Trace.Sound.run before).stored run stored).of_terminal terminal
    exact ⟨ended.finishedAt, ended.nextStep, ended.steps, ended.attempts, ended.succeeded⟩
  · intro later onward run stored terminal
    rw [← tracks.store] at stored
    obtain ⟨after, steps, tracks⟩ := Tracks.onward before tracks onward
    rw [← tracks.store]
    clear onward tracks
    induction steps with
    | refl => exact stored
    | tail middle last ih =>
      exact last.keeps_terminal (LeasedActive.run (before.trans middle)) ih terminal

/-- The record of a run that succeeded is complete. -/
theorem terminal_records_are_complete_and_final_after_success :
    ∃ sys, FleetRun sampleExternals keepsTerminalIds .initial sys ∧
      ∃ run ∈ sys.store.runs, run.status = .succeeded ∧ Complete run := by
  obtain ⟨sys, reached, run, stored, succeeded⟩ := exists_of_replayFleet sampleExternals
    keepsTerminalIds .initial
    (sampleClaim [sampleStep "a" false] ++ sampleAttempt 0 ++
      [.send 0 sampleSuccess, .readClock 0 2, .commit 0, .readClock 0 3, .commit 0,
        .readClock 0 4, .commit 0])
    (fun sys => ∃ run ∈ sys.store.runs.entries, run.status = .succeeded) (by decide +kernel)
  refine ⟨sys, reached, run, stored, succeeded,
    (terminal_records_are_complete_and_final reached).1 run stored ?_⟩
  rw [succeeded]
  rfl

/-- A plan under the id of a cancelled run replaces its terminal record. -/
theorem terminal_record_is_replaced :
    ∃ sys later, FleetRun sampleExternals .none .initial sys ∧
      FleetRun sampleExternals .none sys later ∧
      ∃ run ∈ sys.store.runs, run.status.terminal = true ∧ run ∉ later.store.runs := by
  obtain ⟨sys, later, reached, onward, run, stored, terminal, gone⟩ :=
    exists_of_replayFleet_parts sampleExternals .none .initial
      [.admitEvent (sampleEvent "a" 0 [samplePlan "r" "b:c" "g" .allow 0]), .requestCancel "r" 1]
      [.admitEvent (sampleEvent "a:b" 2 [samplePlan "r" "c" "g" .allow 2])]
      (fun sys later => ∃ run ∈ sys.store.runs.entries, run.status.terminal = true ∧
        run ∉ later.store.runs.entries) (by decide +kernel)
  exact ⟨sys, later, reached, onward, run, stored, terminal, gone⟩

/-- The active attempt is the one that is dispatching. -/
def Coherent (run : RunRecord) : Prop :=
  ∀ index, run.activeAttempt = some index ↔
    ∃ attempt, run.attempts[index]? = some attempt ∧ attempt.status = .dispatching

/-- May the active attempt of a run be repeated? -/
def activeRepeatable (run : RunRecord) : Bool :=
  (run.activeAttempt.bind fun index => run.attempts[index]?).all fun attempt => attempt.idempotent

/-- No attempt that may not be repeated gets an unknown outcome. -/
def OutcomeKnown (run : RunRecord) : Except DispatchFailure (Value × Value) → Prop
  | .ok _ => True
  | .error failure => failure.outcome = .unknown → activeRepeatable run = true

instance (run : RunRecord) : (result : Except DispatchFailure (Value × Value)) →
    Decidable (OutcomeKnown run result)
  | .ok _ => .isTrue trivial
  | .error failure =>
    inferInstanceAs (Decidable (failure.outcome = .unknown → activeRepeatable run = true))

/-- Providers answer attempts that may not be repeated with a known outcome. -/
abbrev knowsOutcomes : Conditions := { Conditions.none with answers := OutcomeKnown }

/-- A terminal run without active attempt. -/
def Cleared (run : RunRecord) : Prop := run.status.terminal = true → run.activeAttempt = none

theorem RunRecord.requestCancel_activeAttempt {run cancelled : RunRecord} {now : DateTime}
    (accepted : run.requestCancel now = some cancelled) :
    cancelled.activeAttempt = run.activeAttempt := by
  unfold requestCancel at accepted
  split at accepted
  next => cases accepted
  dsimp only at accepted
  split at accepted <;> cases accepted <;> rfl

theorem startRun_status (now : DateTime) :
    (startRun run now).status.terminal = run.status.terminal := by
  unfold startRun
  split
  next queued =>
    rw [queued]
    rfl
  next => rfl

theorem startRun_activeAttempt (run : RunRecord) (now : DateTime) :
    (startRun run now).activeAttempt = run.activeAttempt := by
  unfold startRun
  split <;> rfl

/-- Where outcomes are known, every commit that ends a run clears its active
attempt. -/
theorem cleared_rule (ext : Externals) : RecordRule ext knowsOutcomes Cleared where
  admitted plan := by simp [Cleared, RunStatus.terminal]
  cancelled {run cancelled now} sound cleared accepted := by
    intro terminal
    have effect := RunRecord.requestCancel_cancellation accepted
    rw [show ({ cancelled with revision := cancelled.revision + 1 } : RunRecord).activeAttempt =
      cancelled.activeAttempt from rfl, RunRecord.requestCancel_activeAttempt accepted]
    cases sound with
    | fresh fresh => exact fresh.activeAttempt
    | underway underway =>
      have still : cancelled.status = .running := by
        rw [effect.status, if_pos underway.status]
      have ended : cancelled.status.terminal = true := terminal
      rw [still] at ended
      cases ended
    | ended ended =>
      have active := effect.active
      rw [ended.status] at active
      cases active
  started now _ cleared := by
    intro terminal
    rw [startRun_status] at terminal
    rw [startRun_activeAttempt]
    exact cleared terminal
  committed {position site run} busy _ commit := by
    intro terminal
    have still : ∀ {other : RunRecord}, other.status = .running →
        other.status.terminal = true → other.activeAttempt = none := by
      intro other running ended
      rw [running] at ended
      cases ended
    have running := busy.underway.status
    cases commit with
    | cancelled now _ idle | interrupted failure now _ isActive | timedOut now _ idle
    | timedOutUnapplied failure failedAt now _ isActive | conditionFailed now _ _ _ _
    | itemFailed failure now _ | attemptFailed now _ _ _ => rfl
    | failureAdvanced now stage =>
      have fits := busy.fits
      rw [stage] at fits
      unfold RunRecord.advanceFailedStep
      split <;> exact fits.1
    | stepSkipped now _ idle _ _ _ _ | stepStarted startedAt now _ idle _ => exact idle
    | attemptStarted input startedAt now _ _ _ _ => exact still running terminal
    | attemptSucceeded now _ _ | attemptLate now _ _ => rfl
    | @attemptUnknown active resumed failure attempt now stage isActive found once unknown
        answered =>
        have repeatable := answered unknown
        simp [activeRepeatable, isActive, found, once] at repeatable
    | stepSucceeded now stage =>
      have fits := busy.fits
      rw [stage] at fits
      exact fits.1
    | finished now _ done => exact busy.underway.idle_of_done done

theorem coherent_of_sound (sound : Sound run) (cleared : Cleared run) : Coherent run := by
  intro index
  cases sound with
  | fresh fresh => simp [fresh.activeAttempt, fresh.attempts]
  | underway underway =>
    constructor
    · intro isActive
      obtain ⟨attempt, _, _, at_⟩ := underway.active index isActive
      exact ⟨attempt, at_.attemptFound, at_.dispatching⟩
    · rintro ⟨attempt, found, dispatching⟩
      cases isActive : run.activeAttempt with
      | none =>
        exact absurd dispatching (underway.idle isActive attempt (List.mem_of_getElem? found))
      | some active =>
        obtain ⟨_, _, _, at_⟩ := underway.active active isActive
        rw [at_.others index attempt found dispatching]
  | ended ended =>
    rw [cleared ended.status]
    constructor
    · intro impossible
      cases impossible
    · rintro ⟨attempt, found, dispatching⟩
      exact absurd dispatching (ended.attempts attempt (List.mem_of_getElem? found))

/-- In every stored record the active attempt is the one that is dispatching, and
there is at most one. -/
theorem active_attempts_are_coherent {ext : Externals} {sys : Fleet}
    (reached : FleetRun ext knowsOutcomes .initial sys) :
    ∀ run ∈ sys.store.runs, Coherent run ∧
      ∀ (left right : Nat) (leftAttempt rightAttempt : ActionAttempt),
        run.attempts[left]? = some leftAttempt → run.attempts[right]? = some rightAttempt →
        leftAttempt.status = .dispatching → rightAttempt.status = .dispatching →
        left = right := by
  obtain ⟨trace, before, tracks⟩ := Tracks.run reached
  intro run stored
  rw [← tracks.store] at stored
  have coherent : Coherent run := coherent_of_sound ((Trace.Sound.run before).stored run stored)
    (((cleared_rule ext).run before).1 run stored)
  refine ⟨coherent, ?_⟩
  intro left right leftAttempt rightAttempt leftFound rightFound leftDispatching rightDispatching
  have leftActive := (coherent left).mpr ⟨leftAttempt, leftFound, leftDispatching⟩
  have rightActive := (coherent right).mpr ⟨rightAttempt, rightFound, rightDispatching⟩
  exact Option.some.inj (leftActive.symm.trans rightActive)

/-- A refused attempt is no longer the active one. -/
theorem active_attempts_are_coherent_after_refusal :
    ∃ sys, FleetRun sampleExternals knowsOutcomes .initial sys ∧
      ∃ run ∈ sys.store.runs, run.attempts ≠ [] ∧ Coherent run := by
  obtain ⟨sys, reached, run, stored, attempted⟩ := exists_of_replayFleet sampleExternals
    knowsOutcomes .initial
    (sampleClaim [sampleStep "a" false] ++ sampleAttempt 0 ++
      [.send 0 sampleRefusal, .readClock 0 2, .readClock 0 2, .commit 0])
    (fun sys => ∃ run ∈ sys.store.runs.entries, run.attempts ≠ []) (by decide +kernel)
  exact ⟨sys, reached, run, stored, attempted, (active_attempts_are_coherent reached run stored).1⟩

/-- An attempt that may not be repeated and whose outcome is unknown stays active
in the terminal record, although it is not dispatching. -/
theorem active_attempt_lingers :
    ∃ sys, FleetRun sampleExternals .none .initial sys ∧
      ∃ run ∈ sys.store.runs, ¬ Coherent run := by
  obtain ⟨sys, reached, run, stored, lingers, unsettled⟩ := exists_of_replayFleet sampleExternals
    .none .initial
    (sampleClaim [sampleStep "a" false] ++ sampleAttempt 0 ++
      [.send 0 sampleLoss, .readClock 0 2, .commit 0])
    (fun sys => ∃ run ∈ sys.store.runs.entries, run.activeAttempt = some 0 ∧
      ∀ attempt ∈ run.attempts[0]?, attempt.status ≠ .dispatching) (by decide +kernel)
  refine ⟨sys, reached, run, stored, fun coherent => ?_⟩
  obtain ⟨attempt, found, dispatching⟩ := (coherent 0).mp lingers
  exact unsettled attempt found dispatching

end Mdbase.Runtime
