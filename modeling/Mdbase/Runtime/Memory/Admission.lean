import Mdbase.Runtime.Store

/-!
# Admission in the in-memory store

`admit` journals an event once and then considers its plans in order; each plan
sees what the plans before it did. A panic of the source, which can only come
from the minimum-interval arithmetic, is `none`: it poisons the lock of the
store, after which no call reads or changes the state again.
-/

namespace Mdbase.Runtime.Memory

open Library

/-- Does the minimum interval of a plan suppress it? The runs are visited in id
order and the first one found recent ends the search. -/
def minimumIntervalSuppresses (state : MemoryState) (plan : PlannedRun) : Option Bool :=
  match plan.minimumIntervalMs with
  | none => some false
  | some interval =>
    state.runs.entries.anyM fun run =>
      if run.plan.workflow = plan.workflow ∧ run.plan.trigger = plan.trigger then
        (DateTime.checkedAdd run.plan.createdAt
          (DateTime.milliseconds (min interval i64Max))).map
            fun limit => decide (limit > plan.createdAt)
      else some false

/-- The pending run that a debounced plan of the same workflow, trigger and
executor makes obsolete. -/
def obsolete (plan : PlannedRun) (receivedAt : DateTime) (run : RunRecord) : Bool :=
  run.status = .queued ∧ run.plan.workflow = plan.workflow ∧
    run.plan.trigger = plan.trigger ∧ run.plan.executor = plan.executor ∧
    run.plan.notBefore > receivedAt

/-- Remove the runs with the given ids and their leases. -/
def removeRuns (state : MemoryState) (ids : List String) : MemoryState :=
  ids.foldl (fun state id =>
    { state with runs := state.runs.erase id, runLeases := state.runLeases.erase id }) state

/-- The debounce of a plan: when it starts later than the event was received,
the obsolete pending runs are removed. -/
def debounce (state : MemoryState) (receivedAt : DateTime) (plan : PlannedRun) : MemoryState :=
  if plan.notBefore > receivedAt then
    removeRuns state ((state.runs.entries.filter (obsolete plan receivedAt)).map (·.plan.id))
  else state

/-- Is a run stored under the idempotency scope and key of the plan? -/
def idempotencyTaken (state : MemoryState) (plan : PlannedRun) : Bool :=
  state.runs.entries.any fun run =>
    run.plan.idempotencyScope = plan.idempotencyScope ∧
      run.plan.idempotencyKey = plan.idempotencyKey

/-- The ids of the runs that occupy a concurrency group. -/
def activeGroupRuns (state : MemoryState) (group : String) : List String :=
  (state.runs.entries.filter fun run =>
    run.plan.concurrencyGroup = group ∧ run.status.occupiesConcurrencyGroup).map (·.plan.id)

/-- Store a run whose cancellation was accepted, at its next revision; the
lease of a run that became terminal is released. -/
def recordCancellation (state : MemoryState) (cancelled : RunRecord) : MemoryState :=
  let run := { cancelled with revision := cancelled.revision + 1 }
  { state with
    runs := state.runs.insert run
    runLeases :=
      if run.status.terminal then state.runLeases.erase run.plan.id else state.runLeases }

/-- Request cancellation of one run displaced by a replacement; its id is
appended to the requested ones when the request was accepted. -/
def displace (receivedAt : DateTime) (progress : MemoryState × List String) (id : String) :
    MemoryState × List String :=
  let (state, requested) := progress
  match state.runs.get? id with
  | none => progress
  | some run =>
    match run.requestCancel receivedAt with
    | some cancelled => (recordCancellation state cancelled, requested ++ [id])
    | none =>
      if run.status.terminal then
        ({ state with runLeases := state.runLeases.erase id }, requested)
      else progress

/-- The loop variables of `admit`. -/
structure Admission where
  state : MemoryState
  admitted : List String
  skipped : List String
  cancellationRequested : List String

/-- Leave a plan out. -/
def skipPlan (loop : Admission) (plan : PlannedRun) : Admission :=
  { loop with skipped := loop.skipped ++ [plan.id] }

/-- Store a plan as a queued run. -/
def storePlan (loop : Admission) (plan : PlannedRun) : Admission :=
  { loop with
    state := { loop.state with runs := loop.state.runs.insert (RunRecord.admitted plan) }
    admitted := loop.admitted ++ [plan.id] }

/-- Displace the active runs of the group of a replacement and store it, with
the displaced runs as its blockers. -/
def replacePlan (receivedAt : DateTime) (loop : Admission) (plan : PlannedRun) : Admission :=
  let active := activeGroupRuns loop.state plan.concurrencyGroup
  let (state, requested) :=
    active.foldl (displace receivedAt) (loop.state, loop.cancellationRequested)
  storePlan { loop with state := state, cancellationRequested := requested }
    (plan.withBlockers active)

/-- Decide about a plan that its minimum interval lets through: debounce, then
idempotency, then the concurrency policy. -/
def considerPlan (receivedAt : DateTime) (loop : Admission) (plan : PlannedRun) : Admission :=
  let loop := { loop with state := debounce loop.state receivedAt plan }
  if idempotencyTaken loop.state plan then skipPlan loop plan
  else if plan.concurrencyPolicy = .skip ∧
      activeGroupRuns loop.state plan.concurrencyGroup ≠ [] then skipPlan loop plan
  else if plan.concurrencyPolicy = .replace then replacePlan receivedAt loop plan
  else storePlan loop plan

/-- One round of the loop over the plans of an event. -/
def admitPlan (cursor : Nat) (receivedAt : DateTime) (loop : Admission) (plan : PlannedRun) :
    Option Admission :=
  let plan := plan.withCursor cursor
  (minimumIntervalSuppresses loop.state plan).map fun suppressed =>
    if suppressed then skipPlan loop plan else considerPlan receivedAt loop plan

/-- The loop over the plans of an event. -/
def admitPlans (cursor : Nat) (receivedAt : DateTime) (loop : Admission)
    (plans : List PlannedRun) : Option Admission :=
  plans.foldlM (admitPlan cursor receivedAt) loop

/-- Append an event to the journal under the next cursor. -/
def journal (state : MemoryState) (event : PreparedEvent) : MemoryState :=
  let cursor := state.nextCursor + 1
  { state with
    nextCursor := cursor
    events := state.events ++ [{
      cursor := cursor
      sourceRuntime := event.sourceRuntime
      eventId := event.eventId
      envelope := event.envelope
      receivedAt := event.receivedAt }]
    eventIndex := state.eventIndex.insert (toLex (event.sourceRuntime, event.eventId), cursor) }

/-- `sort` followed by `dedup`. -/
def sortDedup (ids : List String) : List String := (ids.insertionSort (· ≤ ·)).destutter (· ≠ ·)

/-- Admit one event: the cursor of the first delivery for a duplicate, otherwise
a new journal entry and a decision for every planned run. -/
def admit_ (state : MemoryState) (event : PreparedEvent) : Option (MemoryState × AdmitOutcome) :=
  match state.eventIndex.get? (toLex (event.sourceRuntime, event.eventId)) with
  | some (_, cursor) =>
    some (state, {
      cursor := cursor
      duplicate := true
      admittedRunIds := []
      skippedRunIds := []
      cancellationRequestedRunIds := [] })
  | none =>
    let state := journal state event
    (admitPlans state.nextCursor event.receivedAt ⟨state, [], [], []⟩ event.runs).map fun loop =>
      (loop.state, {
        cursor := state.nextCursor
        duplicate := false
        admittedRunIds := loop.admitted
        skippedRunIds := loop.skipped
        cancellationRequestedRunIds := sortDedup loop.cancellationRequested })

end Mdbase.Runtime.Memory
