import Mdbase.Runtime.Memory.Runs
import Mdbase.Runtime.Sqlite.Timestamp

/-!
# Admission and claiming in the SQLite store

The tables that `admit_tx` and `claim_run` read and write, and both functions
statement by statement. A column that holds a serialized value is modelled by the
value. The outer `none` of a transaction is a panic of the source; an error
leaves the transaction without a commit, so that no table changes.
-/

namespace Mdbase.Runtime.Sqlite

open Library

/-- `run_status`. -/
def runStatus : RunStatus → String
  | .queued => "queued"
  | .running => "running"
  | .waiting => "waiting"
  | .succeeded => "succeeded"
  | .failed => "failed"
  | .cancelled => "cancelled"
  | .indeterminate => "indeterminate"

/-- `concurrency_policy`. -/
def concurrencyPolicy : ConcurrencyPolicy → String
  | .skip => "skip"
  | .queue => "queue"
  | .replace => "replace"
  | .allow => "allow"

/-- A row of `runtime_runs`. -/
structure RunRow where
  id : String
  executor : String
  workflow : String
  triggerId : String
  status : String
  createdAt : String
  notBefore : String
  idempotencyScope : String
  idempotencyKey : String
  concurrencyGroup : String
  concurrencyPolicy : String
  leaseWorker : Option String
  leaseToken : Option String
  leaseExpiresAt : Option String
  revision : Int
  recordJson : RunRecord
  deriving DecidableEq

/-- A row of `runtime_events`. -/
structure EventRow where
  cursor : Int
  sourceRuntime : String
  eventId : String
  envelopeJson : Value
  receivedAt : String
  deriving DecidableEq

/-- A row of `runtime_event_dedup`. -/
structure DedupRow where
  sourceRuntime : String
  eventId : String
  cursor : Int
  deriving DecidableEq

/-- The primary key of `runtime_event_dedup`. -/
def DedupRow.key (row : DedupRow) : String ×ₗ String := toLex (row.sourceRuntime, row.eventId)

/-- The tables of events and runs. The rows of `runtime_events` are in the order
of their cursors; `sequence` is the largest cursor ever given out, which
`AUTOINCREMENT` keeps. -/
structure Tables where
  sequence : Int
  events : List EventRow
  eventDedup : Table DedupRow.key
  runs : Table RunRow.id

/-- What runs inside one transaction: it panics, fails or returns. -/
abbrev Transaction := ExceptT RuntimeError Option

theorem Transaction.bind_eq_ok {α β : Type} {first : Transaction α} {rest : α → Transaction β}
    {result : β} :
    (first >>= rest) = some (.ok result) ↔
      ∃ value, first = some (.ok value) ∧ rest value = some (.ok result) := by
  constructor
  · intro returned
    cases first with
    | none => cases returned
    | some reply =>
      cases reply with
      | error error => cases returned
      | ok value => exact ⟨value, rfl, returned⟩
  · rintro ⟨value, rfl, returned⟩
    exact returned

/-- `minimum_interval_suppresses_tx`. -/
def minimumIntervalSuppressesTx (tables : Tables) (plan : PlannedRun) : Transaction Bool :=
  match plan.minimumIntervalMs with
  | none => pure false
  | some interval =>
    match DateTime.checkedAdd plan.createdAt (-DateTime.milliseconds (min interval i64Max)) with
    | none => none
    | some earliest =>
      pure (tables.runs.entries.any fun row =>
        row.workflow = plan.workflow ∧ row.triggerId = plan.trigger ∧
          timestamp earliest < row.createdAt)

/-- Delete the pending runs that a debounced plan makes obsolete. -/
def deleteObsolete (tables : Tables) (receivedAt : DateTime) (plan : PlannedRun) : Tables :=
  if plan.notBefore > receivedAt then
    { tables with runs := tables.runs.filter fun row =>
      ¬ (row.workflow = plan.workflow ∧ row.triggerId = plan.trigger ∧
        row.executor = plan.executor ∧ row.status = "queued" ∧
        timestamp receivedAt < row.notBefore) }
  else tables

/-- Is a row stored under the idempotency scope and key of the plan? -/
def duplicateRun (tables : Tables) (plan : PlannedRun) : Bool :=
  tables.runs.entries.any fun row =>
    row.idempotencyScope = plan.idempotencyScope ∧ row.idempotencyKey = plan.idempotencyKey

/-- `active_group_runs_tx`. -/
def activeGroupRunsTx (tables : Tables) (group : String) : List String :=
  (tables.runs.entries.filter fun row =>
    row.concurrencyGroup = group ∧ row.status ∈ ["queued", "running", "waiting"]).map RunRow.id

/-- A revision as a statement parameter: an `i64`. -/
def revisionParam (revision : Nat) : Transaction Int :=
  if revision ≤ i64Max then pure revision
  else throw (.store "out of range integral type conversion attempted")

/-- The columns that change when a run is stored again; a terminal run has no
lease. -/
def RunRow.update (row : RunRow) (run : RunRecord) (revision : Int) : RunRow :=
  { row with
    status := runStatus run.status
    revision := revision
    recordJson := run
    leaseWorker := if run.status.terminal then none else row.leaseWorker
    leaseToken := if run.status.terminal then none else row.leaseToken
    leaseExpiresAt := if run.status.terminal then none else row.leaseExpiresAt }

/-- Request cancellation of one run displaced by a replacement. -/
def displaceTx (receivedAt : DateTime) (progress : Tables × List String) (id : String) :
    Transaction (Tables × List String) :=
  let (tables, requested) := progress
  match tables.runs.get? id with
  | none => throw (.store "Query returned no rows")
  | some row =>
    match row.recordJson.requestCancel receivedAt with
    | none => pure progress
    | some cancelled => do
        let run := { cancelled with revision := cancelled.revision + 1 }
        let revision ← revisionParam run.revision
        pure ({ tables with
          runs := tables.runs.modify run.plan.id fun row => row.update run revision },
          requested ++ [id])

/-- The row that is inserted for an admitted run. -/
def insertedRow (run : RunRecord) : RunRow where
  id := run.plan.id
  executor := run.plan.executor
  workflow := run.plan.workflow
  triggerId := run.plan.trigger
  status := "queued"
  createdAt := timestamp run.createdAt
  notBefore := timestamp run.plan.notBefore
  idempotencyScope := run.plan.idempotencyScope
  idempotencyKey := run.plan.idempotencyKey
  concurrencyGroup := run.plan.concurrencyGroup
  concurrencyPolicy := concurrencyPolicy run.plan.concurrencyPolicy
  leaseWorker := none
  leaseToken := none
  leaseExpiresAt := none
  revision := 0
  recordJson := run

/-- `INSERT INTO runtime_runs`, with the two uniqueness constraints of the
table. -/
def insertRun (tables : Tables) (run : RunRecord) : Transaction Tables :=
  if (tables.runs.get? run.plan.id).isSome then
    throw (.store "UNIQUE constraint failed: runtime_runs.id")
  else if duplicateRun tables run.plan then
    throw (.store ("UNIQUE constraint failed: " ++
      "runtime_runs.idempotency_scope, runtime_runs.idempotency_key"))
  else pure { tables with runs := tables.runs.insert (insertedRow run) }

/-- The loop variables of `admit_tx`. -/
structure Admission where
  tables : Tables
  admitted : List String
  skipped : List String
  cancellationRequested : List String

def skipPlan (loop : Admission) (plan : PlannedRun) : Admission :=
  { loop with skipped := loop.skipped ++ [plan.id] }

/-- Store a plan as a queued run. -/
def storePlanTx (loop : Admission) (plan : PlannedRun) : Transaction Admission := do
  let tables ← insertRun loop.tables (RunRecord.admitted plan)
  pure { loop with tables := tables, admitted := loop.admitted ++ [plan.id] }

/-- Displace the active runs of the group of a replacement and store it. -/
def replacePlanTx (receivedAt : DateTime) (loop : Admission) (plan : PlannedRun) :
    Transaction Admission := do
  let active := activeGroupRunsTx loop.tables plan.concurrencyGroup
  let progress ← active.foldlM (displaceTx receivedAt) (loop.tables, loop.cancellationRequested)
  storePlanTx { loop with tables := progress.1, cancellationRequested := progress.2 }
    (plan.withBlockers active)

/-- Decide about a plan that its minimum interval lets through. -/
def considerPlanTx (receivedAt : DateTime) (loop : Admission) (plan : PlannedRun) :
    Transaction Admission :=
  let loop := { loop with tables := deleteObsolete loop.tables receivedAt plan }
  if duplicateRun loop.tables plan then pure (skipPlan loop plan)
  else if plan.concurrencyPolicy = .skip ∧
      activeGroupRunsTx loop.tables plan.concurrencyGroup ≠ [] then pure (skipPlan loop plan)
  else if plan.concurrencyPolicy = .replace then replacePlanTx receivedAt loop plan
  else storePlanTx loop plan

/-- One round of the loop over the plans of an event. -/
def admitPlanTx (cursor : Nat) (receivedAt : DateTime) (loop : Admission) (plan : PlannedRun) :
    Transaction Admission := do
  let plan := plan.withCursor cursor
  let suppressed ← minimumIntervalSuppressesTx loop.tables plan
  if suppressed then pure (skipPlan loop plan) else considerPlanTx receivedAt loop plan

/-- Insert an event and its index entry; the result has the cursor of the new
row. -/
def insertEvent (tables : Tables) (event : PreparedEvent) : Transaction (Tables × Int) :=
  if tables.events.any fun row =>
      row.sourceRuntime = event.sourceRuntime ∧ row.eventId = event.eventId then
    throw (.store ("UNIQUE constraint failed: " ++
      "runtime_events.source_runtime, runtime_events.event_id"))
  else if tables.sequence = i64Max then throw (.store "database or disk is full")
  else
    let cursor := tables.sequence + 1
    pure ({ tables with
      sequence := cursor
      events := tables.events ++ [{
        cursor := cursor
        sourceRuntime := event.sourceRuntime
        eventId := event.eventId
        envelopeJson := event.envelope
        receivedAt := timestamp event.receivedAt }]
      eventDedup := tables.eventDedup.insert
        { sourceRuntime := event.sourceRuntime, eventId := event.eventId, cursor := cursor } },
      cursor)

/-- `u64::try_from` of a cursor column. -/
def cursorColumn (cursor : Int) : Transaction Nat :=
  if cursor < 0 then throw (.store "negative event cursor") else pure cursor.toNat

/-- `admit_tx`. -/
def admitTx (tables : Tables) (event : PreparedEvent) : Transaction (Tables × AdmitOutcome) :=
  match tables.eventDedup.get? (toLex (event.sourceRuntime, event.eventId)) with
  | some row => do
      let cursor ← cursorColumn row.cursor
      pure (tables, {
        cursor := cursor
        duplicate := true
        admittedRunIds := []
        skippedRunIds := []
        cancellationRequestedRunIds := [] })
  | none => do
      let (tables, rowid) ← insertEvent tables event
      let cursor ← cursorColumn rowid
      let loop ← event.runs.foldlM (admitPlanTx cursor event.receivedAt) ⟨tables, [], [], []⟩
      pure (loop.tables, {
        cursor := cursor
        duplicate := false
        admittedRunIds := loop.admitted
        skippedRunIds := loop.skipped
        cancellationRequestedRunIds := Memory.sortDedup loop.cancellationRequested })

/-- Clear the leases that have expired. -/
def RunRow.releaseExpired (now : DateTime) (row : RunRow) : RunRow :=
  if row.leaseExpiresAt.any fun expiresAt => expiresAt ≤ timestamp now then
    { row with leaseWorker := none, leaseToken := none, leaseExpiresAt := none }
  else row

theorem RunRow.releaseExpired_id (now : DateTime) (row : RunRow) :
    (row.releaseExpired now).id = row.id := by
  unfold releaseExpired
  split <;> rfl

def releaseExpired (tables : Tables) (now : DateTime) : Tables :=
  { tables with runs :=
    tables.runs.image (RunRow.releaseExpired now) (RunRow.releaseExpired_id now) }

/-- The rows that `claim_run` looks at: the due ones without a lease, the oldest
hundred of them. -/
def candidateRows (tables : Tables) (executor : String) (now : DateTime) : List RunRow :=
  ((tables.runs.entries.filter fun row =>
      row.executor = executor ∧ row.status ∈ ["queued", "running"] ∧
        row.notBefore ≤ timestamp now ∧ row.leaseToken.isNone).insertionSort
    fun left right => toLex (left.createdAt, left.id) ≤ toLex (right.createdAt, right.id)).take 100

/-- `group_is_runnable_tx`. -/
def groupIsRunnableTx (tables : Tables) (run : RunRecord) : Bool :=
  if run.plan.concurrencyPolicy = .allow then true
  else
    let others := (tables.runs.entries.filter fun row =>
      row.concurrencyGroup = run.plan.concurrencyGroup ∧ row.id ≠ run.plan.id).map RunRow.recordJson
    let blockedByGroup := others.any fun other =>
      (other.status = .running ∨ other.status = .waiting) ∨
        (other.status = .queued ∧ Memory.queueKey other < Memory.queueKey run)
    if blockedByGroup then false
    else !others.any fun other =>
      run.plan.replacementBlockers.contains other.plan.id ∧ other.status = .indeterminate

/-- The first candidate whose group lets it run. -/
def selectedRun (tables : Tables) (executor : String) (now : DateTime) : Option RunRecord :=
  ((candidateRows tables executor now).map RunRow.recordJson).find? (groupIsRunnableTx tables)

/-- `claim_run`. An update that finds no row is rolled back. -/
def claimRun (tables : Tables) (executor worker : String) (now : DateTime) (leaseFor : Duration)
    (token : String) : Transaction (Tables × Option Claim) :=
  let released := releaseExpired tables now
  match selectedRun released executor now with
  | none => pure (released, none)
  | some run => do
      let run := Memory.startRun run now
      let expiresAt ← (addStdDuration now leaseFor : Option (Except RuntimeError DateTime))
      let revision ← revisionParam run.revision
      match released.runs.get? run.plan.id with
      | none => pure (tables, none)
      | some row =>
        if row.leaseToken.isNone ∧ row.revision = revision then
          pure ({ released with runs := released.runs.insert { row with
              status := runStatus run.status
              leaseWorker := some worker
              leaseToken := some token
              leaseExpiresAt := some (timestamp expiresAt)
              recordJson := run } },
            some { run := run, worker := worker, token := token, expiresAt := expiresAt })
        else pure (tables, none)

end Mdbase.Runtime.Sqlite
