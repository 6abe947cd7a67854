import Mathlib.Data.Finset.Card
import Mathlib.Data.List.Basic

/-!
# The worker of the collection watcher

The watcher has one worker. It takes commands of callers and filesystem events from a queue,
notes what has to be refreshed and by when, and keeps the requests that wait for a refresh.
This module is what the worker knows and what each input does to that, apart from the state
that it shares with the callers.
-/

namespace Mdbase.Watch

/-- `Snapshot`, as far as reconciliation reads it: the paths of the records that are invalid
and of the others. -/
structure Snapshot where
  invalidRecords : Finset String
  records : Finset String
  deriving DecidableEq

/-- `WatchRecordLoad`. -/
inductive WatchRecordLoad where
  | parsed
  | invalid
  | absent
  deriving DecidableEq

/-- What the files hold when they are read: the records that can be parsed and those that
cannot. -/
structure Contents where
  parsed : Finset String
  invalid : Finset String
  apart : Disjoint parsed invalid
  deriving DecidableEq

/-- `load_record`. -/
def Contents.loadRecord (contents : Contents) (path : String) : WatchRecordLoad :=
  if path ∈ contents.parsed then .parsed
  else if path ∈ contents.invalid then .invalid
  else .absent

namespace Snapshot

/-- `Snapshot::load`, which fails when the files cannot be read. -/
def load (contents : Option Contents) : Option Snapshot :=
  contents.map fun contents => ⟨contents.invalid, contents.parsed⟩

/-- `retain_classified_invalid`. -/
def retainClassifiedInvalid (snapshot previous : Snapshot) : Snapshot :=
  { snapshot with records := snapshot.records ∪ snapshot.invalidRecords ∩ previous.records }

/-- `refresh_paths`, which reads nothing if there is no path. -/
def refreshPaths (snapshot : Snapshot) (contents : Option Contents) (paths : Finset String) :
    Option Snapshot :=
  if paths = ∅ then some snapshot
  else contents.map fun contents =>
    { invalidRecords :=
        snapshot.invalidRecords \ paths ∪
          paths.filter fun path => contents.loadRecord path = .invalid
      records :=
        (snapshot.records \ paths.filter fun path => contents.loadRecord path = .absent) ∪
          paths.filter fun path => contents.loadRecord path = .parsed }

end Snapshot

/-- When a refresh began to read the files, when it had read them, and what it found. -/
structure Load where
  began : Nat
  ended : Nat
  contents : Option Contents
  deriving DecidableEq

/-- `ReconciliationOutcome`, of one epoch, with the load that it reports and the snapshot that
this left. -/
structure ReconciliationOutcome where
  invalidRecords : Finset String
  removedInvalidRecords : Finset String
  revision : Nat
  load : Load
  snapshot : Snapshot
  deriving DecidableEq

/-- `ReconciliationFailure`. -/
inductive ReconciliationFailure where
  | revisionExhausted
  deriving DecidableEq

/-- `ReconciliationResult`. -/
abbrev ReconciliationResult := Except ReconciliationFailure ReconciliationOutcome

/-- `PendingRescan`; its channel and its ticket are those of a numbered request. -/
structure PendingRescan where
  id : Nat
  request : Nat
  deriving DecidableEq

/-- `Command`; the flag and the channel of an acknowledgement are those of a numbered one. -/
inductive Command where
  | rescan (pending : PendingRescan)
  | rescanPaths (paths : List String) (pending : PendingRescan)
  | cancelRescan (id : Nat)
  | acknowledge (outcome : ReconciliationOutcome) (acknowledgement : Nat)
  | stop
  deriving DecidableEq

/-- A filesystem event, as far as the worker and the callback look at it. -/
structure Event where
  /-- `invalidates_snapshot`. -/
  invalidatesSnapshot : Bool
  /-- `enqueues_reconciliation`. -/
  enqueuesReconciliation : Bool
  /-- `event.paths.is_empty()`. -/
  pathless : Bool
  deriving DecidableEq

/-- `WorkerInput`; a backend's error is no event. -/
inductive WorkerInput where
  | command (command : Command)
  | filesystem (event : Option Event)
  | revisionExhausted
  deriving DecidableEq

/-- The rescan that an input carries. -/
def WorkerInput.pending? : WorkerInput → Option PendingRescan
  | .command (.rescan pending) | .command (.rescanPaths _ pending) => some pending
  | .command (.cancelRescan _) | .command (.acknowledge ..) | .command .stop
  | .filesystem _ | .revisionExhausted => none

/-- `INITIAL_REFRESH_RETRY`, in milliseconds. -/
def initialRefreshRetry : Nat := 250

/-- `MAX_REFRESH_RETRY`. -/
def maxRefreshRetry : Nat := 5000

/-- `REFRESH_DIAGNOSTIC_INTERVAL`. -/
def refreshDiagnosticInterval : Nat := 5000

/-- `MAX_PENDING_PATHS`. -/
def maxPendingPaths : Nat := 4096

/-- Where the worker is in `watch_loop`. -/
inductive Phase where
  /-- Before the loop. -/
  | starting
  | receiving
  /-- An acknowledgement whose conditions held, or not, before the epoch was locked. -/
  | acknowledging (outcome : ReconciliationOutcome) (acknowledgement : Nat)
      (preliminarilyCurrent : Bool)
  /-- The input is handled. -/
  | received
  /-- The epoch is not exhausted, or all work is dropped. -/
  | checked
  | loading (refreshRevision began : Nat)
  | loaded (refreshRevision : Nat) (load : Load) (refreshed : Option Snapshot)
  /-- The epoch is not exhausted after the load. -/
  | settling (refreshRevision : Nat) (load : Load) (refreshed : Option Snapshot)
  | completing (outcome : ReconciliationOutcome)
  | stopped
  deriving DecidableEq

/-- The local variables of `watch_loop`. -/
structure Worker where
  phase : Phase
  snapshot : Snapshot
  snapshotRevision : Nat
  maintainedInvalidRecords : Finset String
  pendingRescans : List PendingRescan
  pendingPaths : Finset String
  fullRescan : Bool
  deadline : Option Nat
  retryBackoff : Nat
  lastRefreshDiagnostic : Option Nat

namespace Worker

/-- `schedule_relevant_refresh`. -/
def scheduleRelevantRefresh (worker : Worker) (refreshIsFailing : Bool) (now debounce : Nat) :
    Worker :=
  { worker with
    retryBackoff := initialRefreshRetry
    deadline :=
      if refreshIsFailing then
        match worker.deadline with
        | some existing => some (min existing (now + initialRefreshRetry))
        | none => some (now + initialRefreshRetry)
      else some (now + debounce) }

/-- `merge_pending_paths`. -/
def mergePendingPaths (worker : Worker) : List String → Worker
  | [] => worker
  | path :: paths =>
    if worker.fullRescan then worker
    else if maxPendingPaths < (insert path worker.pendingPaths).card then
      { worker with pendingPaths := ∅, fullRescan := true }
    else mergePendingPaths { worker with pendingPaths := insert path worker.pendingPaths } paths

/-- The refreshes fail since the last diagnostic. -/
def isFailing (worker : Worker) : Bool := worker.lastRefreshDiagnostic.isSome

/-- A rescan that is not cancelled is scheduled at once. -/
def acceptRescan (worker : Worker) (pending : PendingRescan) (now : Nat) : Worker :=
  let scheduled := worker.scheduleRelevantRefresh worker.isFailing now 0
  { scheduled with
    fullRescan := true
    pendingRescans := scheduled.pendingRescans ++ [pending] }

/-- A rescan of some paths. -/
def acceptRescanPaths (worker : Worker) (paths : List String) (pending : PendingRescan)
    (now : Nat) : Worker :=
  let merged := (worker.scheduleRelevantRefresh worker.isFailing now 0).mergePendingPaths paths
  { merged with pendingRescans := merged.pendingRescans ++ [pending] }

/-- A filesystem event with the answer of `invalidation_paths` for it. -/
def acceptEvent (worker : Worker) (event : Event) (invalidation : Option (List String))
    (now debounce : Nat) : Worker :=
  if !event.invalidatesSnapshot || invalidation = some [] then worker
  else
    let noted := match invalidation with
      | some paths => worker.mergePendingPaths paths
      | none => { worker with pendingPaths := ∅, fullRescan := true }
    if event.pathless && worker.isFailing then noted
    else
      noted.scheduleRelevantRefresh worker.isFailing now
        (if worker.pendingRescans.isEmpty then debounce else 0)

/-- All work is dropped. -/
def dropWork (worker : Worker) : Worker :=
  { worker with pendingRescans := [], pendingPaths := ∅, fullRescan := false, deadline := none }

/-- What a refresh makes of the files: the whole snapshot anew, or the pending paths of it. -/
def refresh (worker : Worker) (contents : Option Contents) : Option Snapshot :=
  if worker.fullRescan then
    (Snapshot.load contents).map (·.retainClassifiedInvalid worker.snapshot)
  else worker.snapshot.refreshPaths contents worker.pendingPaths

/-- A refresh begins. -/
def beginLoad (worker : Worker) (revision now : Nat) : Worker :=
  { worker with deadline := none, phase := .loading revision now }

/-- A refresh that nothing has overtaken is taken over. -/
def takeOver (worker : Worker) (refreshRevision : Nat) (load : Load) (next : Snapshot) : Worker :=
  { worker with
    snapshot := next
    pendingPaths := ∅
    fullRescan := false
    retryBackoff := initialRefreshRetry
    lastRefreshDiagnostic := none
    snapshotRevision := refreshRevision
    phase := .completing
      { invalidRecords := next.invalidRecords
        removedInvalidRecords := worker.maintainedInvalidRecords \
          (next.invalidRecords ∪ next.records)
        revision := refreshRevision
        load := load
        snapshot := next } }

/-- A refresh that an invalidation has overtaken is done again, in full. -/
def startOver (worker : Worker) (now : Nat) : Worker :=
  { worker with pendingPaths := ∅, fullRescan := true, deadline := some now, phase := .receiving }

/-- A refresh that failed is tried again. -/
def retryLater (worker : Worker) (failedAt : Nat) : Worker :=
  { worker with
    deadline := some (failedAt + worker.retryBackoff)
    retryBackoff := min (2 * worker.retryBackoff) maxRefreshRetry
    lastRefreshDiagnostic :=
      match worker.lastRefreshDiagnostic with
      | some last => if refreshDiagnosticInterval ≤ failedAt - last then some failedAt else some last
      | none => some failedAt
    phase := .receiving }

/-- Is there anything to refresh or anyone who waits for it? -/
def HasWork (worker : Worker) : Prop :=
  worker.pendingRescans ≠ [] ∨ worker.pendingPaths ≠ ∅ ∨ worker.fullRescan = true

/-- Is the worker at a place where no refresh is under way? -/
def isIdle (worker : Worker) : Bool :=
  match worker.phase with
  | .starting | .receiving | .acknowledging .. | .received | .checked | .stopped => true
  | .loading .. | .loaded .. | .settling .. | .completing _ => false

end Worker

end Mdbase.Watch
