import Mdbase.Library.Table
import Mdbase.Runtime.Model

/-!
# The store contract

The values exchanged with a runtime store and the state of the in-memory store.
Ordered maps of the source are tables: every map of the store is keyed by a
field of its value or by an explicit pair.
-/

namespace Mdbase.Runtime

open Library

/-- An event with the runs planned for it. -/
structure PreparedEvent where
  sourceRuntime : String
  eventId : String
  envelope : Value
  receivedAt : DateTime
  runs : List PlannedRun
  deriving DecidableEq, Inhabited

structure AdmitOutcome where
  cursor : Nat
  duplicate : Bool
  admittedRunIds : List String
  skippedRunIds : List String
  cancellationRequestedRunIds : List String
  deriving DecidableEq, Inhabited

/-- A run handed to a worker under a lease. -/
structure Claim where
  run : RunRecord
  worker : String
  token : String
  expiresAt : DateTime
  deriving DecidableEq, Inhabited

structure TimerClaim where
  timer : TimerRecord
  worker : String
  token : String
  expiresAt : DateTime
  deriving DecidableEq, Inhabited

structure TimerReconcileOutcome where
  timers : List TimerRecord
  cancelledIds : List String
  deriving DecidableEq, Inhabited

structure EventPage where
  events : List EventJournalEntry
  retainedAfter : Nat
  head : Nat
  hasMore : Bool
  resetRequired : Bool
  deriving DecidableEq, Inhabited

structure Lease where
  worker : String
  token : String
  expiresAt : DateTime
  deriving DecidableEq, Inhabited

/-- Leases by the id of the run or timer they are for. -/
abbrev Leases := Table (Prod.fst : String × Lease → String)

/-- Runs by their id. -/
abbrev Runs := Table fun run : RunRecord => run.plan.id

variable {runs : Runs}

/-- A run is stored under the id of its plan. -/
theorem Runs.id_of_get? {id : String} {run : RunRecord}
    (found : runs.get? id = some run) : run.plan.id = id := by
  have key := Table.key_of_get? found
  exact key

/-- Runs of one store with the same id are the same run. -/
theorem Runs.eq_of_id {left right : RunRecord} (leftMember : left ∈ runs)
    (rightMember : right ∈ runs) (same : left.plan.id = right.plan.id) : left = right :=
  Table.key_injective leftMember rightMember same

theorem Runs.get?_id {run : RunRecord} (member : run ∈ runs) : runs.get? run.plan.id = some run :=
  Table.get?_key member

/-- Timers by their id. -/
abbrev Timers := Table TimerRecord.id

/-- Cursors by source runtime and event id. -/
abbrev EventIndex := Table (Prod.fst : (String ×ₗ String) × Nat → String ×ₗ String)

/-- The contents of `InMemoryRuntimeStore`. -/
structure MemoryState where
  nextCursor : Nat
  retainedAfter : Nat
  events : List EventJournalEntry
  eventIndex : EventIndex
  runs : Runs
  runLeases : Leases
  timers : Timers
  timerLeases : Leases

/-- The store of `InMemoryRuntimeStore::new`. -/
def MemoryState.new : MemoryState where
  nextCursor := 0
  retainedAfter := 0
  events := []
  eventIndex := .empty
  runs := .empty
  runLeases := .empty
  timers := .empty
  timerLeases := .empty

/-- `add_std_duration`: the end of a lease. A lease longer than a `TimeDelta`
is an error, an instant outside the range of `DateTime` a panic. -/
def addStdDuration (now : DateTime) (duration : Duration) :
    Option (Except RuntimeError DateTime) :=
  if i64Max * 1000000 < duration then
    some (.error (.clock "lease duration is too large"))
  else (DateTime.checkedAdd now duration).map .ok

end Mdbase.Runtime
