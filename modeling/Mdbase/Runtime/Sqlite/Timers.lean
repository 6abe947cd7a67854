import Mdbase.Runtime.Memory.Timers
import Mdbase.Runtime.Sqlite.Statements

/-!
# Timers in the SQLite store

The table of timers and the claim of a due timer, statement by statement. A row is written with
the texts of the instants of its record; a claim that changes no row is dropped without a commit.
-/

namespace Mdbase.Runtime.Sqlite

open Library

/-- The text of a timer status. -/
def timerStatus : TimerStatus → String
  | .scheduled => "scheduled"
  | .firing => "firing"
  | .fired => "fired"
  | .cancelled => "cancelled"

/-- A row of `runtime_timers`. -/
structure TimerRow where
  id : String
  generation : Int
  status : String
  fireAt : String
  leaseWorker : Option String
  leaseToken : Option String
  leaseExpiresAt : Option String
  recordJson : TimerRecord
  deriving DecidableEq

/-- The table of timers. -/
abbrev TimerTable := Table TimerRow.id

/-- The row of a timer and its lease. -/
def timerRow (lease : Option Lease) (timer : TimerRecord) : TimerRow where
  id := timer.id
  generation := timer.generation
  status := timerStatus timer.status
  fireAt := timestamp timer.fireAt
  leaseWorker := lease.map Lease.worker
  leaseToken := lease.map Lease.token
  leaseExpiresAt := lease.map fun lease => timestamp lease.expiresAt
  recordJson := timer

/-- Clear the lease of a timer that has expired. -/
def TimerRow.releaseExpired (now : DateTime) (row : TimerRow) : TimerRow :=
  if row.leaseExpiresAt.any fun expiresAt => expiresAt ≤ timestamp now then
    { row with leaseWorker := none, leaseToken := none, leaseExpiresAt := none }
  else row

theorem TimerRow.releaseExpired_id (now : DateTime) (row : TimerRow) :
    (row.releaseExpired now).id = row.id := by
  unfold TimerRow.releaseExpired
  split <;> rfl

def releaseExpiredTimers (timers : TimerTable) (now : DateTime) : TimerTable :=
  timers.image (TimerRow.releaseExpired now) (TimerRow.releaseExpired_id now)

/-- The timer that a claim selects: the first due one without a lease. -/
def dueTimer (timers : TimerTable) (now : DateTime) : Option TimerRecord :=
  (((timers.entries.filter fun row =>
      row.status ∈ ["scheduled", "firing"] ∧ row.fireAt ≤ timestamp now ∧
        row.leaseToken.isNone).insertionSort fun left right =>
      toLex (left.fireAt, left.id) ≤ toLex (right.fireAt, right.id)).head?).map TimerRow.recordJson

/-- `claim_due_timer_impl`. -/
def claimDueTimer (timers : TimerTable) (worker : String) (now : DateTime) (leaseFor : Duration)
    (token : String) : Transaction (TimerTable × Option TimerClaim) :=
  let released := releaseExpiredTimers timers now
  match dueTimer released now with
  | none => pure (released, none)
  | some timer => do
      let timer := { timer with status := .firing, updatedAt := now }
      let expiresAt ← (addStdDuration now leaseFor : Option (Except RuntimeError DateTime))
      let generation ← revisionParam timer.generation
      match released.get? timer.id with
      | none => pure (timers, none)
      | some row =>
        if row.generation = generation ∧ row.leaseToken.isNone then
          pure (released.insert { row with
              status := "firing"
              leaseWorker := some worker
              leaseToken := some token
              leaseExpiresAt := some (timestamp expiresAt)
              recordJson := timer },
            some { timer := timer, worker := worker, token := token, expiresAt := expiresAt })
        else pure (timers, none)

end Mdbase.Runtime.Sqlite
