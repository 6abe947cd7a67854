import Mdbase.Runtime.Memory.Runs

/-!
# Timers of the in-memory store

The generation rules shared by all stores and the timer calls of the in-memory
store. A scheduling call fails before it changes anything when the generation
counter of a timer is exhausted.
-/

namespace Mdbase.Runtime

/-- Does the stored timer already carry the desired schedule? -/
def timerMatches (current desired : TimerRecord) : Bool :=
  current.status ≠ .cancelled ∧ current.fireAt = desired.fireAt ∧
    current.eventContract = desired.eventContract ∧
    current.eventSource = desired.eventSource ∧ current.sourceUri = desired.sourceUri ∧
    current.subject = desired.subject ∧ current.data = desired.data

/-- Largest timer generation representable by every runtime store. -/
def timerGenerationMax : Nat := i64Max

def nextTimerGenerationValue (current : Option TimerRecord) (id : String) :
    Except RuntimeError Nat :=
  let generation := (current.map TimerRecord.generation).getD 0
  if timerGenerationMax ≤ generation then
    .error (.diagnostic "timer_generation_exhausted"
      ("Timer " ++ id ++ " exhausted its generation counter."))
  else .ok (generation + 1)

def nextTimerGeneration (current : Option TimerRecord) (desired : TimerRecord)
    (now : DateTime) : Except RuntimeError TimerRecord :=
  match nextTimerGenerationValue current desired.id with
  | .error error => .error error
  | .ok generation =>
    .ok { desired with
      generation := generation
      createdAt := (current.map TimerRecord.createdAt).getD desired.createdAt
      status := .scheduled
      updatedAt := now
      firedAt := none }

namespace Memory

open Library

/-- Store a timer and drop the lease on it: the effect of every scheduling. -/
def scheduleTimer (state : MemoryState) (timer : TimerRecord) : MemoryState :=
  { state with
    timerLeases := state.timerLeases.erase timer.id
    timers := state.timers.insert timer }

/-- `upsert_timer`: unconditionally schedule a new generation. -/
def upsertTimer (state : MemoryState) (timer : TimerRecord) :
    MemoryState × Except RuntimeError TimerRecord :=
  match nextTimerGenerationValue (state.timers.get? timer.id) timer.id with
  | .error error => (state, .error error)
  | .ok generation =>
    let timer := { timer with generation := generation, status := .scheduled }
    (scheduleTimer state timer, .ok timer)

/-- The record a desired timer leads to, and whether it is a new generation. -/
def planTimer (state : MemoryState) (now : DateTime) (desired : TimerRecord) :
    Except RuntimeError (TimerRecord × Bool) :=
  match state.timers.get? desired.id with
  | some current =>
    if timerMatches current desired then .ok (current, false)
    else (nextTimerGeneration (some current) desired now).map (·, true)
  | none => (nextTimerGeneration none desired now).map (·, true)

/-- `reconcile_timer_exact`. -/
def reconcileTimerExact (state : MemoryState) (desired : TimerRecord) (now : DateTime) :
    MemoryState × Except RuntimeError TimerRecord :=
  match planTimer state now desired with
  | .error error => (state, .error error)
  | .ok (current, false) => (state, .ok current)
  | .ok (next, true) => (scheduleTimer state next, .ok next)

/-- Withdraw a timer: mark it cancelled and drop the lease on it. -/
def withdrawTimer (now : DateTime) (state : MemoryState) (id : String) : MemoryState :=
  { state with
    timers := state.timers.modify id fun timer =>
      { timer with status := .cancelled, updatedAt := now }
    timerLeases := state.timerLeases.erase id }

/-- `cancel_timer`. -/
def cancelTimer (state : MemoryState) (id : String) (generation : Option Nat)
    (now : DateTime) : MemoryState × Bool :=
  match state.timers.get? id with
  | none => (state, false)
  | some timer =>
    if generation.any (fun expected => expected ≠ timer.generation) ∨ !timer.status.active then
      (state, false)
    else (withdrawTimer now state id, true)

/-- Store one planned timer of a reconciliation. -/
def applyPlannedTimer (state : MemoryState) (planned : TimerRecord × Bool) : MemoryState :=
  if planned.2 then scheduleTimer state planned.1 else state

/-- The timers under a prefix that a reconciliation withdraws. -/
def omittedTimers (state : MemoryState) (idPrefix : String) (desiredIds : List String) :
    List String :=
  (state.timers.entries.filter fun timer =>
    idPrefix.toList.isPrefixOf timer.id.toList ∧ timer.id ∉ desiredIds ∧
      timer.status.active).map TimerRecord.id

/-- `reconcile_timers`: all desired records are planned before the first change. -/
def reconcileTimers (state : MemoryState) (idPrefix : String) (desired : List TimerRecord)
    (now : DateTime) : MemoryState × Except RuntimeError TimerReconcileOutcome :=
  match desired.mapM (planTimer state now) with
  | .error error => (state, .error error)
  | .ok planned =>
    let cancel := omittedTimers state idPrefix (desired.map TimerRecord.id)
    let state := cancel.foldl (withdrawTimer now) state
    let state := planned.foldl applyPlannedTimer state
    (state, .ok {
      timers := (planned.map Prod.fst).insertionSort fun left right => left.id ≤ right.id
      cancelledIds := cancel.insertionSort (· ≤ ·) })

/-- Drop the timer leases that have expired. -/
def releaseExpiredTimers (state : MemoryState) (now : DateTime) : MemoryState :=
  { state with timerLeases := state.timerLeases.filter fun entry => entry.2.expiresAt > now }

/-- The timer that `claim_due_timer` selects. -/
def dueTimerCandidate (state : MemoryState) (now : DateTime) : Option TimerRecord :=
  (state.timers.entries.filter fun timer =>
    timer.status.active ∧ timer.fireAt ≤ now ∧ (state.timerLeases.get? timer.id).isNone).argmin
    fun timer => (toLex (timer.fireAt, timer.id) : DateTime ×ₗ String)

/-- `claim_due_timer`. The fresh lease token is an argument. -/
def claimDueTimer (state : MemoryState) (worker : String) (now : DateTime)
    (leaseFor : Duration) (token : String) :
    Option (MemoryState × Except RuntimeError (Option TimerClaim)) :=
  let state := releaseExpiredTimers state now
  match dueTimerCandidate state now with
  | none => some (state, .ok none)
  | some timer =>
    match addStdDuration now leaseFor with
    | none => none
    | some (.error error) => some (state, .error error)
    | some (.ok expiresAt) =>
      let timer := { timer with status := .firing, updatedAt := now }
      some ({ state with
          timers := state.timers.insert timer
          timerLeases := state.timerLeases.insert
            (timer.id, { worker := worker, token := token, expiresAt := expiresAt }) },
        .ok (some
          { timer := timer, worker := worker, token := token, expiresAt := expiresAt }))

/-- `fire_timer`: store the fired record and admit its event, if the claim still
holds the lease on the stored generation. -/
def fireTimer (state : MemoryState) (claim : TimerClaim) (fired : TimerRecord)
    (event : PreparedEvent) : Option (MemoryState × Except RuntimeError AdmitOutcome) :=
  match state.timerLeases.get? claim.timer.id with
  | none => some (state, .error (.diagnostic "stale_lease" "Timer lease is absent."))
  | some (_, lease) =>
    if lease.token ≠ claim.token ∨ lease.worker ≠ claim.worker ∨
        (state.timers.get? claim.timer.id).all
          (fun timer => timer.generation ≠ claim.timer.generation) then
      some (state, .error (.diagnostic "stale_timer_generation"
        "Timer generation or lease changed before firing."))
    else
      let state := { state with
        timers := state.timers.insert fired
        timerLeases := state.timerLeases.erase claim.timer.id }
      (admit_ state event).map fun (state, outcome) => (state, .ok outcome)

end Memory
end Mdbase.Runtime
