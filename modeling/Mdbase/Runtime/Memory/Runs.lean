import Mdbase.Runtime.Memory.Admission

/-!
# Claiming, committing and cancelling runs in the in-memory store

A store call of the source runs under one lock, so each call is one function of
the state. `none` is a panic of the source, as in `admit`; the second component
is what the call returns.
-/

namespace Mdbase.Runtime.Memory

open Library

/-- The order in which queued runs of a concurrency group are served. -/
def queueKey (run : RunRecord) : Nat ×ₗ String := toLex (run.plan.eventCursor, run.plan.id)

/-- The order in which claimable runs are handed out. -/
def claimKey (run : RunRecord) : DateTime ×ₗ String := toLex (run.createdAt, run.plan.id)

/-- Does `other` keep `run` from being claimed through their common group? -/
def blocks (other run : RunRecord) : Bool :=
  other.plan.id ≠ run.plan.id ∧ other.plan.concurrencyGroup = run.plan.concurrencyGroup ∧
    ((other.status = .running ∨ other.status = .waiting) ∨
      (other.status = .queued ∧ queueKey other < queueKey run))

/-- Is the run stored under an id indeterminate? -/
def isIndeterminate (state : MemoryState) (id : String) : Bool :=
  (state.runs.get? id).any fun run => run.status = .indeterminate

/-- May a run be claimed as far as its concurrency group and the runs it
replaces are concerned? -/
def groupIsRunnable (state : MemoryState) (run : RunRecord) : Bool :=
  if run.plan.concurrencyPolicy = .allow then true
  else
    let blockedByGroup := state.runs.entries.any fun other => blocks other run
    let blockedByIndeterminateReplacement :=
      run.plan.replacementBlockers.any (isIndeterminate state)
    !blockedByGroup && !blockedByIndeterminateReplacement

/-- Is a run due for an executor and not under lease? -/
def due (state : MemoryState) (executor : String) (now : DateTime) (run : RunRecord) : Bool :=
  run.plan.executor = executor ∧ !run.status.terminal ∧ run.status ≠ .waiting ∧
    run.plan.notBefore ≤ now ∧ (state.runLeases.get? run.plan.id).isNone

/-- Drop the run leases that have expired. -/
def releaseExpired (state : MemoryState) (now : DateTime) : MemoryState :=
  { state with runLeases := state.runLeases.filter fun entry => entry.2.expiresAt > now }

/-- The run that `claim_run` selects. -/
def claimCandidate (state : MemoryState) (executor : String) (now : DateTime) :
    Option RunRecord :=
  (state.runs.entries.filter fun run =>
    due state executor now run ∧ groupIsRunnable state run).argmin claimKey

/-- The record of a run as its claimer receives it. -/
def startRun (run : RunRecord) (now : DateTime) : RunRecord :=
  if run.status = .queued then
    { run with
      status := .running
      startedAt := some (run.startedAt.getD now)
      updatedAt := now }
  else run

/-- `claim_run`. The fresh lease token of the source, a ULID, is an argument. -/
def claimRun (state : MemoryState) (executor worker : String) (now : DateTime)
    (leaseFor : Duration) (token : String) :
    Option (MemoryState × Except RuntimeError (Option Claim)) :=
  let state := releaseExpired state now
  match claimCandidate state executor now with
  | none => some (state, .ok none)
  | some run =>
    match addStdDuration now leaseFor with
    | none => none
    | some (.error error) => some (state, .error error)
    | some (.ok expiresAt) =>
      let run := startRun run now
      some ({ state with
          runs := state.runs.insert run
          runLeases := state.runLeases.insert
            (run.plan.id, { worker := worker, token := token, expiresAt := expiresAt }) },
        .ok (some { run := run, worker := worker, token := token, expiresAt := expiresAt }))

/-- `validate_claim`. -/
def validateClaim (state : MemoryState) (claim : Claim) : Except RuntimeError Unit :=
  match state.runLeases.get? claim.run.plan.id with
  | none => .error (.diagnostic "stale_lease" "Run lease is absent.")
  | some (_, lease) =>
    if lease.worker ≠ claim.worker ∨ lease.token ≠ claim.token then
      .error (.diagnostic "stale_lease" "Run lease belongs to another worker.")
    else .ok ()

/-- Admit events one after the other. -/
def admitAll (state : MemoryState) (events : List PreparedEvent) : Option MemoryState :=
  events.foldlM (fun state event => (admit_ state event).map Prod.fst) state

/-- `commit_run`: compare-and-set of the claimed run, together with the events
the run emitted. -/
def commitRun (state : MemoryState) (claim : Claim) (emitted : List PreparedEvent) :
    Option (MemoryState × Except RuntimeError Claim) :=
  match validateClaim state claim with
  | .error error => some (state, .error error)
  | .ok () =>
    match state.runs.get? claim.run.plan.id with
    | none => none
    | some stored =>
      if stored.revision ≠ claim.run.revision then
        some (state, .error (.diagnostic "stale_lease"
          "The run changed after this worker claimed it."))
      else
        let claim := { claim with
          run := { claim.run with revision := claim.run.revision + 1 } }
        let state := { state with runs := state.runs.insert claim.run }
        (admitAll state emitted).map fun state =>
          (if claim.run.status.terminal then
            { state with runLeases := state.runLeases.erase claim.run.plan.id }
          else state, .ok claim)

/-- `request_cancel`. -/
def requestCancel (state : MemoryState) (id : String) (now : DateTime) : MemoryState × Bool :=
  match state.runs.get? id with
  | none => (state, false)
  | some run =>
    match run.requestCancel now with
    | none => (state, false)
    | some cancelled => (recordCancellation state cancelled, true)

end Mdbase.Runtime.Memory
