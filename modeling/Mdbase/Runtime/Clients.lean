import Mdbase.Runtime.Memory.Changes

/-!
# Workers sharing one in-memory store

`Clients` is the store together with what every worker last received from it.
Workers are numbered slots; a slot holds the claim its last successful
`claim_run` or `commit_run` returned. `Step allowed` interleaves the calls of
any number of workers in any order, with arbitrary clocks: a worker may submit
any record that `allowed` relates to the record it last received. Lease tokens
are fresh, as the source's ULIDs are, and a call that panics has no successor.
-/

namespace Mdbase.Runtime

open Library Relation Memory

/-- The store, the claim each worker last received, and the lease tokens handed
out so far. -/
structure Clients where
  store : MemoryState
  held : Nat → Option Claim
  issued : List String

/-- No worker holds a claim on the new store. -/
def Clients.initial : Clients where
  store := .new
  held := fun _ => none
  issued := []

/-- A store call by one of the clients, or the crash of a worker. -/
inductive Call where
  | admitEvent (event : PreparedEvent)
  | claimRun (slot : Nat) (executor worker : String) (now : DateTime) (leaseFor : Duration)
      (token : String)
  | commitRun (slot : Nat) (run : RunRecord) (emitted : List PreparedEvent)
  | requestCancel (id : String) (now : DateTime)
  | crash (slot : Nat)

/-- One call of the interleaving. -/
inductive Step (allowed : RunRecord → RunRecord → Prop) (sys : Clients) :
    Call → Clients → Prop where
  | admitEvent {event : PreparedEvent} {store : MemoryState} {outcome : AdmitOutcome}
      (result : admit_ sys.store event = some (store, outcome)) :
      Step allowed sys (.admitEvent event) { sys with store := store }
  | claimed {slot : Nat} {executor worker : String} {now : DateTime} {leaseFor : Duration}
      {token : String} {store : MemoryState} {claim : Claim} (fresh : token ∉ sys.issued)
      (result : claimRun sys.store executor worker now leaseFor token =
        some (store, .ok (some claim))) :
      Step allowed sys (.claimRun slot executor worker now leaseFor token)
        { store := store
          held := Function.update sys.held slot (some claim)
          issued := token :: sys.issued }
  | unclaimed {slot : Nat} {executor worker : String} {now : DateTime} {leaseFor : Duration}
      {token : String} {store : MemoryState} {reply : Except RuntimeError (Option Claim)}
      (result : claimRun sys.store executor worker now leaseFor token = some (store, reply))
      (empty : ∀ claim, reply ≠ .ok (some claim)) :
      Step allowed sys (.claimRun slot executor worker now leaseFor token)
        { sys with store := store }
  | committed {slot : Nat} {claim next : Claim} {run : RunRecord}
      {emitted : List PreparedEvent} {store : MemoryState} (holds : sys.held slot = some claim)
      (submitted : allowed claim.run run)
      (result : commitRun sys.store { claim with run := run } emitted = some (store, .ok next)) :
      Step allowed sys (.commitRun slot run emitted)
        { sys with store := store, held := Function.update sys.held slot (some next) }
  | refused {slot : Nat} {claim : Claim} {run : RunRecord} {emitted : List PreparedEvent}
      {store : MemoryState} {error : RuntimeError} (holds : sys.held slot = some claim)
      (submitted : allowed claim.run run)
      (result : commitRun sys.store { claim with run := run } emitted =
        some (store, .error error)) :
      Step allowed sys (.commitRun slot run emitted) { sys with store := store }
  | requestCancel {id : String} {now : DateTime} :
      Step allowed sys (.requestCancel id now)
        { sys with store := (Memory.requestCancel sys.store id now).1 }
  | crash {slot : Nat} :
      Step allowed sys (.crash slot) { sys with held := Function.update sys.held slot none }

/-- A condition on admissions holds along a sequence of them. -/
def AdmitsAll (admits : MemoryState → PreparedEvent → Prop) (state : MemoryState) :
    List PreparedEvent → Prop
  | [] => True
  | event :: rest =>
    admits state event ∧
      ∀ next outcome, admit_ state event = some (next, outcome) → AdmitsAll admits next rest

namespace Memory

/-- The store right after the compare-and-set of a commit. -/
def installRun (state : MemoryState) (run : RunRecord) : MemoryState :=
  { state with runs := state.runs.insert { run with revision := run.revision + 1 } }

/-- The lease of a committed run, released when the run is over. -/
def releaseTerminal (state : MemoryState) (run : RunRecord) : MemoryState :=
  if run.status.terminal then
    { state with runLeases := state.runLeases.erase run.plan.id }
  else state

end Memory

/-- A condition on admissions holds of every admission that a call makes. -/
def Call.Meets (admits : MemoryState → PreparedEvent → Prop) (state : MemoryState) :
    Call → Prop
  | .admitEvent event => admits state event
  | .commitRun _ run emitted => AdmitsAll admits (installRun state run) emitted
  | _ => True

/-- What a worker may submit for a run it holds: the same run at the revision it
received, with a recorded cancellation kept, and not put back into the queue. -/
structure Submission (held run : RunRecord) : Prop where
  id : run.plan.id = held.plan.id
  revision : run.revision = held.revision
  cancellation : held.cancelRequestedAt.isSome → run.cancelRequestedAt.isSome
  queue : run.status = .queued → held.status = .queued

/-- What a commit of the runtime engine changes: it comes from a running run and
leaves it running or ends it. -/
structure EngineCommit (held run : RunRecord) : Prop where
  running : held.status = .running
  plan : run.plan = held.plan
  revision : run.revision = held.revision
  createdAt : run.createdAt = held.createdAt
  startedAt : run.startedAt = held.startedAt
  cancellation : run.cancelRequestedAt = held.cancelRequestedAt
  status : run.status = .running ∨ run.status.terminal = true

theorem EngineCommit.submission {held run : RunRecord} (commit : EngineCommit held run) :
    Submission held run where
  id := by rw [commit.plan]
  revision := commit.revision
  cancellation requested := by rwa [commit.cancellation]
  queue queued := by
    rcases commit.status with running | terminal
    · rw [queued] at running
      cases running
    · rw [queued] at terminal
      cases terminal

/-- A call whose admissions meet a condition. -/
def GuardedStep (allowed : RunRecord → RunRecord → Prop)
    (admits : MemoryState → PreparedEvent → Prop) (sys next : Clients) : Prop :=
  ∃ call, call.Meets admits sys.store ∧ Step allowed sys call next

/-- The systems reached from a given one by calls whose admissions meet a
condition. -/
abbrev GuardedRun (allowed : RunRecord → RunRecord → Prop)
    (admits : MemoryState → PreparedEvent → Prop) : Clients → Clients → Prop :=
  ReflTransGen (GuardedStep allowed admits)

namespace Memory

variable {now : DateTime}

theorem claimCandidate_spec {state : MemoryState} {executor : String}
    {run : RunRecord} (selected : claimCandidate state executor now = some run) :
    run ∈ state.runs ∧ due state executor now run = true ∧ groupIsRunnable state run = true := by
  have member := List.argmin_mem (Option.mem_def.mpr selected)
  have parts := List.mem_filter.mp member
  simp only [decide_eq_true_eq] at parts
  exact ⟨parts.1, parts.2.1, parts.2.2⟩

@[simp] theorem startRun_plan (run : RunRecord) (now : DateTime) :
    (startRun run now).plan = run.plan := by
  unfold startRun
  split <;> rfl

@[simp] theorem releaseExpired_runs (state : MemoryState) (now : DateTime) :
    (releaseExpired state now).runs = state.runs := rfl

/-- The effect of a claim that was granted. -/
structure Granted (state : MemoryState) (worker token : String) (now : DateTime)
    (next : MemoryState) (claim : Claim) (run : RunRecord) : Prop where
  stored : run ∈ state.runs
  runnable : groupIsRunnable state run = true
  status : run.status = .queued ∨ run.status = .running
  run_eq : claim.run = startRun run now
  worker_eq : claim.worker = worker
  token_eq : claim.token = token
  next_eq : next = { state with
    runs := state.runs.insert claim.run
    runLeases := (releaseExpired state now).runLeases.insert
      (claim.run.plan.id, { worker := worker, token := token, expiresAt := claim.expiresAt }) }

variable {state next : MemoryState} {executor worker token : String}

/-- What a granted claim says of the store before it. -/
theorem claimRun_granted {leaseFor : Duration} {claim : Claim}
    (result : claimRun state executor worker now leaseFor token = some (next, .ok (some claim))) :
    ∃ run, Granted state worker token now next claim run := by
  unfold claimRun at result
  dsimp only at result
  split at result
  next => simp at result
  rename_i run selected
  obtain ⟨stored, isDue, runnable⟩ := claimCandidate_spec selected
  split at result
  next => cases result
  next => simp at result
  rename_i expiresAt _
  simp only [Option.some.injEq, Prod.mk.injEq, Except.ok.injEq] at result
  obtain ⟨rfl, rfl⟩ := result
  refine ⟨run, stored, runnable, ?_, rfl, rfl, rfl, rfl⟩
  simp only [due, decide_eq_true_eq] at isDue
  cases status : run.status <;> simp_all [RunStatus.terminal]

/-- A claim that grants nothing releases the expired leases only. -/
theorem claimRun_not_granted {leaseFor : Duration} {reply : Except RuntimeError (Option Claim)}
    (result : claimRun state executor worker now leaseFor token = some (next, reply))
    (empty : ∀ claim, reply ≠ .ok (some claim)) : next = releaseExpired state now := by
  unfold claimRun at result
  dsimp only at result
  split at result
  next => simp_all
  split at result
  next => cases result
  next => simp_all
  simp only [Option.some.injEq, Prod.mk.injEq] at result
  exact absurd result.2.symm (empty _)

/-- A commit is refused and changes nothing, or it holds the lease and the
stored revision. -/
theorem commitRun_cases (state : MemoryState) (claim : Claim) (emitted : List PreparedEvent) :
    (∃ message, commitRun state claim emitted =
        some (state, .error (.diagnostic "stale_lease" message))) ∨
    ∃ entry, state.runLeases.get? claim.run.plan.id = some entry ∧
      entry.2.worker = claim.worker ∧ entry.2.token = claim.token ∧
      ((state.runs.get? claim.run.plan.id = none ∧ commitRun state claim emitted = none) ∨
        ∃ stored, state.runs.get? claim.run.plan.id = some stored ∧
          stored.revision = claim.run.revision ∧
          commitRun state claim emitted =
            (admitAll (installRun state claim.run) emitted).map fun state =>
              (releaseTerminal state claim.run, .ok { claim with
                run := { claim.run with revision := claim.run.revision + 1 } })) := by
  cases leased : state.runLeases.get? claim.run.plan.id with
  | none => exact .inl ⟨"Run lease is absent.", by simp only [commitRun, validateClaim, leased]⟩
  | some entry =>
    by_cases other : entry.2.worker ≠ claim.worker ∨ entry.2.token ≠ claim.token
    · exact .inl ⟨"Run lease belongs to another worker.",
        by simp only [commitRun, validateClaim, leased, if_pos other]⟩
    · have valid : validateClaim state claim = .ok () := by
        simp only [validateClaim, leased, if_neg other]
      have mine : entry.2.worker = claim.worker ∧ entry.2.token = claim.token := by
        simpa using other
      cases found : state.runs.get? claim.run.plan.id with
      | none =>
        refine .inr ⟨entry, rfl, mine.1, mine.2, .inl ⟨rfl, ?_⟩⟩
        simp only [commitRun, valid, found]
      | some stored =>
        by_cases moved : stored.revision = claim.run.revision
        · refine .inr ⟨entry, rfl, mine.1, mine.2, .inr ⟨stored, rfl, moved, ?_⟩⟩
          simp only [commitRun, valid, found, moved, ne_eq, not_true_eq_false, if_false]
          rfl
        · exact .inl ⟨"The run changed after this worker claimed it.",
            by simp only [commitRun, valid, found, ne_eq, moved, not_false_eq_true, if_true]⟩

/-- A commit that went through held the lease and the stored revision. -/
structure Committed (state : MemoryState) (claim : Claim) (emitted : List PreparedEvent)
    (next : MemoryState) (reply : Claim) (entry : String × Lease)
    (stored : RunRecord) (admitted : MemoryState) : Prop where
  lease : state.runLeases.get? claim.run.plan.id = some entry
  worker : entry.2.worker = claim.worker
  token : entry.2.token = claim.token
  found : state.runs.get? claim.run.plan.id = some stored
  revision : stored.revision = claim.run.revision
  emits : admitAll (installRun state claim.run) emitted = some admitted
  next_eq : next = releaseTerminal admitted claim.run
  reply_eq : reply = { claim with run := { claim.run with revision := claim.run.revision + 1 } }

/-- What every single admission keeps, admitting a list keeps. -/
theorem admitAll_induction {admits : MemoryState → PreparedEvent → Prop}
    {P : MemoryState → Prop} {events : List PreparedEvent}
    (result : admitAll state events = some next) (holds : AdmitsAll admits state events)
    (start : P state)
    (event : ∀ {before after : MemoryState} {event : PreparedEvent} {outcome : AdmitOutcome},
      admits before event → admit_ before event = some (after, outcome) → P before → P after) :
    P next := by
  induction events generalizing state with
  | nil =>
    obtain rfl : state = next := by simpa [admitAll] using result
    exact start
  | cons first rest ih =>
    obtain ⟨middle, onward, later⟩ : ∃ middle,
        (admit_ state first).map Prod.fst = some middle ∧ admitAll middle rest = some next := by
      simpa only [admitAll, List.foldlM_cons, Option.bind_eq_bind,
        Option.bind_eq_some_iff] using result
    obtain ⟨⟨middle, outcome⟩, admitted, rfl⟩ := Option.map_eq_some_iff.mp onward
    exact ih later (holds.2 middle outcome admitted) (event holds.1 admitted start)

variable {emitted : List PreparedEvent}

/-- A commit that succeeds was made under the lease that the store holds. -/
theorem commitRun_committed {claim reply : Claim}
    (result : commitRun state claim emitted = some (next, .ok reply)) :
    ∃ entry stored admitted, Committed state claim emitted next reply entry stored admitted := by
  rcases commitRun_cases state claim emitted with ⟨message, refused⟩ | ⟨entry, lease, worker,
    token, ⟨_, panics⟩ | ⟨stored, found, revision, commits⟩⟩
  · simp [refused] at result
  · simp [panics] at result
  · rw [commits] at result
    obtain ⟨admitted, all, same⟩ := Option.map_eq_some_iff.mp result
    simp only [Prod.mk.injEq, Except.ok.injEq] at same
    exact ⟨entry, stored, admitted, lease, worker, token, found, revision, all,
      same.1.symm, same.2.symm⟩

/-- A commit that is refused leaves the store as it was. -/
theorem commitRun_refused {claim : Claim} {error : RuntimeError}
    (result : commitRun state claim emitted = some (next, .error error)) :
    next = state ∧ ∃ message, error = .diagnostic "stale_lease" message := by
  rcases commitRun_cases state claim emitted with ⟨message, refused⟩ | ⟨entry, lease, worker,
    token, ⟨_, panics⟩ | ⟨stored, found, revision, commits⟩⟩
  · simp only [refused, Option.some.injEq, Prod.mk.injEq, Except.error.injEq] at result
    exact ⟨result.1.symm, message, result.2.symm⟩
  · simp [panics] at result
  · simp [commits] at result

end Memory

end Mdbase.Runtime
