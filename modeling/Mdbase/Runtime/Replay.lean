import Mdbase.Runtime.Clients

/-!
# Replaying calls

`Clients.perform` computes the step that a call takes, and `replay` a whole
sequence of calls under a decidable condition on admissions. A replay that
succeeds is a run of the workers, so concrete histories can be evaluated.
-/

namespace Mdbase.Runtime

open Library Relation Memory

instance (held run : RunRecord) : Decidable (Submission held run) :=
  decidable_of_iff (run.plan.id = held.plan.id ∧ run.revision = held.revision ∧
      (held.cancelRequestedAt.isSome → run.cancelRequestedAt.isSome) ∧
      (run.status = .queued → held.status = .queued))
    ⟨fun ⟨id, revision, cancellation, queue⟩ => ⟨id, revision, cancellation, queue⟩,
      fun ⟨id, revision, cancellation, queue⟩ => ⟨id, revision, cancellation, queue⟩⟩

instance (held run : RunRecord) : Decidable (EngineCommit held run) :=
  decidable_of_iff (held.status = .running ∧ run.plan = held.plan ∧
      run.revision = held.revision ∧ run.createdAt = held.createdAt ∧
      run.startedAt = held.startedAt ∧ run.cancelRequestedAt = held.cancelRequestedAt ∧
      (run.status = .running ∨ run.status.terminal = true))
    ⟨fun ⟨running, plan, revision, createdAt, startedAt, cancellation, status⟩ =>
        ⟨running, plan, revision, createdAt, startedAt, cancellation, status⟩,
      fun ⟨running, plan, revision, createdAt, startedAt, cancellation, status⟩ =>
        ⟨running, plan, revision, createdAt, startedAt, cancellation, status⟩⟩

instance (state : MemoryState) (event : PreparedEvent) : Decidable (IdsAgree state event) :=
  decidable_of_iff
    ((∀ plan ∈ event.runs, ∀ run ∈ state.runs.entries, run.plan.id = plan.id →
        run.plan.idempotency = plan.idempotency) ∧
      ∀ left ∈ event.runs, ∀ right ∈ event.runs, left.id = right.id →
        left.idempotency = right.idempotency)
    ⟨fun ⟨stored, planned⟩ => ⟨stored, planned⟩, fun ⟨stored, planned⟩ => ⟨stored, planned⟩⟩

section Conditions

variable (allowed : RunRecord → RunRecord → Prop) (admits : MemoryState → PreparedEvent → Prop)

instance AdmitsAll.decidable [∀ state event, Decidable (admits state event)] :
    (state : MemoryState) → (events : List PreparedEvent) →
      Decidable (AdmitsAll admits state events)
  | _, [] => .isTrue trivial
  | state, event :: rest =>
    have : Decidable (∀ next outcome, admit_ state event = some (next, outcome) →
        AdmitsAll admits next rest) :=
      match result : admit_ state event with
      | none => .isTrue fun _ _ impossible => by cases impossible
      | some (reached, _) =>
        have := AdmitsAll.decidable reached rest
        decidable_of_iff (AdmitsAll admits reached rest)
          ⟨fun holds _ _ same => by cases same; exact holds, fun holds => holds reached _ rfl⟩
    inferInstanceAs (Decidable (_ ∧ _))

instance [∀ state event, Decidable (admits state event)] (state : MemoryState) :
    (call : Call) → Decidable (call.Meets admits state)
  | .admitEvent event => inferInstanceAs (Decidable (admits state event))
  | .commitRun _ run emitted =>
    inferInstanceAs (Decidable (AdmitsAll admits (installRun state run) emitted))
  | .claimRun .. => .isTrue trivial
  | .requestCancel .. => .isTrue trivial
  | .crash _ => .isTrue trivial

/-- The system after a call, `none` when the call panics, is not one its worker
may make, or asks for a lease under a token that is not fresh. -/
def Clients.perform [DecidableRel allowed] (sys : Clients) : Call → Option Clients
  | .admitEvent event => (admit_ sys.store event).map fun result => { sys with store := result.1 }
  | .claimRun slot executor worker now leaseFor token =>
    if token ∈ sys.issued then none
    else
      match claimRun sys.store executor worker now leaseFor token with
      | none => none
      | some (store, .ok (some claim)) => some {
          store := store
          held := Function.update sys.held slot (some claim)
          issued := token :: sys.issued }
      | some (store, _) => some { sys with store := store }
  | .commitRun slot run emitted =>
    match sys.held slot with
    | none => none
    | some claim =>
      if allowed claim.run run then
        match commitRun sys.store { claim with run := run } emitted with
        | none => none
        | some (store, .ok next) => some
            { sys with store := store, held := Function.update sys.held slot (some next) }
        | some (store, .error _) => some { sys with store := store }
      else none
  | .requestCancel id now => some { sys with store := (Memory.requestCancel sys.store id now).1 }
  | .crash slot => some { sys with held := Function.update sys.held slot none }

/-- What can be performed is a step. -/
theorem Clients.perform_step [DecidableRel allowed] {sys next : Clients} {call : Call}
    (performed : sys.perform allowed call = some next) : Step allowed sys call next := by
  cases call with
  | admitEvent event =>
    obtain ⟨⟨store, outcome⟩, result, rfl⟩ := Option.map_eq_some_iff.mp performed
    exact .admitEvent result
  | claimRun slot executor worker now leaseFor token =>
    simp only [perform] at performed
    split at performed
    next => cases performed
    rename_i fresh
    split at performed
    next => cases performed
    next result => cases performed; exact .claimed fresh result
    next store reply empty result =>
      cases performed
      exact .unclaimed result fun claim same => empty claim same
  | commitRun slot run emitted =>
    simp only [perform] at performed
    split at performed
    next => cases performed
    rename_i claim holds
    split at performed
    next submitted =>
      split at performed
      next => cases performed
      next result => cases performed; exact .committed holds submitted result
      next result => cases performed; exact .refused holds submitted result
    next => cases performed
  | requestCancel id now => cases performed; exact .requestCancel
  | crash slot => cases performed; exact .crash

/-- The system after a sequence of calls whose admissions meet a condition. -/
def replay [DecidableRel allowed] [∀ state event, Decidable (admits state event)]
    (sys : Clients) (calls : List Call) : Option Clients :=
  calls.foldlM (fun sys call =>
    if call.Meets admits sys.store then sys.perform allowed call else none) sys

theorem replay_run [DecidableRel allowed] [∀ state event, Decidable (admits state event)]
    {sys next : Clients} {calls : List Call}
    (replayed : replay allowed admits sys calls = some next) :
    GuardedRun allowed admits sys next := by
  induction calls generalizing sys with
  | nil =>
    obtain rfl : sys = next := by simpa [replay] using replayed
    exact .refl
  | cons call rest ih =>
    obtain ⟨middle, first, later⟩ : ∃ middle,
        (if call.Meets admits sys.store then sys.perform allowed call else none) =
          some middle ∧ replay allowed admits middle rest = some next := by
      simpa only [replay, List.foldlM_cons, Option.bind_eq_bind,
        Option.bind_eq_some_iff] using replayed
    split at first
    next meets => exact .head ⟨call, meets, Clients.perform_step allowed first⟩ (ih later)
    next => cases first

/-- What some replayed calls end in is reached by a run. -/
theorem exists_of_replay [DecidableRel allowed] [∀ state event, Decidable (admits state event)]
    (sys : Clients) (calls : List Call) (test : Clients → Prop) [DecidablePred test]
    (passes : (replay allowed admits sys calls).any (fun next => decide (test next)) = true) :
    ∃ next, GuardedRun allowed admits sys next ∧ test next := by
  obtain ⟨next, replayed, holds⟩ := (Option.any_eq_true _ _).mp passes
  exact ⟨next, replay_run allowed admits replayed, by simpa using holds⟩

end Conditions

/-- A plan without steps of the workflow `notify`, for the executor `runner`. -/
def samplePlan (id key group : String) (policy : ConcurrencyPolicy) (instant : DateTime) :
    PlannedRun :=
  { (default : PlannedRun) with
    id := id
    workflow := "notify"
    trigger := "changed"
    executor := "runner"
    idempotencyKey := key
    idempotencyScope := "runner:notify"
    concurrencyGroup := group
    concurrencyPolicy := policy
    notBefore := instant
    createdAt := instant }

/-- An event of the source `local`. -/
def sampleEvent (id : String) (instant : DateTime) (runs : List PlannedRun) : PreparedEvent where
  sourceRuntime := "local"
  eventId := id
  envelope := .null
  receivedAt := instant
  runs := runs

end Mdbase.Runtime
