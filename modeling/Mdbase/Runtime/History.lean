import Mdbase.Runtime.Fencing
import Mdbase.Runtime.Replay

/-!
# The history of a run

`Move` is what one call can do to the stored runs, with the leases forgotten:
because claims are fenced, a commit replaces exactly the record its worker
received. Every property of the runs in a reached store is proved by checking
the five moves.

`commits_are_linear` is the contract of the in-memory store towards its
workers: a commit either replaces the record its worker last received or is
refused as stale, an accepted cancellation of a running run is never lost, and a
superseded lease token is dead.
-/

namespace Mdbase.Runtime

open Library Relation Memory

/-- One change of the stored runs by the workers of a store. -/
inductive Move (allowed : RunRecord → RunRecord → Prop)
    (admits : MemoryState → PreparedEvent → Prop) (store : MemoryState) :
    MemoryState → Prop where
  | admit_ {event : PreparedEvent} {next : MemoryState} {outcome : AdmitOutcome}
      (holds : admits store event) (result : admit_ store event = some (next, outcome)) :
      Move allowed admits store next
  | leases (leases : Leases) : Move allowed admits store { store with runLeases := leases }
  | start {run : RunRecord} (now : DateTime) (leases : Leases) (stored : run ∈ store.runs)
      (runnable : groupIsRunnable store run = true)
      (status : run.status = .queued ∨ run.status = .running) :
      Move allowed admits store
        { store with runs := store.runs.insert (startRun run now), runLeases := leases }
  | cancel {run cancelled : RunRecord} {now : DateTime} (stored : run ∈ store.runs)
      (accepted : run.requestCancel now = some cancelled) :
      Move allowed admits store (recordCancellation store cancelled)
  | commit {held run : RunRecord} (stored : held ∈ store.runs) (submitted : allowed held run) :
      Move allowed admits store (installRun store run)

section Moves

variable {allowed : RunRecord → RunRecord → Prop} {admits : MemoryState → PreparedEvent → Prop}

theorem Fenced.stored_eq_held {store : MemoryState} {held : Nat → Option Claim}
    {issued : List String} {slot : Nat} {claim reply : Claim} {run stored : RunRecord}
    {emitted : List PreparedEvent} {next admitted : MemoryState} {entry : String × Lease}
    (fenced : Fenced store held issued) (holds : held slot = some claim)
    (submitted : Submission claim.run run)
    (commit : Committed store { claim with run := run } emitted next reply entry stored admitted) :
    stored = claim.run := by
  have lease := commit.lease
  have found := commit.found
  dsimp only at lease found
  rw [submitted.id] at lease found
  obtain ⟨_, exactly⟩ := fenced.current slot claim entry stored holds lease commit.token found
  exact exactly (commit.revision.trans submitted.revision)

theorem Step.moves (submits : ∀ held run, allowed held run → Submission held run)
    {sys next : Clients} {call : Call} (fenced : Fenced sys.store sys.held sys.issued)
    (meets : call.Meets admits sys.store) (step : Step allowed sys call next) :
    ReflTransGen (Move allowed admits) sys.store next.store := by
  cases step with
  | admitEvent result => exact .single (.admit_ meets result)
  | claimed _ result =>
    obtain ⟨run, granted⟩ := claimRun_granted result
    rw [granted.next_eq, granted.run_eq]
    exact .single (.start _ _ granted.stored granted.runnable granted.status)
  | unclaimed result empty =>
    rw [claimRun_not_granted result empty]
    exact .single (.leases _)
  | committed holds submitted result =>
    obtain ⟨entry, stored, admitted, commit⟩ := commitRun_committed result
    obtain rfl := fenced.stored_eq_held holds (submits _ _ submitted) commit
    have install : ReflTransGen (Move allowed admits) sys.store (installRun sys.store _) :=
      .single (.commit (Table.mem_of_get? commit.found) submitted)
    have emits : ReflTransGen (Move allowed admits) sys.store admitted :=
      admitAll_induction commit.emits meets install
        fun holds result before => before.tail (.admit_ holds result)
    rw [commit.next_eq]
    unfold releaseTerminal
    split
    next => exact emits.tail (.leases _)
    next => exact emits
  | refused _ _ result => rw [(commitRun_refused result).1]
  | @requestCancel id now =>
    cases found : sys.store.runs.get? id with
    | none => simpa [Memory.requestCancel, found] using ReflTransGen.refl
    | some run =>
      cases accepted : run.requestCancel now with
      | none => simpa [Memory.requestCancel, found, accepted] using ReflTransGen.refl
      | some cancelled =>
        simpa [Memory.requestCancel, found, accepted] using
          ReflTransGen.single (Move.cancel (Table.mem_of_get? found) accepted)
  | crash => exact .refl

theorem invariant_of_moves {P : MemoryState → Prop}
    (move : ∀ {store next}, Move allowed admits store next → P store → P next)
    {store next : MemoryState} (moves : ReflTransGen (Move allowed admits) store next)
    (start : P store) : P next := by
  induction moves with
  | refl => exact start
  | tail _ last ih => exact move last ih

theorem GuardedRun.invariant (rule : AdmissionRule admits)
    (submits : ∀ held run, allowed held run → Submission held run) {P : MemoryState → Prop}
    (move : ∀ {store next}, Move allowed admits store next → P store → P next)
    {sys later : Clients} (fenced : Fenced sys.store sys.held sys.issued) (start : P sys.store)
    (onward : GuardedRun allowed admits sys later) : P later.store := by
  have both : Fenced later.store later.held later.issued ∧ P later.store := by
    induction onward with
    | refl => exact ⟨fenced, start⟩
    | tail _ last ih =>
      obtain ⟨call, meets, step⟩ := last
      refine ⟨ih.1.step rule meets step, ?_⟩
      exact invariant_of_moves move (step.moves submits ih.1 meets) ih.2
  exact both.2

end Moves

/-- A run left the queue and its cancellation is recorded. -/
def CancellationRecorded (id : String) (store : MemoryState) : Prop :=
  ∃ run, store.runs.get? id = some run ∧ run.status ≠ .queued ∧ run.cancelRequestedAt.isSome = true

variable {id : String}

theorem CancellationRecorded.insert {store : MemoryState} {run : RunRecord}
    {leases : Leases} (recorded : CancellationRecorded id store)
    (kept : run.plan.id = id → run.status ≠ .queued ∧ run.cancelRequestedAt.isSome = true) :
    CancellationRecorded id { store with runs := store.runs.insert run, runLeases := leases } := by
  obtain ⟨old, stored, started, requested⟩ := recorded
  by_cases here : id = run.plan.id
  · obtain ⟨running, flagged⟩ := kept here.symm
    exact ⟨run, by simp [here], running, flagged⟩
  · exact ⟨old, by simpa [Table.get?_insert, here] using stored, started, requested⟩

theorem CancellationRecorded.cancel {id : String} {store : MemoryState}
    {run cancelled : RunRecord} {now : DateTime} (recorded : CancellationRecorded id store)
    (accepted : run.requestCancel now = some cancelled) :
    CancellationRecorded id (recordCancellation store cancelled) := by
  have effect := RunRecord.requestCancel_cancellation accepted
  refine recorded.insert fun _ => ⟨?_, effect.requested⟩
  dsimp only
  rw [effect.status]
  split <;> simp

variable {store next : MemoryState}

theorem Memory.Change.cancellationRecorded {event : PreparedEvent} {cursor : Nat}
    (agree : IdsAgree store event)
    (change : Change event cursor store next) (recorded : CancellationRecorded id store) :
    CancellationRecorded id next := by
  have kept := recorded
  obtain ⟨old, found, started, requested⟩ := kept
  cases change with
  | remove removed queued =>
    have kept : id ≠ removed := by
      rintro rfl
      exact started (queued old found)
    exact ⟨old, by rw [Table.get?_erase_of_ne _ kept]; exact found, started, requested⟩
  | cancel _ accepted => exact recorded.cancel accepted
  | release _ _ => exact recorded
  | store member same _ _ untaken =>
    have absent := agree.absent member same untaken
    refine recorded.insert fun here => ?_
    rw [RunRecord.admitted_plan] at here
    rw [here, found] at absent
    cases absent

theorem Move.cancellationRecorded
    (move : Move Submission IdsAgree store next) (recorded : CancellationRecorded id store) :
    CancellationRecorded id next := by
  have kept := recorded
  obtain ⟨old, found, started, requested⟩ := kept
  cases move with
  | @admit_ event _ _ agree result =>
    have entry : CancellationRecorded id (journal store event) := recorded
    rcases admit_induction IdsAgree.admissionRule result agree entry
      (fun agree change before => change.cancellationRecorded agree before) with rfl | reached
    · exact recorded
    · exact reached
  | leases _ => exact recorded
  | @start run now leases stored _ _ =>
    refine recorded.insert fun here => ?_
    rw [startRun_plan] at here
    obtain rfl := Runs.eq_of_id stored (Table.mem_of_get? found)
      (here.trans (Runs.id_of_get? found).symm)
    unfold startRun
    split
    next => exact ⟨by simp, requested⟩
    next => exact ⟨started, requested⟩
  | cancel _ accepted => exact recorded.cancel accepted
  | @commit held run stored submitted =>
    refine recorded.insert fun here => ?_
    obtain rfl := Runs.eq_of_id stored (Table.mem_of_get? found)
      (submitted.id.symm.trans (here.trans (Runs.id_of_get? found).symm))
    exact ⟨fun queued => started (submitted.queue queued), submitted.cancellation requested⟩

/-- A token was handed out and the lease of a run does not carry it. -/
def Superseded (id token : String) (sys : Clients) : Prop :=
  token ∈ sys.issued ∧ ∀ entry, sys.store.runLeases.get? id = some entry → entry.2.token ≠ token

/-- A superseded token stays so after every guarded step. -/
theorem Superseded.step {id token : String} {sys next : Clients}
    (superseded : Superseded id token sys)
    (step : GuardedStep Submission IdsAgree sys next) : Superseded id token next := by
  obtain ⟨issued, other⟩ := superseded
  have advanced : ∀ {store}, Advances sys.store store →
      ∀ entry, store.runLeases.get? id = some entry → entry.2.token ≠ token :=
    fun advances entry found => other entry (advances.leases id entry found)
  obtain ⟨call, meets, step⟩ := step
  cases step with
  | admitEvent result => exact ⟨issued, advanced (Advances.admit_ result meets)⟩
  | @claimed _ _ _ now _ _ _ _ fresh result =>
    obtain ⟨run, granted⟩ := claimRun_granted result
    refine ⟨List.mem_cons_of_mem _ issued, fun entry found => ?_⟩
    rw [granted.next_eq, Table.get?_insert] at found
    split at found
    next =>
      cases found
      rintro rfl
      exact fresh issued
    next => exact advanced (Advances.releaseExpired sys.store now) entry found
  | unclaimed result empty =>
    rw [claimRun_not_granted result empty]
    exact ⟨issued, advanced (Advances.releaseExpired _ _)⟩
  | @committed _ _ _ run _ _ _ _ result =>
    obtain ⟨entry, stored, admitted, commit⟩ := commitRun_committed result
    have emits := (Advances.admitAll IdsAgree.admissionRule commit.emits meets).trans
      (Advances.releaseTerminal admitted run)
    rw [commit.next_eq]
    exact ⟨issued, fun entry found => other entry (emits.leases id entry found)⟩
  | refused _ _ result =>
    rw [(commitRun_refused result).1]
    exact ⟨issued, other⟩
  | @requestCancel cancelledId now =>
    refine ⟨issued, ?_⟩
    cases found : sys.store.runs.get? cancelledId with
    | none => simpa [Memory.requestCancel, found] using other
    | some run =>
      cases accepted : run.requestCancel now with
      | none => simpa [Memory.requestCancel, found, accepted] using other
      | some cancelled =>
        simpa only [Memory.requestCancel, found, accepted] using
          advanced (Advances.recordCancellation (Table.mem_of_get? found) accepted)
  | crash => exact ⟨issued, other⟩

theorem Superseded.guardedRun {id token : String} {sys later : Clients}
    (superseded : Superseded id token sys)
    (onward : GuardedRun Submission IdsAgree sys later) : Superseded id token later := by
  induction onward with
  | refl => exact superseded
  | tail _ last ih => exact ih.step last

theorem Superseded.refused {token : String} {sys : Clients} {claim : Claim}
    (superseded : Superseded claim.run.plan.id token sys) (mine : claim.token = token)
    (emitted : List PreparedEvent) :
    ∃ message, commitRun sys.store claim emitted =
      some (sys.store, .error (.diagnostic "stale_lease" message)) := by
  rcases commitRun_cases sys.store claim emitted with refused | ⟨entry, lease, _, same, _⟩
  · exact refused
  · exact absurd (same.trans mine) (superseded.2 entry lease)

/-- In every interleaving of admissions, claims, commits, cancellations and
crashes that brings no plan under the id of a run standing for other work:

* a commit is refused as stale and changes nothing, or the stored record is the
  one its worker last received;
* once the cancellation of a running run was accepted, it is recorded in every
  later version of the run;
* once the lease of a run carries another token, every commit of the run under
  the old one is refused. -/
theorem commits_are_linear {sys : Clients} (reached : GuardedRun Submission IdsAgree .initial sys) :
    (∀ slot claim run emitted, sys.held slot = some claim → Submission claim.run run →
      (∃ message, commitRun sys.store { claim with run := run } emitted =
        some (sys.store, .error (.diagnostic "stale_lease" message))) ∨
      (sys.store.runs.get? run.plan.id = some claim.run ∧
        ∀ store error, commitRun sys.store { claim with run := run } emitted ≠
          some (store, .error error))) ∧
    (∀ id now run, sys.store.runs.get? id = some run → run.status = .running →
      (Memory.requestCancel sys.store id now).2 = true →
      ∀ later, GuardedRun Submission IdsAgree
          { sys with store := (Memory.requestCancel sys.store id now).1 } later →
        ∃ version, later.store.runs.get? id = some version ∧
          version.cancelRequestedAt.isSome = true) ∧
    (∀ id token entry, token ∈ sys.issued → sys.store.runLeases.get? id = some entry →
      entry.2.token ≠ token →
      ∀ later, GuardedRun Submission IdsAgree sys later →
        ∀ claim emitted, claim.token = token → claim.run.plan.id = id →
          ∃ message, commitRun later.store claim emitted =
            some (later.store, .error (.diagnostic "stale_lease" message))) := by
  have fenced := Fenced.guardedRun IdsAgree.admissionRule reached
  refine ⟨?_, ?_, ?_⟩
  · intro slot claim run emitted holds submitted
    rcases commitRun_cases sys.store { claim with run := run } emitted with refused |
      ⟨entry, lease, _, token, ⟨absent, _⟩ | ⟨stored, found, revision, commits⟩⟩
    · exact .inl refused
    · obtain ⟨stored, found⟩ := fenced.leased _ entry lease
      rw [absent] at found
      cases found
    · refine .inr ⟨?_, by simp [commits]⟩
      dsimp only at lease found
      rw [submitted.id] at lease found ⊢
      obtain ⟨_, exactly⟩ := fenced.current slot claim entry stored holds lease token found
      rw [found, exactly (revision.trans submitted.revision)]
  · intro id now run found running accepted later onward
    have step : Step Submission sys (.requestCancel id now) _ := .requestCancel
    have meets : (Call.requestCancel id now).Meets IdsAgree sys.store := trivial
    have after := fenced.step IdsAgree.admissionRule meets step
    have recorded : CancellationRecorded id (Memory.requestCancel sys.store id now).1 := by
      cases cancels : run.requestCancel now with
      | none => simp [Memory.requestCancel, found, cancels] at accepted
      | some cancelled =>
        have effect := RunRecord.requestCancel_cancellation cancels
        refine ⟨{ cancelled with revision := cancelled.revision + 1 }, ?_, ?_, effect.requested⟩
        · simp only [Memory.requestCancel, found, cancels, recordCancellation_runs]
          rw [Table.get?_insert, if_pos]
          simp [effect.plan, Runs.id_of_get? found]
        · simp [effect.status, running]
    obtain ⟨version, stored, _, flagged⟩ := GuardedRun.invariant IdsAgree.admissionRule
      (fun _ _ submitted => submitted) Move.cancellationRecorded after recorded onward
    exact ⟨version, stored, flagged⟩
  · intro id token entry issued found other later onward claim emitted mine here
    have superseded : Superseded id token sys := by
      refine ⟨issued, fun current currentFound => ?_⟩
      rw [found] at currentFound
      cases currentFound
      exact other
    have dead := superseded.guardedRun onward
    rw [← here] at dead
    exact dead.refused mine emitted

/-- A worker whose run was cancelled from outside is refused. -/
theorem commits_are_linear_after_cancellation :
    ∃ sys claim, GuardedRun Submission IdsAgree .initial sys ∧ sys.held 0 = some claim ∧
      ∃ message, commitRun sys.store claim [] =
        some (sys.store, .error (.diagnostic "stale_lease" message)) := by
  obtain ⟨sys, reached, holds, moved⟩ := exists_of_replay Submission IdsAgree .initial
    [.admitEvent (sampleEvent "e" 0 [samplePlan "r" "k" "g" .queue 0]),
      .claimRun 0 "runner" "w" 0 1000 "t",
      .requestCancel "r" 1]
    (fun sys => (sys.held 0).isSome ∧ ∀ claim ∈ sys.held 0,
      sys.store.runs.get? claim.run.plan.id ≠ some claim.run) (by decide)
  obtain ⟨claim, held⟩ := Option.isSome_iff_exists.mp holds
  have unchanged : Submission claim.run claim.run :=
    ⟨rfl, rfl, fun requested => requested, fun queued => queued⟩
  refine ⟨sys, claim, reached, held, ?_⟩
  rcases (commits_are_linear reached).1 0 claim claim.run [] held unchanged with
    refused | ⟨same, _⟩
  · exact refused
  · exact absurd same (moved claim held)

/-- Two events whose plans got one run id under different idempotency keys: the
second admission stores a new run over the claimed one, and the worker of the
first commits over a record it never received. -/
theorem commit_overwrites_reused_id :
    ∃ sys claim, GuardedRun Submission (fun _ _ => True) .initial sys ∧
      sys.held 0 = some claim ∧ sys.store.runs.get? claim.run.plan.id ≠ some claim.run ∧
      ∃ store reply, commitRun sys.store claim [] = some (store, .ok reply) := by
  obtain ⟨sys, reached, holds, overwritten, commits⟩ :=
    exists_of_replay Submission (fun _ _ => True) .initial
    [.admitEvent (sampleEvent "a" 0 [samplePlan "r" "b:c" "g" .queue 0]),
      .claimRun 0 "runner" "w" 0 1000 "t",
      .admitEvent (sampleEvent "a:b" 1 [samplePlan "r" "c" "g" .queue 1])]
    (fun sys => (sys.held 0).isSome ∧
      (∀ claim ∈ sys.held 0, sys.store.runs.get? claim.run.plan.id ≠ some claim.run) ∧
      ∀ claim ∈ sys.held 0, (commitRun sys.store claim []).any
        (fun result => result.2.isOk) = true) (by decide)
  obtain ⟨claim, held⟩ := Option.isSome_iff_exists.mp holds
  obtain ⟨⟨store, reply⟩, result, accepted⟩ := (Option.any_eq_true _ _).mp (commits claim held)
  cases reply with
  | error error => cases accepted
  | ok reply => exact ⟨sys, claim, reached, held, overwritten claim held, store, reply, result⟩

end Mdbase.Runtime
