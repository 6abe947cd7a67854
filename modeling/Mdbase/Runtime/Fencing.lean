import Mdbase.Runtime.Clients

/-!
# Fencing of claimed runs

A worker changes a run only from the exact record it last received. The
invariant `Fenced` ties every held claim to the store: while the lease of the
claimed run still carries the token of the claim, the stored revision is at
least the held one, and at the held revision the stored record is the held one.
Cancellation and replacement raise the revision from outside the lease; claims
do not change it but bring a new token.
-/

namespace Mdbase.Runtime

open Library Relation Memory

/-- Every lease is for a stored run. -/
def Leased (store : MemoryState) : Prop :=
  ∀ id entry, store.runLeases.get? id = some entry → ∃ run, store.runs.get? id = some run

/-- A change of the store that brings no lease, keeps the runs under lease and
changes them only to a higher revision. -/
structure Advances (store next : MemoryState) : Prop where
  leases : ∀ id entry, next.runLeases.get? id = some entry → store.runLeases.get? id = some entry
  runs : ∀ id entry run, next.runLeases.get? id = some entry →
    store.runs.get? id = some run →
    ∃ after, next.runs.get? id = some after ∧ (after = run ∨ run.revision < after.revision)

namespace Advances

theorem refl (store : MemoryState) : Advances store store :=
  ⟨fun _ _ found => found, fun _ _ run _ stored => ⟨run, stored, .inl rfl⟩⟩

theorem trans {first second third : MemoryState} (left : Advances first second)
    (right : Advances second third) : Advances first third where
  leases id entry found := left.leases id entry (right.leases id entry found)
  runs id entry run found stored := by
    obtain ⟨middle, middleStored, middleCase⟩ :=
      left.runs id entry run (right.leases id entry found) stored
    obtain ⟨after, afterStored, afterCase⟩ := right.runs id entry middle found middleStored
    refine ⟨after, afterStored, ?_⟩
    rcases middleCase with rfl | middleLater
    · exact afterCase
    · rcases afterCase with rfl | afterLater
      · exact .inr middleLater
      · exact .inr (middleLater.trans afterLater)

theorem of_leases {store : MemoryState} {leases : Leases}
    (dropped : ∀ id entry, leases.get? id = some entry → store.runLeases.get? id = some entry) :
    Advances store { store with runLeases := leases } where
  leases := dropped
  runs _ _ run _ stored := ⟨run, stored, .inl rfl⟩

theorem releaseExpired (store : MemoryState) (now : DateTime) :
    Advances store (Memory.releaseExpired store now) := by
  apply of_leases
  intro id entry found
  rw [Table.get?_filter] at found
  exact (Option.filter_eq_some_iff.mp found).1

theorem erase_lease (store : MemoryState) (released : String) :
    Advances store { store with runLeases := store.runLeases.erase released } := by
  apply of_leases
  intro id entry found
  rw [Table.get?_erase] at found
  split at found
  next => cases found
  next => exact found

theorem releaseTerminal (store : MemoryState) (run : RunRecord) :
    Advances store (Memory.releaseTerminal store run) := by
  unfold Memory.releaseTerminal
  split
  next => exact erase_lease store run.plan.id
  next => exact refl store

theorem recordCancellation {store : MemoryState} {run cancelled : RunRecord} {now : DateTime}
    (stored : run ∈ store.runs) (accepted : run.requestCancel now = some cancelled) :
    Advances store (Memory.recordCancellation store cancelled) := by
  have effect := RunRecord.requestCancel_cancellation accepted
  constructor
  · intro id entry found
    unfold Memory.recordCancellation at found
    dsimp only at found
    split at found
    next => exact (erase_lease store _).leases id entry found
    next => exact found
  · intro id entry other _ otherStored
    simp only [recordCancellation_runs, Table.get?_insert, effect.plan]
    split
    next here =>
      refine ⟨_, rfl, .inr ?_⟩
      have same : other = run :=
        Runs.eq_of_id (Table.mem_of_get? otherStored) stored ((Runs.id_of_get? otherStored).trans here)
      rw [same]
      dsimp only
      rw [effect.revision]
      omega
    next => exact ⟨other, otherStored, .inl rfl⟩

variable {store next : MemoryState}

theorem change {event : PreparedEvent} {cursor : Nat}
    (agree : IdsAgree store event) (change : Change event cursor store next) :
    Advances store next := by
  cases change with
  | remove removed _ =>
    constructor
    · exact (erase_lease store removed).leases
    · intro id entry run found stored
      have kept : id ≠ removed := by
        rintro rfl
        simp at found
      refine ⟨run, ?_, .inl rfl⟩
      rw [Table.get?_erase_of_ne _ kept]
      exact stored
  | cancel stored accepted => exact recordCancellation stored accepted
  | @release run stored terminal => exact erase_lease store run.plan.id
  | @store planned plan member same own displaced untaken =>
    have absent := agree.absent member same untaken
    refine ⟨fun _ _ found => found, fun id entry run found stored => ?_⟩
    refine ⟨run, ?_, .inl rfl⟩
    rw [Table.get?_insert_of_ne]
    · exact stored
    · rintro rfl
      rw [RunRecord.admitted_plan] at stored
      rw [absent] at stored
      cases stored

theorem admit_ {event : PreparedEvent} {store next : MemoryState} {outcome : AdmitOutcome}
    (result : Memory.admit_ store event = some (next, outcome)) (agree : IdsAgree store event) :
    Advances store next := by
  have entry : Advances store (journal store event) :=
    ⟨fun _ _ found => found, fun _ _ run _ stored => ⟨run, stored, .inl rfl⟩⟩
  rcases admit_induction IdsAgree.admissionRule result agree entry
    (fun agree change before => before.trans (Advances.change agree change)) with rfl | advances
  · exact refl _
  · exact advances

theorem admitAll {admits : MemoryState → PreparedEvent → Prop} (rule : AdmissionRule admits)
    {events : List PreparedEvent}
    (result : Memory.admitAll store events = some next) (holds : AdmitsAll admits store events) :
    Advances store next :=
  admitAll_induction result holds (refl store)
    fun holds admitted before => before.trans (Advances.admit_ admitted (rule.idsAgree holds))

end Advances

/-- The claims of the workers and the store they share fit together. -/
structure Fenced (store : MemoryState) (held : Nat → Option Claim) (issued : List String) :
    Prop where
  leased : Leased store
  leaseIssued : ∀ id entry, store.runLeases.get? id = some entry → entry.2.token ∈ issued
  claimIssued : ∀ slot claim, held slot = some claim → claim.token ∈ issued
  owner : ∀ slot other claim otherClaim, held slot = some claim → held other = some otherClaim →
    claim.token = otherClaim.token → slot = other
  current : ∀ slot claim entry run, held slot = some claim →
    store.runLeases.get? claim.run.plan.id = some entry → entry.2.token = claim.token →
    store.runs.get? claim.run.plan.id = some run →
    claim.run.revision ≤ run.revision ∧ (run.revision = claim.run.revision → run = claim.run)

namespace Fenced

variable {store next : MemoryState} {held : Nat → Option Claim} {issued : List String}

theorem advance (fenced : Fenced store held issued) (advances : Advances store next) :
    Fenced next held issued where
  leased id entry found := by
    obtain ⟨run, stored⟩ := fenced.leased id entry (advances.leases id entry found)
    obtain ⟨after, afterStored, _⟩ := advances.runs id entry run found stored
    exact ⟨after, afterStored⟩
  leaseIssued id entry found := fenced.leaseIssued id entry (advances.leases id entry found)
  claimIssued := fenced.claimIssued
  owner := fenced.owner
  current slot claim entry after holds found mine afterStored := by
    have before := advances.leases _ entry found
    obtain ⟨run, stored⟩ := fenced.leased _ entry before
    obtain ⟨reached, reachedStored, reachedCase⟩ := advances.runs _ entry run found stored
    obtain rfl : reached = after := Option.some.inj (reachedStored.symm.trans afterStored)
    obtain ⟨bound, exactly⟩ := fenced.current slot claim entry run holds before mine stored
    rcases reachedCase with rfl | later
    · exact ⟨bound, exactly⟩
    · exact ⟨by omega, fun same => by omega⟩

/-- A claim under a fresh token keeps the fence. -/
theorem grant {worker token : String} {now : DateTime} {claim : Claim} {run : RunRecord}
    (fenced : Fenced store held issued) (slot : Nat) (fresh : token ∉ issued)
    (granted : Granted store worker token now next claim run) :
    Fenced next (Function.update held slot (some claim)) (token :: issued) := by
  obtain ⟨stored, _, _, run_eq, _, token_eq, rfl⟩ := granted
  have released := fenced.advance (Advances.releaseExpired store now)
  constructor
  · intro id entry found
    rw [Table.get?_insert] at found
    rw [Table.get?_insert]
    split
    next => exact ⟨_, rfl⟩
    next other =>
      rw [if_neg other] at found
      exact released.leased id entry found
  · intro id entry found
    rw [Table.get?_insert] at found
    split at found
    next => cases found; exact List.mem_cons_self
    next => exact List.mem_cons_of_mem _ (released.leaseIssued id entry found)
  · intro other otherClaim holds
    rw [Function.update_apply] at holds
    split at holds
    next => cases holds; rw [token_eq]; exact List.mem_cons_self
    next => exact List.mem_cons_of_mem _ (fenced.claimIssued other otherClaim holds)
  · intro left right leftClaim rightClaim leftHolds rightHolds same
    rw [Function.update_apply] at leftHolds rightHolds
    split at leftHolds <;> split at rightHolds
    next leftHere rightHere => rw [leftHere, rightHere]
    next =>
      cases leftHolds
      rw [token_eq] at same
      exact absurd (same ▸ fenced.claimIssued right rightClaim rightHolds) fresh
    next =>
      cases rightHolds
      rw [token_eq] at same
      exact absurd (same ▸ fenced.claimIssued left leftClaim leftHolds) fresh
    next => exact fenced.owner left right leftClaim rightClaim leftHolds rightHolds same
  · intro other otherClaim entry after holds found mine afterStored
    rw [Function.update_apply] at holds
    split at holds
    next =>
      cases holds
      rw [Table.get?_insert_self] at afterStored
      cases afterStored
      exact ⟨le_refl _, fun _ => rfl⟩
    have known := fenced.claimIssued other otherClaim holds
    rw [Table.get?_insert] at found afterStored
    split at found
    next =>
      cases found
      dsimp only at mine
      exact absurd (mine ▸ known) fresh
    next different =>
      rw [if_neg different] at afterStored
      exact released.current other otherClaim entry after holds found mine afterStored

/-- A commit installed under the lease of its worker is what the worker holds
from then on. -/
theorem install {slot : Nat} {claim : Claim} {run : RunRecord} {entry : String × Lease}
    (fenced : Fenced store held issued) (holds : held slot = some claim)
    (found : store.runLeases.get? run.plan.id = some entry) (mine : entry.2.token = claim.token) :
    Fenced (installRun store run) (Function.update held slot
        (some { claim with run := { run with revision := run.revision + 1 } })) issued := by
  constructor
  · intro id entry found
    obtain ⟨before, beforeStored⟩ := fenced.leased id entry found
    by_cases here : id = run.plan.id
    · exact ⟨_, by rw [installRun, Table.get?_insert, if_pos here]⟩
    · exact ⟨before, by rw [installRun, Table.get?_insert, if_neg here]; exact beforeStored⟩
  · exact fenced.leaseIssued
  · intro other otherClaim otherHolds
    rw [Function.update_apply] at otherHolds
    split at otherHolds
    next => cases otherHolds; exact fenced.claimIssued slot claim holds
    next => exact fenced.claimIssued other otherClaim otherHolds
  · intro left right leftClaim rightClaim leftHolds rightHolds same
    rw [Function.update_apply] at leftHolds rightHolds
    split at leftHolds <;> split at rightHolds
    next leftHere rightHere => rw [leftHere, rightHere]
    next leftHere _ =>
      cases leftHolds
      rw [leftHere]
      exact fenced.owner slot right claim rightClaim holds rightHolds same
    next _ rightHere =>
      cases rightHolds
      rw [rightHere]
      exact fenced.owner left slot leftClaim claim leftHolds holds same
    next => exact fenced.owner left right leftClaim rightClaim leftHolds rightHolds same
  · intro other otherClaim otherEntry after otherHolds otherFound theirs afterStored
    rw [Function.update_apply] at otherHolds
    split at otherHolds
    next =>
      cases otherHolds
      rw [installRun, Table.get?_insert, if_pos rfl] at afterStored
      cases afterStored
      exact ⟨le_refl _, fun _ => rfl⟩
    rename_i different
    by_cases here : otherClaim.run.plan.id = run.plan.id
    · have sameEntry : some otherEntry = some entry := by
        rw [← otherFound, ← found, here]
        rfl
      cases sameEntry
      exact absurd (fenced.owner other slot otherClaim claim otherHolds holds
        (theirs.symm.trans mine)) different
    · rw [installRun, Table.get?_insert, if_neg here] at afterStored
      exact fenced.current other otherClaim otherEntry after otherHolds otherFound theirs
        afterStored

theorem drop (fenced : Fenced store held issued) (slot : Nat) :
    Fenced store (Function.update held slot none) issued := by
  have kept : ∀ other claim, Function.update held slot none other = some claim →
      held other = some claim := by
    intro other claim holds
    rw [Function.update_apply] at holds
    split at holds
    next => cases holds
    next => exact holds
  constructor
  · exact fenced.leased
  · exact fenced.leaseIssued
  · exact fun other claim holds => fenced.claimIssued other claim (kept other claim holds)
  · exact fun left right leftClaim rightClaim leftHolds rightHolds =>
      fenced.owner left right leftClaim rightClaim (kept left leftClaim leftHolds)
        (kept right rightClaim rightHolds)
  · exact fun other claim entry run holds =>
      fenced.current other claim entry run (kept other claim holds)

section Runs

variable {allowed : RunRecord → RunRecord → Prop} {admits : MemoryState → PreparedEvent → Prop}

/-- Every step of the clients keeps the fence. -/
theorem step (rule : AdmissionRule admits) {sys next : Clients} {call : Call}
    (fenced : Fenced sys.store sys.held sys.issued) (meets : call.Meets admits sys.store)
    (step : Step allowed sys call next) : Fenced next.store next.held next.issued := by
  cases step with
  | admitEvent result => exact fenced.advance (Advances.admit_ result (rule.idsAgree meets))
  | claimed fresh result =>
    obtain ⟨run, granted⟩ := claimRun_granted result
    exact fenced.grant _ fresh granted
  | unclaimed result empty =>
    rw [claimRun_not_granted result empty]
    exact fenced.advance (Advances.releaseExpired _ _)
  | committed holds submitted result =>
    obtain ⟨entry, stored, admitted, commit⟩ := commitRun_committed result
    rw [commit.reply_eq, commit.next_eq]
    exact ((fenced.install holds commit.lease commit.token).advance
      (Advances.admitAll rule commit.emits meets)).advance (Advances.releaseTerminal _ _)
  | refused holds submitted result =>
    rw [(commitRun_refused result).1]
    exact fenced
  | @requestCancel id now =>
    cases found : sys.store.runs.get? id with
    | none => simpa [Memory.requestCancel, found] using fenced
    | some run =>
      cases accepted : run.requestCancel now with
      | none => simpa [Memory.requestCancel, found, accepted] using fenced
      | some cancelled =>
        simpa [Memory.requestCancel, found, accepted] using
          fenced.advance (Advances.recordCancellation (Table.mem_of_get? found) accepted)
  | crash => exact fenced.drop _

theorem initial : Fenced Clients.initial.store Clients.initial.held Clients.initial.issued := by
  constructor <;> simp [Clients.initial, MemoryState.new, Leased]

theorem guardedRun (rule : AdmissionRule admits) {sys : Clients}
    (reached : GuardedRun allowed admits .initial sys) : Fenced sys.store sys.held sys.issued := by
  induction reached with
  | refl => exact initial
  | tail _ last ih =>
    obtain ⟨call, meets, step⟩ := last
    exact ih.step rule meets step

end Runs

end Fenced

end Mdbase.Runtime
