import Mdbase.Library.Slots
import Mdbase.Watch.Schedule

/-!
# Tickets never leak

The counter of the reserved slots counts the tickets that are not released. A ticket is given
back by whoever holds it last: by the worker, when it has answered or dropped the rescan, or by
the caller, when it returns and the worker does not know the rescan any more. A caller that
returns early leaves a command behind that has the worker release the ticket.
-/

namespace Mdbase.Watch

open Library (Everywhere changeAll)

/-- How many tickets are not released. -/
def unreleased (requests : List Request) : Nat :=
  requests.countP fun request => !request.ticket.released

theorem Request.release_release (request : Request) :
    request.release.release = request.release := rfl

variable {request : Request}

theorem Request.release_of_released
    (released : request.ticket.released = true) : request.release = request := by
  obtain ⟨paths, phase, id, ⟨cancelled, _⟩, enqueuedAt, reply⟩ := request
  cases released
  rfl

theorem Request.deliver_deliver (result : ReconciliationResult) (clock : Nat) (request : Request) :
    (request.deliver result clock).deliver result clock = request.deliver result clock := by
  unfold deliver
  cases cancelled : request.ticket.cancelled with
  | true | false => simp [cancelled]

theorem Request.deliver_ticket (result : ReconciliationResult) (clock : Nat)
    (request : Request) : (request.deliver result clock).ticket = request.ticket := by
  unfold deliver
  split <;> rfl

theorem Request.deliver_phase (result : ReconciliationResult) (clock : Nat)
    (request : Request) : (request.deliver result clock).phase = request.phase := by
  unfold deliver
  split <;> rfl

theorem Request.deliver_id (result : ReconciliationResult) (clock : Nat) (request : Request) :
    (request.deliver result clock).id = request.id := by
  unfold deliver
  split <;> rfl

theorem Request.deliver_enqueuedAt (result : ReconciliationResult) (clock : Nat)
    (request : Request) :
    (request.deliver result clock).enqueuedAt = request.enqueuedAt := by
  unfold deliver
  split <;> rfl

theorem releaseSlot_snd (slots : Nat × List Request) (index : Nat) :
    (releaseSlot slots index).2 = slots.2.modify index Request.release := by
  unfold releaseSlot
  split
  next request here =>
    split
    next released =>
      refine List.ext_getElem? fun other => ?_
      rw [List.getElem?_modify]
      by_cases same : index = other
      · subst same
        simp [here, Request.release_of_released released]
      · simp [same]
    next => rfl
  next missing => rw [List.modify_eq_self (List.getElem?_eq_none_iff.mp missing)]

variable {slots : Nat × List Request}

theorem releaseSlot_counted (counted : slots.1 = unreleased slots.2) (index : Nat) :
    (releaseSlot slots index).1 = unreleased (releaseSlot slots index).2 := by
  rw [releaseSlot_snd]
  unfold releaseSlot
  split
  next request here =>
    split
    next released =>
      rw [counted, unreleased, unreleased, Library.countP_modify_of_same]
      intro slot found
      cases here.symm.trans found
      rw [Request.release_of_released released]
    next held =>
      rw [unreleased, Library.countP_modify_of_lost here (by simpa using held) rfl, counted,
        unreleased]
  next missing => rw [List.modify_eq_self (List.getElem?_eq_none_iff.mp missing), counted]

theorem releaseSlot_fst_le (slots : Nat × List Request) (index : Nat) :
    (releaseSlot slots index).1 ≤ slots.1 := by
  unfold releaseSlot
  split
  next =>
    split
    next => exact Nat.le_refl _
    next => exact Nat.sub_le _ _
  next => exact Nat.le_refl _

theorem foldl_releaseSlot_snd (slots : Nat × List Request) (indices : List Nat) :
    (indices.foldl releaseSlot slots).2 = changeAll Request.release slots.2 indices := by
  induction indices generalizing slots with
  | nil => rfl
  | cons index indices ih =>
    rw [List.foldl_cons, ih, releaseSlot_snd]
    rfl

theorem foldl_releaseSlot_counted (indices : List Nat) (counted : slots.1 = unreleased slots.2) :
    (indices.foldl releaseSlot slots).1 = unreleased (indices.foldl releaseSlot slots).2 := by
  induction indices generalizing slots with
  | nil => exact counted
  | cons index indices ih => exact ih (releaseSlot_counted counted index)

theorem foldl_releaseSlot_fst_le (slots : Nat × List Request) (indices : List Nat) :
    (indices.foldl releaseSlot slots).1 ≤ slots.1 := by
  induction indices generalizing slots with
  | nil => exact Nat.le_refl _
  | cons index indices ih =>
    exact (ih (releaseSlot slots index)).trans (releaseSlot_fst_le slots index)

namespace WatchState

theorem requests_releaseAll (state : WatchState) (indices : List Nat) :
    (state.releaseAll indices).requests = changeAll Request.release state.requests indices :=
  foldl_releaseSlot_snd _ _

theorem requests_finishPendingRescans (state : WatchState) (result : ReconciliationResult) :
    (state.finishPendingRescans result).requests =
      changeAll (Request.deliver result state.clock)
        (state.releaseAll (state.worker.pendingRescans.map PendingRescan.request)).requests
        (state.worker.pendingRescans.map PendingRescan.request) := rfl

end WatchState

/-- The worker forgets who waits. -/
def WatchState.dropWaiters (state : WatchState) : WatchState :=
  { state with worker := { state.worker with pendingRescans := [] } }

/-- The caller has not sent its command. -/
def RequestPhase.isEarly : RequestPhase → Bool
  | .reserved | .claimed | .advanced | .poisoning => true
  | .waiting | .cancelling | .returned => false

/-- A request whose command is not sent. -/
structure Request.Untouched (request : Request) : Prop where
  ticket : request.ticket = ⟨false, false⟩
  enqueuedAt : request.enqueuedAt = none
  reply : request.reply = none

/-- A request that the worker has, or will have. -/
structure Request.AwaitsWorker (request : Request) (id : Nat) : Prop where
  claimed : request.id = some id
  unreleased : request.ticket.released = false
  silent : request.reply = none
  phase : request.phase = .waiting ∨
    (request.phase = .cancelling ∨ request.phase = .returned) ∧ request.ticket.cancelled = true

theorem Request.AwaitsWorker.late {id : Nat}
    (awaits : request.AwaitsWorker id) : request.phase.isEarly = false := by
  rcases awaits.phase with waiting | ⟨cancelling | returned, -⟩
  · rw [waiting]
    rfl
  · rw [cancelling]
    rfl
  · rw [returned]
    rfl

/-- The ledger of the tickets, up to requests whose tickets are about to be released. -/
structure WatchState.Kept (state : WatchState) (loose : List Nat) : Prop where
  counted : state.pendingRescans = unreleased state.requests
  bounded : state.pendingRescans ≤ maxPendingRescans
  early : Everywhere (fun _ request => request.phase.isEarly = true → request.Untouched)
    state.requests
  replied : Everywhere (fun _ request => request.reply.isSome = true →
    request.ticket.released = true) state.requests
  issued : Everywhere (fun _ request => ∀ id, request.id = some id → id < state.nextRescanId)
    state.requests
  distinct : ∀ {first second : Nat} {one other : Request} {id : Nat},
    state.requests[first]? = some one → state.requests[second]? = some other →
      one.id = some id → other.id = some id → first = second
  nodup : (state.held.map PendingRescan.request).Nodup
  sent : ∀ pending ∈ state.held, ∃ request, state.requests[pending.request]? = some request ∧
    request.AwaitsWorker pending.id
  returned : Everywhere (fun index request => request.phase = .returned →
    request.ticket.released = false → index ∈ loose ∨ ∃ pending ∈ state.held,
      pending.request = index) state.requests
  cancelled : ∀ pending ∈ state.worker.pendingRescans, ∀ request,
    state.requests[pending.request]? = some request → request.phase = .returned →
      .command (.cancelRescan pending.id) ∈ state.inputs
  stopped : state.isStopped = true → state.inputs = [] ∧ state.worker.pendingRescans = []

namespace WatchState.Kept

variable {state after : WatchState} {loose : List Nat}

/-- The ledger is kept by a change that only drops held requests which are released later. -/
theorem of_fewer (kept : state.Kept []) (counter : after.pendingRescans = state.pendingRescans)
    (requests : after.requests = state.requests)
    (next : after.nextRescanId = state.nextRescanId)
    (fewer : after.held.Subperm state.held)
    (dropped : ∀ pending ∈ state.held, ∀ request,
      state.requests[pending.request]? = some request → request.phase = .returned →
        pending ∈ after.held ∨ pending.request ∈ loose)
    (cancelled : ∀ pending ∈ after.worker.pendingRescans, ∀ request,
      state.requests[pending.request]? = some request → request.phase = .returned →
        .command (.cancelRescan pending.id) ∈ after.inputs)
    (stopped : after.isStopped = true → after.inputs = [] ∧ after.worker.pendingRescans = []) :
    after.Kept loose where
  counted := by rw [counter, requests, kept.counted]
  bounded := by
    rw [counter]
    exact kept.bounded
  early := by
    rw [requests]
    exact kept.early
  replied := by
    rw [requests]
    exact kept.replied
  issued := by
    rw [requests, next]
    exact kept.issued
  distinct := by
    rw [requests]
    exact kept.distinct
  nodup := by
    obtain ⟨sub, perm, sublist⟩ := fewer
    exact (perm.map _).nodup_iff.mp (kept.nodup.sublist (sublist.map _))
  sent := by
    rw [requests]
    exact fun pending member => kept.sent pending (fewer.subset member)
  returned := by
    rw [requests]
    intro index request here returned unreleased
    rcases kept.returned index request here returned unreleased with none | ⟨pending, held, rfl⟩
    · cases none
    · exact (dropped pending held request here returned).symm.imp_right fun still =>
        ⟨pending, still, rfl⟩
  cancelled := by
    rw [requests]
    exact cancelled
  stopped := stopped

/-- The ledger is kept by a change that touches no request. -/
theorem of_frame (kept : state.Kept []) (counter : after.pendingRescans = state.pendingRescans)
    (requests : after.requests = state.requests)
    (next : after.nextRescanId = state.nextRescanId)
    (waiters : after.worker.pendingRescans = state.worker.pendingRescans)
    (queued : after.inputs.filterMap WorkerInput.pending? =
      state.inputs.filterMap WorkerInput.pending?)
    (cancels : ∀ id, .command (.cancelRescan id) ∈ state.inputs →
      .command (.cancelRescan id) ∈ after.inputs)
    (stopped : after.isStopped = true → state.isStopped = true ∧ after.inputs = state.inputs) :
    after.Kept [] := by
  have held : after.held = state.held := by rw [WatchState.held, WatchState.held, queued, waiters]
  refine kept.of_fewer counter requests next ?_ ?_ ?_ ?_
  · rw [held]
  · rw [held]
    exact fun pending member _ _ _ => .inl member
  · rw [waiters]
    exact fun pending member request here returned =>
      cancels pending.id (kept.cancelled pending member request here returned)
  · intro ended
    obtain ⟨before, inputs⟩ := stopped ended
    rw [inputs, waiters]
    exact kept.stopped before

theorem send (kept : state.Kept []) {input : WorkerInput} (other : input.pending? = none) :
    (state.send input).Kept [] := by
  unfold WatchState.send
  cases stopped : state.isStopped with
  | true => exact kept.of_frame rfl rfl rfl rfl rfl (fun _ => id) fun _ => ⟨stopped, rfl⟩
  | false =>
    refine kept.of_frame rfl rfl rfl rfl ?_ ?_ fun ended => ?_
    · simp [other]
    · exact fun id member => List.mem_append_left _ member
    · exact Bool.noConfusion (stopped.symm.trans ended)

variable {input : WorkerInput} {rest : List WorkerInput}

theorem skip (kept : state.Kept [])
    (next : state.inputs = input :: rest) (running : state.isStopped = false)
    (other : input.pending? = none) (lasting : ∀ id, input ≠ .command (.cancelRescan id)) :
    ({ state with inputs := rest }).Kept [] := by
  refine kept.of_frame rfl rfl rfl rfl ?_ ?_ fun ended => ?_
  · simp [next, other]
  · intro id member
    rw [next] at member
    rcases List.mem_cons.mp member with here | later
    · exact absurd here.symm (lasting id)
    · exact later
  · exact Bool.noConfusion (running.symm.trans ended)

variable {request : Request} {change : Request → Request}

/-- The ledger is kept by a change of one request that keeps its ticket and its reply. -/
theorem modifyRequest (kept : state.Kept loose) {index next : Nat}
    (here : state.requests[index]? = some request)
    (grown : state.nextRescanId ≤ next)
    (ticket : (change request).ticket.released = request.ticket.released)
    (reply : (change request).reply = request.reply)
    (early : (change request).phase.isEarly = true → (change request).Untouched)
    (claims : ∀ id, (change request).id = some id →
      request.id = some id ∨ state.nextRescanId ≤ id ∧ id < next)
    (waits : ∀ pending ∈ state.held, pending.request = index →
      (change request).AwaitsWorker pending.id)
    (returned : (change request).phase = .returned → index ∈ loose ∨
      ∃ pending ∈ state.held, pending.request = index)
    (cancelled : ∀ pending ∈ state.worker.pendingRescans, pending.request = index →
      (change request).phase = .returned → .command (.cancelRescan pending.id) ∈ state.inputs) :
    ({ state with nextRescanId := next }.modifyRequest index change).Kept loose where
  counted := by
    refine kept.counted.trans (Library.countP_modify_of_same _ _ ?_).symm
    intro slot found
    cases here.symm.trans found
    rw [ticket]
  bounded := kept.bounded
  early := by
    refine kept.early.modify ?_
    intro slot found
    cases here.symm.trans found
    exact early
  replied := by
    refine kept.replied.modify ?_
    intro slot found
    cases here.symm.trans found
    rw [ticket, reply]
    exact kept.replied index request here
  issued := by
    refine Everywhere.modify (kept.issued.imp ?_) ?_
    · exact fun _ _ _ issued id claimed => (issued id claimed).trans_le grown
    · intro slot found id claimed
      cases here.symm.trans found
      rcases claims id claimed with old | new
      · exact (kept.issued index request here id old).trans_le grown
      · exact new.2
  distinct := by
    -- Only the changed request may have a new id, and no other request has that one.
    have older {other : Nat} {slot : Request} {id : Nat} (different : index ≠ other)
        (found : state.requests[other]? = some slot) (claimed : slot.id = some id) :
        (change request).id ≠ some id := by
      intro same
      rcases claims id same with old | new
      · exact different (kept.distinct here found old claimed)
      · exact absurd (kept.issued other slot found id claimed) (Nat.not_lt.mpr new.1)
    intro first second one other id atFirst atSecond oneId otherId
    obtain ⟨one', foundOne, rfl⟩ :=
      Option.map_eq_some_iff.mp ((List.getElem?_modify ..).symm.trans atFirst)
    obtain ⟨other', foundOther, rfl⟩ :=
      Option.map_eq_some_iff.mp ((List.getElem?_modify ..).symm.trans atSecond)
    by_cases isFirst : index = first
    · subst isFirst
      by_contra different
      cases here.symm.trans foundOne
      rw [if_pos rfl] at oneId
      rw [if_neg different] at otherId
      exact older different foundOther otherId oneId
    · rw [if_neg isFirst] at oneId
      by_cases isSecond : index = second
      · subst isSecond
        cases here.symm.trans foundOther
        rw [if_pos rfl] at otherId
        exact absurd otherId (older isFirst foundOne oneId)
      · rw [if_neg isSecond] at otherId
        exact kept.distinct foundOne foundOther oneId otherId
  nodup := kept.nodup
  sent := by
    intro pending member
    obtain ⟨before, found, awaits⟩ := kept.sent pending member
    refine ⟨_, (List.getElem?_modify ..).trans (congrArg _ found), ?_⟩
    split
    next same =>
      subst same
      cases here.symm.trans found
      exact waits pending member rfl
    next => exact awaits
  returned := by
    refine kept.returned.modify ?_
    intro slot found over_ _
    cases here.symm.trans found
    exact returned over_
  cancelled := by
    intro pending member slot found over_
    obtain ⟨before, foundBefore, rfl⟩ :=
      Option.map_eq_some_iff.mp ((List.getElem?_modify ..).symm.trans found)
    by_cases same : index = pending.request
    · rw [if_pos same] at over_
      cases here.symm.trans (same ▸ foundBefore)
      exact cancelled pending member same.symm over_
    · rw [if_neg same] at over_
      exact kept.cancelled pending member before foundBefore over_
  stopped := kept.stopped

variable {indices : List Nat}

/-- The ledger is kept by an idempotent change of requests that no queue holds. -/
theorem changeRequests (kept : state.Kept loose) (after : WatchState)
    (idempotent : ∀ request, change (change request) = change request)
    (requests : after.requests = changeAll change state.requests indices)
    (counted : after.pendingRescans = unreleased after.requests)
    (bounded : after.pendingRescans ≤ maxPendingRescans)
    (next : after.nextRescanId = state.nextRescanId) (inputs : after.inputs = state.inputs)
    (worker : after.worker = state.worker)
    (id : ∀ request, (change request).id = request.id)
    (phase : ∀ request, (change request).phase = request.phase)
    (apart : ∀ pending ∈ state.held, pending.request ∉ indices)
    (late : ∀ index ∈ indices, ∀ request, state.requests[index]? = some request →
      request.phase.isEarly = false)
    {fewer : List Nat}
    (returned : ∀ index request, state.requests[index]? = some request →
      request.phase = .returned → request.ticket.released = false → index ∉ indices →
        index ∈ loose → index ∈ fewer)
    (released : ∀ index ∈ indices, ∀ request, state.requests[index]? = some request →
      (change request).ticket.released = true) :
    after.Kept fewer := by
  have held : after.held = state.held := by rw [WatchState.held, WatchState.held, inputs, worker]
  have back {index : Nat} {slot : Request} (here : after.requests[index]? = some slot) :
      ∃ request, state.requests[index]? = some request ∧
        slot = if index ∈ indices then change request else request := by
    rw [requests, Library.getElem?_changeAll idempotent] at here
    obtain ⟨request, found, same⟩ := Option.map_eq_some_iff.mp here
    exact ⟨request, found, same.symm⟩
  have sameId {index : Nat} {request : Request} :
      (if index ∈ indices then change request else request).id = request.id := by
    split
    next => exact id request
    next => rfl
  have samePhase {index : Nat} {request : Request} :
      (if index ∈ indices then change request else request).phase = request.phase := by
    split
    next => exact phase request
    next => rfl
  constructor
  case counted => exact counted
  case bounded => exact bounded
  case early =>
    intro index slot here early
    obtain ⟨request, found, rfl⟩ := back here
    rw [samePhase] at early
    have outside : index ∉ indices := fun inside =>
      Bool.noConfusion ((late index inside request found).symm.trans early)
    rw [if_neg outside]
    exact kept.early index request found early
  case replied =>
    intro index slot here replied
    obtain ⟨request, found, rfl⟩ := back here
    split
    next inside => exact released index inside request found
    next outside =>
      rw [if_neg outside] at replied
      exact kept.replied index request found replied
  case issued =>
    intro index slot here id claimed
    obtain ⟨request, found, rfl⟩ := back here
    rw [next]
    exact kept.issued index request found id (sameId ▸ claimed)
  case distinct =>
    intro first second one other id atFirst atSecond oneId otherId
    obtain ⟨one, foundOne, rfl⟩ := back atFirst
    obtain ⟨other, foundOther, rfl⟩ := back atSecond
    exact kept.distinct foundOne foundOther (sameId ▸ oneId) (sameId ▸ otherId)
  case nodup =>
    rw [held]
    exact kept.nodup
  case sent =>
    rw [held]
    intro pending member
    obtain ⟨request, found, awaits⟩ := kept.sent pending member
    refine ⟨request, ?_, awaits⟩
    rw [requests, Library.getElem?_changeAll idempotent, found, Option.map_some,
      if_neg (apart pending member)]
  case returned =>
    rw [held]
    intro index slot here over_ unreleased
    obtain ⟨request, found, rfl⟩ := back here
    rw [samePhase] at over_
    by_cases inside : index ∈ indices
    · rw [if_pos inside] at unreleased
      exact Bool.noConfusion ((released index inside request found).symm.trans unreleased)
    · rw [if_neg inside] at unreleased
      exact (kept.returned index request found over_ unreleased).imp_left
        (returned index request found over_ unreleased inside)
  case cancelled =>
    rw [worker, inputs]
    intro pending member slot here over_
    obtain ⟨request, found, rfl⟩ := back here
    exact kept.cancelled pending member request found (samePhase ▸ over_)
  case stopped =>
    rw [WatchState.isStopped, worker, inputs]
    exact kept.stopped

theorem releaseAll (kept : state.Kept loose)
    (covers : ∀ index request, state.requests[index]? = some request →
      request.phase = .returned → index ∈ loose → index ∈ indices)
    (apart : ∀ pending ∈ state.held, pending.request ∉ indices)
    (late : ∀ index ∈ indices, ∀ request, state.requests[index]? = some request →
      request.phase.isEarly = false) : (state.releaseAll indices).Kept [] := by
  refine kept.changeRequests _ Request.release_release (state.requests_releaseAll indices) ?_ ?_
    rfl rfl rfl (fun _ => rfl) (fun _ => rfl) apart late ?_ fun _ _ _ _ => rfl
  · exact foldl_releaseSlot_counted indices kept.counted
  · exact (foldl_releaseSlot_fst_le _ indices).trans kept.bounded
  · exact fun index request found over_ _ outside inside =>
      absurd (covers index request found over_ inside) outside

theorem deliver (kept : state.Kept []) (result : ReconciliationResult)
    (apart : ∀ pending ∈ state.held, pending.request ∉ indices)
    (late : ∀ index ∈ indices, ∀ request, state.requests[index]? = some request →
      request.phase.isEarly = false)
    (released : ∀ index ∈ indices, ∀ request, state.requests[index]? = some request →
      request.ticket.released = true) :
    ({ state with
        requests := changeAll (Request.deliver result state.clock) state.requests
          indices }).Kept [] := by
  refine kept.changeRequests
    { state with requests := changeAll (Request.deliver result state.clock) state.requests indices }
    (Request.deliver_deliver result state.clock) rfl ?_ kept.bounded rfl rfl rfl
    (Request.deliver_id result state.clock) (Request.deliver_phase result state.clock)
    apart late (fun _ _ _ _ _ _ none => by cases none) ?_
  · refine kept.counted.trans (Library.countP_changeAll_of_same _ _ fun request => ?_).symm
    rw [Request.deliver_ticket]
  · intro index inside request found
    rw [Request.deliver_ticket]
    exact released index inside request found

theorem weaken (kept : state.Kept []) (loose : List Nat) : state.Kept loose :=
  { kept with
    returned := fun index request here returned unreleased =>
      (kept.returned index request here returned unreleased).imp_left nofun }

variable {pending : PendingRescan}

theorem late (kept : state.Kept loose) (member : pending ∈ state.held)
    (here : state.requests[pending.request]? = some request) :
    request.phase.isEarly = false := by
  obtain ⟨other, found, awaits⟩ := kept.sent pending member
  cases here.symm.trans found
  exact awaits.late

variable {index : Nat}

theorem unsent (kept : state.Kept loose)
    (here : state.requests[index]? = some request) (early : request.phase.isEarly = true) :
    ∀ pending ∈ state.held, pending.request ≠ index := by
  rintro pending member rfl
  exact Bool.noConfusion ((kept.late member here).symm.trans early)

theorem answered (kept : state.Kept loose)
    (here : state.requests[index]? = some request) (replied : request.reply.isSome) :
    ∀ pending ∈ state.held, pending.request ≠ index := by
  rintro pending member rfl
  obtain ⟨other, found, awaits⟩ := kept.sent pending member
  cases here.symm.trans found
  rw [awaits.silent] at replied
  cases replied

theorem reserve (kept : state.Kept []) (paths : Option (List String))
    (free : state.pendingRescans < maxPendingRescans) :
    ({ state with
        pendingRescans := state.pendingRescans + 1
        requests := state.requests ++ [Request.new paths] }).Kept [] where
  counted := by
    rw [kept.counted]
    simp [unreleased, Request.new]
  bounded := free
  early := kept.early.append fun _ => ⟨rfl, rfl, rfl⟩
  replied := kept.replied.append nofun
  issued := kept.issued.append nofun
  distinct := by
    intro first second one other id atFirst atSecond oneId otherId
    rcases Library.of_getElem?_append atFirst with oldOne | ⟨-, rfl⟩
    · rcases Library.of_getElem?_append atSecond with oldOther | ⟨-, rfl⟩
      · exact kept.distinct oldOne oldOther oneId otherId
      · cases otherId
    · cases oneId
  nodup := kept.nodup
  sent := by
    intro pending member
    obtain ⟨request, found, awaits⟩ := kept.sent pending member
    exact ⟨request, Library.getElem?_append_of_some found _, awaits⟩
  returned := kept.returned.append nofun
  cancelled := by
    intro pending member request here over_
    rcases Library.of_getElem?_append here with old | ⟨-, rfl⟩
    · exact kept.cancelled pending member request old over_
    · cases over_
  stopped := kept.stopped

theorem sendRescan (kept : state.Kept []) (carried : input.pending? = some pending)
    (running : state.isStopped = false) (here : state.requests[pending.request]? = some request)
    (awaits : request.AwaitsWorker pending.id)
    (unsent : ∀ other ∈ state.held, other.request ≠ pending.request) :
    (state.send input).Kept [] := by
  have inputs : (state.send input).inputs = state.inputs ++ [input] := by
    rw [WatchState.send, running]
    rfl
  have held : (state.send input).held.Perm (pending :: state.held) := by
    rw [WatchState.held, inputs, List.filterMap_append, List.filterMap_cons_some carried,
      List.filterMap_nil, List.append_assoc]
    exact List.perm_middle
  constructor
  case counted => exact kept.counted
  case bounded => exact kept.bounded
  case early => exact kept.early
  case replied => exact kept.replied
  case issued => exact kept.issued
  case distinct => exact kept.distinct
  case nodup =>
    refine (held.map _).nodup_iff.mpr (List.nodup_cons.mpr ⟨?_, kept.nodup⟩)
    intro member
    obtain ⟨other, heldOther, same⟩ := List.mem_map.mp member
    exact unsent other heldOther same
  case sent =>
    intro other member
    rcases List.mem_cons.mp (held.mem_iff.mp member) with rfl | old
    · exact ⟨request, here, awaits⟩
    · exact kept.sent other old
  case returned =>
    intro index slot found over_ unreleased
    refine (kept.returned index slot found over_ unreleased).imp_right ?_
    rintro ⟨other, old, same⟩
    exact ⟨other, held.mem_iff.mpr (List.mem_cons_of_mem _ old), same⟩
  case cancelled =>
    intro other member slot found over_
    rw [inputs]
    exact List.mem_append_left _ (kept.cancelled other member slot found over_)
  case stopped => exact fun ended => Bool.noConfusion (running.symm.trans ended)

/-- The ledger is kept when a caller returns. -/
theorem returnRequest (kept : state.Kept []) (here : state.requests[index]? = some request)
    (told : ∀ pending ∈ state.held, pending.request = index →
      request.ticket.cancelled = true ∧ (pending ∈ state.worker.pendingRescans →
        .command (.cancelRescan pending.id) ∈ state.inputs)) :
    (state.returnRequest index).Kept [] := by
  have back {loose : List Nat} (tidy : state.Kept loose)
      (returned : index ∈ loose ∨ ∃ pending ∈ state.held, pending.request = index) :
      (state.modifyRequest index fun request => { request with phase := .returned }).Kept
        loose := by
    refine tidy.modifyRequest here (Nat.le_refl _) rfl rfl nofun (fun _ => .inl) ?_
      (fun _ => returned) ?_
    · intro pending member same
      subst same
      obtain ⟨other, found, awaits⟩ := kept.sent pending member
      cases here.symm.trans found
      exact ⟨awaits.claimed, awaits.unreleased, awaits.silent,
        .inr ⟨.inr rfl, (told pending member rfl).1⟩⟩
    · intro pending member same _
      exact (told pending (List.mem_append_right _ member) same).2 member
  unfold WatchState.returnRequest
  split
  next held =>
    obtain ⟨pending, member, same⟩ := List.any_eq_true.mp held
    exact back kept (.inr ⟨pending, member, of_decide_eq_true same⟩)
  rename_i dropped
  have gone : ∀ pending ∈ state.held, pending.request ≠ index := fun pending member same =>
    dropped (List.any_eq_true.mpr ⟨pending, member, decide_eq_true same⟩)
  refine (back (kept.weaken [index]) (.inl List.mem_cons_self)).releaseAll ?_ ?_ ?_
  · exact fun _ _ _ _ inside => inside
  · exact fun pending member inside => gone pending member (List.mem_singleton.mp inside)
  · intro other inside slot found
    cases List.mem_singleton.mp inside
    obtain ⟨before, -, rfl⟩ :=
      Option.map_eq_some_iff.mp ((List.getElem?_modify ..).symm.trans found)
    rw [if_pos rfl]
    rfl

theorem waiters_apart (kept : state.Kept loose) :
    ∀ pending ∈ state.inputs.filterMap WorkerInput.pending?,
      pending.request ∉ state.worker.pendingRescans.map PendingRescan.request := by
  intro pending queued inside
  have nodup := kept.nodup
  rw [WatchState.held, List.map_append, List.nodup_append] at nodup
  exact nodup.2.2 _ (List.mem_map_of_mem queued) _ inside rfl

/-- The ledger is kept when the waiters are answered. -/
theorem finishPendingRescans (kept : state.Kept []) (result : ReconciliationResult) :
    (state.finishPendingRescans result).Kept [] := by
  let indices := state.worker.pendingRescans.map PendingRescan.request
  have late : ∀ index ∈ indices, ∀ request, state.requests[index]? = some request →
      request.phase.isEarly = false := by
    intro index inside request found
    obtain ⟨pending, member, rfl⟩ := List.mem_map.mp inside
    exact kept.late (List.mem_append_right _ member) found
  have held : state.dropWaiters.held = state.inputs.filterMap WorkerInput.pending? :=
    List.append_nil _
  have dropped : state.dropWaiters.Kept indices := by
    refine kept.of_fewer rfl rfl rfl ?_ ?_ nofun ?_
    · rw [held]
      exact (List.sublist_append_left _ _).subperm
    · intro pending member request found over_
      rw [held]
      rcases List.mem_append.mp member with queued | waits
      · exact .inl queued
      · exact .inr (List.mem_map_of_mem waits)
    · exact fun ended => ⟨(kept.stopped ended).1, rfl⟩
  have apart : ∀ pending ∈ state.dropWaiters.held, pending.request ∉ indices := by
    rw [held]
    exact kept.waiters_apart
  have released := dropped.releaseAll (fun _ _ _ _ inside => inside) apart late
  have found {index : Nat} {request : Request} (inside : index ∈ indices)
      (here : (state.dropWaiters.releaseAll indices).requests[index]? = some request) :
      ∃ before, state.requests[index]? = some before ∧ request = before.release := by
    rw [WatchState.requests_releaseAll, Library.getElem?_changeAll Request.release_release] at here
    obtain ⟨before, old, same⟩ := Option.map_eq_some_iff.mp here
    rw [if_pos inside] at same
    exact ⟨before, old, same.symm⟩
  refine released.deliver result apart ?_ ?_
  · intro index inside request here
    obtain ⟨before, old, rfl⟩ := found inside here
    exact late index inside before old
  · intro index inside request here
    obtain ⟨before, -, rfl⟩ := found inside here
    rfl

theorem failWork (kept : state.Kept []) : state.failWork.Kept [] :=
  (kept.finishPendingRescans (.error .revisionExhausted)).of_frame rfl rfl rfl rfl rfl
    (fun _ => id) fun ended => ⟨ended, rfl⟩

theorem stop (kept : state.Kept []) : state.stop.Kept [] := by
  have loosened : ({ state with
      inputs := []
      worker := { state.worker with pendingRescans := [], phase := .stopped } }).Kept
        ((state.held.map PendingRescan.request).filter fun index =>
          (state.requests[index]?).any fun request : Request =>
            decide (request.phase = RequestPhase.returned)) := by
    refine kept.of_fewer rfl rfl rfl (List.nil_subperm) ?_ nofun fun _ => ⟨rfl, rfl⟩
    intro pending member request found over_
    refine .inr (List.mem_filter.mpr ⟨List.mem_map_of_mem member, ?_⟩)
    rw [found]
    exact decide_eq_true over_
  refine loosened.releaseAll (fun _ _ _ _ inside => inside) nofun ?_
  intro index inside request found
  obtain ⟨pending, member, rfl⟩ := List.mem_map.mp (List.mem_filter.mp inside).1
  exact kept.late member found

section Take

variable {input : WorkerInput} {rest : List WorkerInput} {pending : PendingRescan}

theorem held_cons (next : state.inputs = input :: rest) (carried : input.pending? = some pending) :
    state.held = pending :: ({ state with inputs := rest }).held := by
  rw [WatchState.held, next, List.filterMap_cons_some carried]
  rfl

theorem takeCancelled (kept : state.Kept []) (next : state.inputs = input :: rest)
    (running : state.isStopped = false) (carried : input.pending? = some pending)
    (uncancelled : ∀ id, input ≠ .command (.cancelRescan id)) :
    (({ state with inputs := rest }).releaseAll [pending.request]).Kept [] := by
  have held := held_cons next carried
  have nodup := kept.nodup
  rw [held, List.map_cons, List.nodup_cons] at nodup
  have loosened : ({ state with inputs := rest }).Kept [pending.request] := by
    refine kept.of_fewer rfl rfl rfl ?_ ?_ ?_ ?_
    · rw [held]
      exact (List.sublist_cons_self _ _).subperm
    · rw [held]
      intro other member request found over_
      rcases List.mem_cons.mp member with rfl | later
      · exact .inr List.mem_cons_self
      · exact .inl later
    · intro other member request found over_
      have sent := kept.cancelled other member request found over_
      rw [next] at sent
      exact (List.mem_cons.mp sent).resolve_left fun same => uncancelled _ same.symm
    · exact fun ended => Bool.noConfusion (running.symm.trans ended)
  refine loosened.releaseAll (fun _ _ _ _ inside => inside) ?_ ?_
  · intro other member inside
    exact nodup.1 (List.mem_singleton.mp inside ▸ List.mem_map_of_mem member)
  · intro index inside request found
    cases List.mem_singleton.mp inside
    exact kept.late (held ▸ List.mem_cons_self) found

theorem takeRescan (kept : state.Kept []) (next : state.inputs = input :: rest)
    (carried : input.pending? = some pending)
    (uncancelled : ∀ id, input ≠ .command (.cancelRescan id))
    (active : ∀ request, state.requests[pending.request]? = some request →
      request.ticket.cancelled = false) {worker : Worker}
    (waiters : worker.pendingRescans = state.worker.pendingRescans ++ [pending])
    (running : worker.phase ≠ .stopped) :
    ({ state with inputs := rest, worker := worker }).Kept [] := by
  have held := held_cons next carried
  have perm : ({ state with inputs := rest, worker := worker }).held.Perm state.held := by
    rw [held, WatchState.held, WatchState.held, waiters, ← List.append_assoc]
    exact List.perm_append_singleton _ _
  refine kept.of_fewer rfl rfl rfl perm.subperm ?_ ?_ ?_
  · exact fun other member _ _ _ => .inl (perm.mem_iff.mpr member)
  · intro other member request found over_
    rw [waiters] at member
    rcases List.mem_append.mp member with old | new
    · have sent := kept.cancelled other old request found over_
      rw [next] at sent
      exact (List.mem_cons.mp sent).resolve_left fun same => uncancelled _ same.symm
    · -- The caller returns from a rescan that it has cancelled.
      cases List.mem_singleton.mp new
      obtain ⟨sent, here, awaits⟩ := kept.sent pending (held ▸ List.mem_cons_self)
      cases found.symm.trans here
      have still := active request here
      rcases awaits.phase with waiting | ⟨-, cancelled⟩
      · rw [waiting] at over_
        cases over_
      · exact Bool.noConfusion (still.symm.trans cancelled)
  · exact fun ended => absurd (of_decide_eq_true ended) running

/-- Taking a cancellation keeps the ledger of the tickets. -/
theorem takeCancellation (kept : state.Kept []) {id : Nat}
    (next : state.inputs = .command (.cancelRescan id) :: rest)
    (running : state.isStopped = false) :
    (({ state with inputs := rest }).cancelPending id).Kept [] := by
  have queued : state.inputs.filterMap WorkerInput.pending? =
      rest.filterMap WorkerInput.pending? := by
    rw [next]
    rfl
  have later {other : PendingRescan} (different : other.id ≠ id)
      (sent : .command (.cancelRescan other.id) ∈ state.inputs) :
      .command (.cancelRescan other.id) ∈ rest := by
    rw [next] at sent
    rcases List.mem_cons.mp sent with same | member
    · cases same
      exact absurd rfl different
    · exact member
  unfold WatchState.cancelPending
  dsimp only
  cases found : state.worker.pendingRescans.find? fun pending => pending.id = id with
  | none =>
    have others := List.find?_eq_none.mp found
    have same : state.worker.pendingRescans.eraseP (fun pending => pending.id = id) =
        state.worker.pendingRescans := List.eraseP_of_forall_not others
    refine kept.of_fewer rfl rfl rfl ?_ ?_ ?_ fun ended =>
      Bool.noConfusion (running.symm.trans ended)
    · exact (List.Perm.of_eq (congrArg₂ (· ++ ·) queued.symm same)).subperm
    · intro other member _ _ _
      rw [WatchState.held, queued, ← same] at member
      exact .inl member
    · intro other member request here over_
      replace member := same ▸ member
      exact later (by simpa using others other member)
        (kept.cancelled other member request here over_)
  | some pending =>
    obtain ⟨matches_, before, behind, waiters, first⟩ := List.find?_eq_some_iff_append.mp found
    have erased : state.worker.pendingRescans.eraseP (fun pending => pending.id = id) =
        before ++ behind := by
      rw [waiters, List.eraseP_append_right _ (by simpa using first),
        List.eraseP_cons_of_pos (p := fun pending : PendingRescan => decide (pending.id = id))
          matches_]
    have perm : state.held.Perm
        (pending :: (rest.filterMap WorkerInput.pending? ++ (before ++ behind))) := by
      rw [WatchState.held, queued, waiters, ← List.append_assoc, ← List.append_assoc]
      exact List.perm_middle
    have nodup := (perm.map PendingRescan.request).nodup_iff.mp kept.nodup
    rw [List.map_cons, List.nodup_cons] at nodup
    have gone := nodup.1
    have loosened : ({ state with
        inputs := rest
        worker := { state.worker with
          pendingRescans := state.worker.pendingRescans.eraseP fun pending =>
            pending.id = id } }).Kept [pending.request] := by
      refine kept.of_fewer rfl rfl rfl ?_ ?_ ?_ fun ended =>
        Bool.noConfusion (running.symm.trans ended)
      · rw [WatchState.held, erased]
        exact (List.sublist_cons_self _ _).subperm.trans perm.symm.subperm
      · intro other member request _ _
        rw [WatchState.held, erased]
        rcases List.mem_cons.mp (perm.mem_iff.mp member) with rfl | still
        · exact .inr List.mem_cons_self
        · exact .inl still
      · intro other member request here over_
        rw [erased] at member
        have still : other ∈ rest.filterMap WorkerInput.pending? ++ (before ++ behind) :=
          List.mem_append_right _ member
        have waits : other ∈ state.worker.pendingRescans := by
          rw [waiters]
          rcases List.mem_append.mp member with member | member
          · exact List.mem_append_left _ member
          · exact List.mem_append_right _ (List.mem_cons_of_mem _ member)
        refine later ?_ (kept.cancelled other waits request here over_)
        -- Another waiter with the id would be of the same request.
        intro same
        obtain ⟨one, atOne, oneAwaits⟩ := kept.sent pending (perm.mem_iff.mpr List.mem_cons_self)
        obtain ⟨two, atTwo, twoAwaits⟩ :=
          kept.sent other (perm.mem_iff.mpr (List.mem_cons_of_mem _ still))
        have equal := kept.distinct atOne atTwo oneAwaits.claimed
          (twoAwaits.claimed.trans (congrArg some (same.trans (of_decide_eq_true matches_).symm)))
        exact gone (equal ▸ List.mem_map_of_mem still)
    refine loosened.releaseAll (fun _ _ _ _ inside => inside) ?_ ?_
    · intro other member inside
      rw [WatchState.held, erased] at member
      have same : other.request = pending.request := List.mem_singleton.mp inside
      exact gone (same ▸ List.mem_map_of_mem member)
    · intro index inside request here
      cases List.mem_singleton.mp inside
      exact kept.late (perm.mem_iff.mpr List.mem_cons_self) here

end Take

theorem setPhase (kept : state.Kept []) {phase : Phase} (running : phase ≠ .stopped) :
    (state.setPhase phase).Kept [] :=
  kept.of_frame rfl rfl rfl rfl rfl (fun _ => id) fun ended =>
    absurd (of_decide_eq_true ended) running

theorem handle (kept : state.Kept []) {invalidation : Option (List String)} {now debounce : Nat}
    (next : state.inputs = input :: rest) (running : state.isStopped = false) :
    ({ state with inputs := rest }.handle input invalidation now debounce).Kept [] := by
  have alive : state.worker.phase ≠ .stopped := of_decide_eq_false running
  have active {pending : PendingRescan}
      (uncancelled : ¬((({ state with inputs := rest }).requests[pending.request]?).any
        fun request : Request => request.ticket.cancelled) = true) :
      ∀ request, state.requests[pending.request]? = some request →
        request.ticket.cancelled = false := by
    intro request found
    rw [found] at uncancelled
    exact Bool.eq_false_iff.mpr uncancelled
  unfold WatchState.handle
  dsimp only
  split
  next => exact (kept.skip next running rfl (by simp)).stop
  next pending =>
    split
    next => exact (kept.takeCancelled next running rfl (by simp)).setPhase (by simp)
    rename_i uncancelled
    have waiters : (state.worker.acceptRescan pending now).pendingRescans =
        state.worker.pendingRescans ++ [pending] := rfl
    exact (kept.takeRescan next rfl (by simp) (active uncancelled) waiters alive).setPhase (by simp)
  next paths pending =>
    split
    next => exact (kept.takeCancelled next running rfl (by simp)).setPhase (by simp)
    rename_i uncancelled
    obtain ⟨pendingPaths, fullRescan, merged⟩ :=
      (state.worker.scheduleRelevantRefresh state.worker.isFailing now 0).mergePendingPaths_eq
        paths
    have waiters : (state.worker.acceptRescanPaths paths pending now).pendingRescans =
        state.worker.pendingRescans ++ [pending] := by
      rw [Worker.acceptRescanPaths, merged]
      rfl
    have phase : (state.worker.acceptRescanPaths paths pending now).phase =
        state.worker.phase := by
      rw [Worker.acceptRescanPaths, merged]
      rfl
    exact (kept.takeRescan next rfl (by simp) (active uncancelled) waiters
      (phase ▸ alive)).setPhase (by simp)
  next id => exact (kept.takeCancellation next running).setPhase (by simp)
  next => exact (kept.skip next running rfl (by simp)).setPhase (by simp)
  next event =>
    have waiters : (state.worker.acceptEvent event invalidation now debounce).pendingRescans =
        state.worker.pendingRescans := Worker.pendingRescans_acceptEvent ..
    exact (kept.skip next running rfl (by simp)).of_frame rfl rfl rfl waiters rfl (fun _ => id)
      (absurd · Bool.false_ne_true)
  next => exact (kept.skip next running rfl (by simp)).setPhase (by simp)
  next => exact (kept.skip next running rfl (by simp)).failWork.setPhase (by simp)

theorem stayEarly (kept : state.Kept []) {index following : Nat}
    (here : state.requests[index]? = some request)
    (grown : state.nextRescanId ≤ following) (early : request.phase.isEarly = true)
    (still : (change request).phase.isEarly = true)
    (untouched : request.Untouched → (change request).Untouched)
    (claims : ∀ id, (change request).id = some id →
      request.id = some id ∨ state.nextRescanId ≤ id ∧ id < following) :
    ({ state with nextRescanId := following }.modifyRequest index change).Kept [] := by
  have before := kept.early index request here early
  have unsent := kept.unsent here early
  refine kept.modifyRequest here grown ?_ ?_ (fun _ => untouched before) claims ?_ ?_ ?_
  · rw [before.ticket, (untouched before).ticket]
  · rw [before.reply, (untouched before).reply]
  · exact fun pending member same => absurd same (unsent pending member)
  · intro over_
    rw [over_] at still
    cases still
  · exact fun pending member same => absurd same (unsent pending (List.mem_append_right _ member))

theorem returnUnknown (kept : state.Kept []) (here : state.requests[index]? = some request)
    (unknown : ∀ pending ∈ state.held, pending.request ≠ index) :
    (state.returnRequest index).Kept [] :=
  kept.returnRequest here fun pending member same => absurd same (unknown pending member)

theorem poison (kept : state.Kept []) : state.poison.Kept [] := by
  refine kept.of_frame rfl rfl rfl rfl ?_ ?_ ?_
  · unfold WatchState.poison
    dsimp only
    split
    next => rfl
    next => simp [WorkerInput.pending?]
  · intro id member
    unfold WatchState.poison
    dsimp only
    split
    next => exact member
    next => exact List.mem_append_left _ member
  · intro ended
    refine ⟨ended, if_pos ?_⟩
    rw [Bool.or_eq_true]
    exact .inr ended

theorem enqueue (kept : state.Kept []) {index id : Nat} {request : Request} {input : WorkerInput}
    (here : state.requests[index]? = some request) (phase : request.phase = .advanced)
    (claimed : request.id = some id) (running : state.isStopped = false)
    (carried : input.pending? = some ⟨id, index⟩) :
    ((state.send input).modifyRequest index fun request =>
      { request with phase := .waiting, enqueuedAt := some state.clock }).Kept [] := by
  have early : request.phase.isEarly = true := by
    rw [phase]
    rfl
  have untouched := kept.early index request here early
  have unsent := kept.unsent here early
  have waiting : (state.modifyRequest index fun request =>
      { request with phase := .waiting, enqueuedAt := some state.clock }).Kept [] :=
    kept.modifyRequest here (Nat.le_refl _) rfl rfl nofun (fun _ => .inl)
      (fun pending member same => absurd same (unsent pending member)) nofun
      (fun pending member same => absurd same (unsent pending (List.mem_append_right _ member)))
  refine waiting.sendRescan carried running
    ((List.getElem?_modify_eq ..).trans (congrArg _ here)) ?_ unsent
  exact ⟨claimed, congrArg RescanTicket.released untouched.ticket, untouched.reply, .inl rfl⟩

theorem sendCancel (kept : state.Kept []) {index id : Nat}
    (here : state.requests[index]? = some request) (phase : request.phase = .cancelling)
    (claimed : request.id = some id) :
    ((state.send (.command (.cancelRescan id))).returnRequest index).Kept [] := by
  have sent : (state.send (.command (.cancelRescan id))).Kept [] := kept.send rfl
  refine sent.returnRequest here ?_
  rintro pending member rfl
  obtain ⟨other, found, awaits⟩ := sent.sent pending member
  cases here.symm.trans found
  constructor
  · rcases awaits.phase with waiting | ⟨-, cancelled⟩
    · cases phase.symm.trans waiting
    · exact cancelled
  · intro waits
    have inputs : (state.send (.command (.cancelRescan id))).inputs =
        if state.isStopped then state.inputs
        else state.inputs ++ [.command (.cancelRescan id)] := rfl
    rw [inputs]
    split
    next stopped =>
      have none : state.worker.pendingRescans = [] := (kept.stopped stopped).2
      have member : pending ∈ state.worker.pendingRescans := waits
      rw [none] at member
      cases member
    cases claimed.symm.trans awaits.claimed
    exact List.mem_append_right _ List.mem_cons_self

end WatchState.Kept

variable {debounce : Nat} {state after : WatchState}

/-- Every access keeps the ledger of the tickets. -/
theorem Access.kept (access : Access debounce state after) (kept : state.Kept []) :
    after.Kept [] := by
  cases access with
  | reserve free => exact kept.reserve _ free
  | claim here phase open_ room =>
    refine kept.stayEarly here (Nat.le_succ _) (phase ▸ rfl) rfl
      (fun before => ⟨before.ticket, before.enqueuedAt, before.reply⟩) ?_
    rintro id ⟨⟩
    exact .inr ⟨Nat.le_refl _, Nat.lt_succ_self _⟩
  | claimLast here phase =>
    exact kept.stayEarly here (Nat.le_refl _) (phase ▸ rfl) rfl
      (fun before => ⟨before.ticket, before.enqueuedAt, before.reply⟩) fun _ => .inl
  | advance here phase =>
    have advanced : state.advance.Kept [] :=
      kept.of_frame rfl rfl rfl rfl rfl (fun _ => id) fun ended => ⟨ended, rfl⟩
    exact advanced.stayEarly here (Nat.le_refl _) (phase ▸ rfl) rfl
      (fun before => ⟨before.ticket, before.enqueuedAt, before.reply⟩) fun _ => .inl
  | advanceLast here phase =>
    exact kept.stayEarly here (Nat.le_refl _) (phase ▸ rfl) rfl
      (fun before => ⟨before.ticket, before.enqueuedAt, before.reply⟩) fun _ => .inl
  | refuse here phase exhausted =>
    refine kept.returnUnknown here (kept.unsent here ?_)
    rcases phase with phase | phase <;> rw [phase] <;> rfl
  | poison here phase =>
    exact kept.poison.returnUnknown here (kept.poison.unsent here (phase ▸ rfl))
  | @enqueue index id request here phase claimed runs =>
    refine kept.enqueue here phase claimed runs ?_
    split <;> rfl
  | enqueueStopped here phase stopped =>
    exact kept.returnUnknown here (kept.unsent here (phase ▸ rfl))
  | receive here phase replied => exact kept.returnUnknown here (kept.answered here replied)
  | disconnect here phase silent dropped => exact kept.returnUnknown here dropped
  | @cancel index request here phase =>
    refine kept.modifyRequest here (Nat.le_refl _) rfl rfl nofun (fun _ => .inl) ?_ nofun nofun
    rintro pending member rfl
    obtain ⟨other, found, awaits⟩ := kept.sent pending member
    cases here.symm.trans found
    exact ⟨awaits.claimed, awaits.unreleased, awaits.silent, .inr ⟨.inl rfl, rfl⟩⟩
  | sendCancel here phase claimed => exact kept.sendCancel here phase claimed
  | acknowledge => exact kept.of_frame rfl rfl rfl rfl rfl (fun _ => id) fun ended => ⟨ended, rfl⟩
  | sendAcknowledgement =>
    refine WatchState.Kept.send ?_ rfl
    exact kept.of_frame rfl rfl rfl rfl rfl (fun _ => id) fun ended => ⟨ended, rfl⟩
  | expireAcknowledgement =>
    exact kept.of_frame rfl rfl rfl rfl rfl (fun _ => id) fun ended => ⟨ended, rfl⟩
  | enter => exact kept.of_frame rfl rfl rfl rfl rfl (fun _ => id) fun ended => ⟨ended, rfl⟩
  | callbackAdvance | callbackAdvanceLast =>
    exact kept.of_frame rfl rfl rfl rfl rfl (fun _ => id) fun ended => ⟨ended, rfl⟩
  | callbackPoison =>
    exact kept.poison.of_frame rfl rfl rfl rfl rfl (fun _ => id) fun ended => ⟨ended, rfl⟩
  | callbackSend =>
    refine WatchState.Kept.send ?_ rfl
    exact kept.of_frame rfl rfl rfl rfl rfl (fun _ => id) fun ended => ⟨ended, rfl⟩
  | askToStop => exact kept.send rfl
  | start phase => exact kept.of_frame rfl rfl rfl rfl rfl (fun _ => id) nofun
  | take phase next => exact kept.handle next (by rw [WatchState.isStopped, phase]; rfl)
  | timeout phase => exact kept.setPhase nofun
  | answer phase =>
    unfold WatchState.answer
    dsimp only
    split
    next => exact kept.of_frame rfl rfl rfl rfl rfl (fun _ => id) nofun
    next => split <;> exact kept.of_frame rfl rfl rfl rfl rfl (fun _ => id) nofun
  | check phase =>
    split
    next => exact kept.failWork.setPhase nofun
    next => exact kept.setPhase nofun
  | notDue => exact kept.setPhase nofun
  | due => exact kept.of_frame rfl rfl rfl rfl rfl (fun _ => id) nofun
  | load => exact kept.setPhase nofun
  | abandon => exact kept.failWork.setPhase nofun
  | proceed => exact kept.setPhase nofun
  | @settle refreshRevision now load refreshed phase =>
    unfold WatchState.settle
    dsimp only
    cases refreshed with
    | none => exact kept.of_frame rfl rfl rfl rfl rfl (fun _ => id) nofun
    | some next =>
      dsimp only
      split <;> exact kept.of_frame rfl rfl rfl rfl rfl (fun _ => id) nofun
  | complete => exact (kept.finishPendingRescans _).setPhase nofun

theorem Reachable.kept {snapshot : Snapshot} (reachable : Reachable debounce snapshot state) :
    state.Kept [] := by
  induction reachable with
  | initial =>
    exact ⟨rfl, Nat.zero_le _, .nil, .nil, .nil, (nomatch ·), List.nodup_nil,
      fun _ => (nomatch ·), .nil, fun _ => (nomatch ·), nofun⟩
  | step prior next ih =>
    obtain ⟨access⟩ := next
    exact (access.kept ih).of_frame rfl rfl rfl rfl rfl (fun _ => id) fun ended =>
      ⟨ended, rfl⟩

/-- An input that has the worker release the ticket of a request. -/
def WorkerInput.Releases (input : WorkerInput) (index : Nat) (request : Request) : Prop :=
  (∃ pending, input.pending? = some pending ∧ pending.request = index) ∨
    ∃ id, request.id = some id ∧ input = .command (.cancelRescan id)

theorem WatchState.Kept.released_or_queued (kept : state.Kept []) {index : Nat}
    (here : state.requests[index]? = some request) (returned : request.phase = .returned) :
    request.ticket.released = true ∨ ∃ input ∈ state.inputs, input.Releases index request := by
  cases released : request.ticket.released with
  | true => exact .inl rfl
  | false =>
    right
    rcases kept.returned index request here returned released with none | ⟨pending, held, rfl⟩
    · cases none
    · rcases List.mem_append.mp held with queued | waits
      · obtain ⟨input, member, carried⟩ := List.mem_filterMap.mp queued
        exact ⟨input, member, .inl ⟨pending, carried, rfl⟩⟩
      · obtain ⟨other, found, awaits⟩ := kept.sent pending held
        cases here.symm.trans found
        exact ⟨_, kept.cancelled pending waits request here returned,
          .inr ⟨pending.id, awaits.claimed, rfl⟩⟩

theorem WatchState.Kept.pendingRescans_eq_zero (kept : state.Kept [])
    (returned : ∀ request ∈ state.requests, request.phase = .returned)
    (drained : state.inputs = []) : state.pendingRescans = 0 := by
  rw [kept.counted]
  refine Everywhere.countP_eq_zero fun index request here => ?_
  rcases kept.released_or_queued here (returned request (List.mem_of_getElem? here)) with
    released | ⟨input, member, -⟩
  · rw [released]
    rfl
  · rw [drained] at member
    cases member

end Mdbase.Watch
