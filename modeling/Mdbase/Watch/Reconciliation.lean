import Mathlib.Algebra.Group.Nat.Defs
import Mdbase.Watch.Worker

/-!
# Callers, callbacks and the worker

Callers reserve a ticket, claim an id, advance the invalidation revision and send a command;
then they wait, or cancel. Filesystem callbacks advance the revision and send their event.
The worker takes one input after the other. A step is one access to what they share: the
queue, the revision, the epoch, the tickets and the channels of the replies. Steps are
numbered by a clock, so that what was observed can be compared with when it changed.
-/

namespace Mdbase.Watch

/-- The largest `u64`. -/
def maxRevision : Nat := 2 ^ 64 - 1

/-- `MAX_PENDING_RESCANS`. -/
def maxPendingRescans : Nat := 64

/-- `RescanTicket`. -/
structure RescanTicket where
  cancelled : Bool
  released : Bool
  deriving DecidableEq

/-- How far the caller of a request is. -/
inductive RequestPhase where
  | reserved
  /-- It has claimed its id. -/
  | claimed
  /-- It has advanced the revision. -/
  | advanced
  /-- It is about to exhaust the epoch. -/
  | poisoning
  | waiting
  /-- It has marked its ticket, and is about to tell the worker. -/
  | cancelling
  | returned
  deriving DecidableEq

/-- A call of `rescan` or `rescan_paths`. -/
structure Request where
  paths : Option (List String)
  phase : RequestPhase
  id : Option Nat
  ticket : RescanTicket
  /-- When its command was sent. -/
  enqueuedAt : Option Nat
  /-- What was sent into its channel, and when. -/
  reply : Option (ReconciliationResult × Nat)

/-- A reserved request. -/
def Request.new (paths : Option (List String)) : Request where
  paths := paths
  phase := .reserved
  id := none
  ticket := ⟨false, false⟩
  enqueuedAt := none
  reply := none

/-- A call of `acknowledge_observation_with_context`. -/
structure Acknowledgement where
  outcome : ReconciliationOutcome
  /-- The epoch was not exhausted; the command is not sent yet. -/
  isSent : Bool
  active : Bool
  /-- What was sent into its channel, and when. -/
  reply : Option (Except ReconciliationFailure Bool × Nat)

/-- How far a filesystem callback is. -/
inductive CallbackPhase where
  | entered
  | poisoning
  | advanced
  deriving DecidableEq

/-- A filesystem callback; a backend's error is no event. -/
structure Callback where
  event : Option Event
  phase : CallbackPhase
  deriving DecidableEq

/-- The watcher with its callers and callbacks. -/
structure WatchState where
  clock : Nat
  inputs : List WorkerInput
  /-- The counter of the reserved slots. -/
  pendingRescans : Nat
  nextRescanId : Nat
  invalidationRevision : Nat
  /-- When the revision was advanced, the last time first. -/
  advances : List Nat
  /-- When the epoch was exhausted. -/
  exhaustedAt : Option Nat
  requests : List Request
  acknowledgements : List Acknowledgement
  callbacks : List Callback
  worker : Worker

/-- `release` of a ticket. -/
def Request.release (request : Request) : Request :=
  { request with ticket := { request.ticket with released := true } }

/-- A result is sent into the channel of a request that is not cancelled. -/
def Request.deliver (result : ReconciliationResult) (clock : Nat) (request : Request) : Request :=
  if request.ticket.cancelled then request else { request with reply := some (result, clock) }

/-- The counter and the tickets when the ticket of a request is released. -/
def releaseSlot (slots : Nat × List Request) (index : Nat) : Nat × List Request :=
  match slots.2[index]? with
  | some request =>
    if request.ticket.released then slots
    else (slots.1 - 1, slots.2.modify index Request.release)
  | none => slots

/-- A result is sent to a request. -/
def deliver (result : ReconciliationResult) (clock : Nat) (requests : List Request)
    (index : Nat) : List Request :=
  requests.modify index (Request.deliver result clock)

namespace WatchState

/-- `is_exhausted`. -/
def isExhausted (state : WatchState) : Bool := state.exhaustedAt.isSome

/-- Has the worker ended? Then nobody receives inputs. -/
def isStopped (state : WatchState) : Bool := state.worker.phase = .stopped

/-- An input is sent to the worker, if it has not ended. -/
def send (state : WatchState) (input : WorkerInput) : WatchState :=
  { state with
    inputs := if state.isStopped then state.inputs else state.inputs ++ [input] }

/-- The rescans that are in the queue or wait for a refresh. -/
def held (state : WatchState) : List PendingRescan :=
  state.inputs.filterMap WorkerInput.pending? ++ state.worker.pendingRescans

/-- A request is changed. -/
def modifyRequest (state : WatchState) (index : Nat) (change : Request → Request) : WatchState :=
  { state with requests := state.requests.modify index change }

/-- The tickets of some requests are released. -/
def releaseAll (state : WatchState) (indices : List Nat) : WatchState :=
  let slots := indices.foldl releaseSlot (state.pendingRescans, state.requests)
  { state with pendingRescans := slots.1, requests := slots.2 }

/-- `take_released_pending_rescans`, with the replies to them. -/
def finishPendingRescans (state : WatchState) (result : ReconciliationResult) : WatchState :=
  let indices := state.worker.pendingRescans.map (·.request)
  let released := state.releaseAll indices
  { released with
    requests := indices.foldl (deliver result state.clock) released.requests
    worker := { state.worker with pendingRescans := [] } }

/-- All pending work fails and is dropped, because the epoch is exhausted. -/
def failWork (state : WatchState) : WatchState :=
  { state.finishPendingRescans (.error .revisionExhausted) with
    worker := state.worker.dropWork }

/-- The next phase of the worker. -/
def setPhase (state : WatchState) (phase : Phase) : WatchState :=
  { state with worker := { state.worker with phase := phase } }

/-- The caller of a request returns and gives its reference to the ticket up. A ticket that
nothing else refers to is dropped, and with it released. -/
def returnRequest (state : WatchState) (index : Nat) : WatchState :=
  (state.modifyRequest index fun request => { request with phase := .returned }).releaseAll
    (if state.held.any fun pending => pending.request = index then [] else [index])

/-- `poison_watcher`. -/
def poison (state : WatchState) : WatchState :=
  { state with
    exhaustedAt := some (state.exhaustedAt.getD state.clock)
    inputs :=
      if state.isExhausted || state.isStopped then state.inputs
      else state.inputs ++ [.revisionExhausted] }

/-- The revision is advanced. -/
def advance (state : WatchState) : WatchState :=
  { state with
    invalidationRevision := state.invalidationRevision + 1
    advances := state.clock :: state.advances }

/-- The first pending rescan with an id is cancelled, if there is one. -/
def cancelPending (state : WatchState) (id : Nat) : WatchState :=
  let found := state.worker.pendingRescans.find? fun pending => pending.id = id
  let erased :=
    { state with
      worker := { state.worker with
        pendingRescans := state.worker.pendingRescans.eraseP fun pending => pending.id = id } }
  erased.releaseAll (found.toList.map (·.request))

/-- The worker ends: its queue and the rescans in it are dropped, and so are tickets that no
caller refers to any more. -/
def stop (state : WatchState) : WatchState :=
  let stopped :=
    { state with
      inputs := []
      worker := { state.worker with pendingRescans := [], phase := .stopped } }
  stopped.releaseAll ((state.held.map (·.request)).filter fun index =>
    (state.requests[index]?).any fun request => request.phase = .returned)

/-- The conditions of an acknowledgement, its own flag included. -/
def isCurrent (state : WatchState) (outcome : ReconciliationOutcome) (active : Bool) : Bool :=
  active && !state.isExhausted && outcome.revision = state.worker.snapshotRevision &&
    outcome.revision = state.invalidationRevision

/-- A reply is sent to an acknowledgement. -/
def replyAcknowledgement (state : WatchState) (index : Nat)
    (result : Except ReconciliationFailure Bool) : WatchState :=
  { state with
    acknowledgements := state.acknowledgements.modify index fun acknowledgement =>
      { acknowledgement with reply := some (result, state.clock) } }

/-- An input is handled. The answer of `invalidation_paths` depends on the files. -/
def handle (state : WatchState) (input : WorkerInput) (invalidation : Option (List String))
    (now debounce : Nat) : WatchState :=
  let isCancelled (pending : PendingRescan) : Bool :=
    (state.requests[pending.request]?).any fun request => request.ticket.cancelled
  match input with
  | .command .stop => state.stop
  | .command (.rescan pending) =>
    if isCancelled pending then (state.releaseAll [pending.request]).setPhase .received
    else { state with worker := state.worker.acceptRescan pending now }.setPhase .received
  | .command (.rescanPaths paths pending) =>
    if isCancelled pending then (state.releaseAll [pending.request]).setPhase .received
    else
      { state with worker := state.worker.acceptRescanPaths paths pending now }.setPhase
        .received
  | .command (.cancelRescan id) => (state.cancelPending id).setPhase .received
  | .command (.acknowledge outcome acknowledgement) =>
    let active := (state.acknowledgements[acknowledgement]?).any (·.active)
    state.setPhase (.acknowledging outcome acknowledgement (state.isCurrent outcome active))
  | .filesystem (some event) =>
    { state with
      worker := state.worker.acceptEvent event invalidation now debounce }.setPhase .received
  | .filesystem none => state.setPhase .received
  | .revisionExhausted => state.failWork.setPhase .received

/-- An acknowledgement is answered while the epoch is locked. -/
def answer (state : WatchState) (outcome : ReconciliationOutcome) (index : Nat)
    (preliminarilyCurrent : Bool) : WatchState :=
  let active := (state.acknowledgements[index]?).any (·.active)
  if preliminarilyCurrent && state.isCurrent outcome active then
    { state with
      worker := { state.worker with
        maintainedInvalidRecords := outcome.invalidRecords } }.replyAcknowledgement index (.ok true)
  else if state.isExhausted then
    state.replyAcknowledgement index (.error .revisionExhausted)
  else state.replyAcknowledgement index (.ok false)

/-- What follows a load that the epoch survived. -/
def settle (state : WatchState) (refreshRevision : Nat) (load : Load)
    (refreshed : Option Snapshot) (now : Nat) : WatchState :=
  let worker := match refreshed with
    | some next =>
      if refreshRevision = state.invalidationRevision then
        state.worker.takeOver refreshRevision load next
      else state.worker.startOver now
    | none => state.worker.retryLater now
  { state with worker := worker }

/-- `complete_pending_rescans`. -/
def complete (state : WatchState) (outcome : ReconciliationOutcome) : WatchState :=
  state.finishPendingRescans
    (if state.isExhausted then .error .revisionExhausted else .ok outcome)

end WatchState

/-- The watcher when its worker starts, with the snapshot that it was opened with. -/
def WatchState.initial (snapshot : Snapshot) : WatchState where
  clock := 0
  inputs := []
  pendingRescans := 0
  nextRescanId := 1
  invalidationRevision := 0
  advances := []
  exhaustedAt := none
  requests := []
  acknowledgements := []
  callbacks := []
  worker :=
    { phase := .starting
      snapshot := snapshot
      snapshotRevision := 0
      maintainedInvalidRecords := snapshot.invalidRecords
      pendingRescans := []
      pendingPaths := ∅
      fullRescan := false
      deadline := none
      retryBackoff := initialRefreshRetry
      lastRefreshDiagnostic := none }

/-- The worker after the refresh at its start. -/
def Worker.start (worker : Worker) (revision : Nat) (contents : Option Contents)
    (now debounce : Nat) : Worker :=
  let refreshed := (Snapshot.load contents).map (·.retainClassifiedInvalid worker.snapshot)
  { worker with
    phase := .receiving
    snapshot := refreshed.getD worker.snapshot
    snapshotRevision := revision
    fullRescan := true
    deadline := some (if refreshed.isSome then now + debounce else now + initialRefreshRetry)
    lastRefreshDiagnostic := if refreshed.isSome then none else some now }

/-- One step of a caller, a callback or the worker, up to the clock. -/
inductive Access (debounce : Nat) (state : WatchState) : WatchState → Prop where
  -- Callers of rescans.
  | reserve {paths : Option (List String)} (free : state.pendingRescans < maxPendingRescans) :
      Access debounce state
        { state with
          pendingRescans := state.pendingRescans + 1
          requests := state.requests ++ [.new paths] }
  | claim {index : Nat} {request : Request} (here : state.requests[index]? = some request)
      (phase : request.phase = .reserved) (open_ : state.isExhausted = false)
      (room : state.nextRescanId < maxRevision) :
      Access debounce state
        ({ state with nextRescanId := state.nextRescanId + 1 }.modifyRequest index fun request =>
          { request with phase := .claimed, id := some state.nextRescanId })
  | claimLast {index : Nat} {request : Request} (here : state.requests[index]? = some request)
      (phase : request.phase = .reserved) (open_ : state.isExhausted = false)
      (full : maxRevision ≤ state.nextRescanId) :
      Access debounce state
        (state.modifyRequest index fun request => { request with phase := .poisoning })
  | advance {index : Nat} {request : Request} (here : state.requests[index]? = some request)
      (phase : request.phase = .claimed) (open_ : state.isExhausted = false)
      (room : state.invalidationRevision < maxRevision) :
      Access debounce state
        (state.advance.modifyRequest index fun request => { request with phase := .advanced })
  | advanceLast {index : Nat} {request : Request} (here : state.requests[index]? = some request)
      (phase : request.phase = .claimed) (open_ : state.isExhausted = false)
      (full : maxRevision ≤ state.invalidationRevision) :
      Access debounce state
        (state.modifyRequest index fun request => { request with phase := .poisoning })
  | refuse {index : Nat} {request : Request} (here : state.requests[index]? = some request)
      (phase : request.phase = .reserved ∨ request.phase = .claimed)
      (exhausted : state.isExhausted = true) :
      Access debounce state (state.returnRequest index)
  | poison {index : Nat} {request : Request} (here : state.requests[index]? = some request)
      (phase : request.phase = .poisoning) :
      Access debounce state (state.poison.returnRequest index)
  | enqueue {index id : Nat} {request : Request} (here : state.requests[index]? = some request)
      (phase : request.phase = .advanced) (claimed : request.id = some id)
      (runs : state.isStopped = false) :
      Access debounce state
        ((state.send (.command (match request.paths with
            | some paths => .rescanPaths paths ⟨id, index⟩
            | none => .rescan ⟨id, index⟩))).modifyRequest index fun request =>
          { request with phase := .waiting, enqueuedAt := some state.clock })
  | enqueueStopped {index : Nat} {request : Request}
      (here : state.requests[index]? = some request) (phase : request.phase = .advanced)
      (stopped : state.isStopped = true) :
      Access debounce state (state.returnRequest index)
  | receive {index : Nat} {request : Request} (here : state.requests[index]? = some request)
      (phase : request.phase = .waiting) (replied : request.reply.isSome) :
      Access debounce state (state.returnRequest index)
  | disconnect {index : Nat} {request : Request} (here : state.requests[index]? = some request)
      (phase : request.phase = .waiting) (silent : request.reply = none)
      (dropped : ∀ pending ∈ state.held, pending.request ≠ index) :
      Access debounce state (state.returnRequest index)
  | cancel {index : Nat} {request : Request} (here : state.requests[index]? = some request)
      (phase : request.phase = .waiting) :
      Access debounce state
        (state.modifyRequest index fun request =>
          { request with
            phase := .cancelling
            ticket := { request.ticket with cancelled := true } })
  | sendCancel {index id : Nat} {request : Request}
      (here : state.requests[index]? = some request) (phase : request.phase = .cancelling)
      (claimed : request.id = some id) :
      Access debounce state ((state.send (.command (.cancelRescan id))).returnRequest index)
  -- Callers of acknowledgements.
  | acknowledge {index at_ : Nat} {request : Request} {outcome : ReconciliationOutcome}
      (here : state.requests[index]? = some request)
      (observed : request.reply = some (.ok outcome, at_)) (open_ : state.isExhausted = false) :
      Access debounce state
        { state with
          acknowledgements := state.acknowledgements ++ [⟨outcome, false, true, none⟩] }
  | sendAcknowledgement {index : Nat} {acknowledgement : Acknowledgement}
      (here : state.acknowledgements[index]? = some acknowledgement)
      (unsent : acknowledgement.isSent = false) :
      Access debounce state
        ({ state with
            acknowledgements := state.acknowledgements.modify index fun acknowledgement =>
              { acknowledgement with isSent := true } }.send
          (.command (.acknowledge acknowledgement.outcome index)))
  | expireAcknowledgement {index : Nat} :
      Access debounce state
        { state with
          acknowledgements := state.acknowledgements.modify index fun acknowledgement =>
            { acknowledgement with active := false } }
  -- Filesystem callbacks.
  | enter {event : Option Event} :
      Access debounce state { state with callbacks := state.callbacks ++ [⟨event, .entered⟩] }
  | callbackAdvance {index : Nat} {event : Event}
      (here : state.callbacks[index]? = some ⟨some event, .entered⟩)
      (relevant : event.enqueuesReconciliation = true) (open_ : state.isExhausted = false)
      (room : state.invalidationRevision < maxRevision) :
      Access debounce state
        { state.advance with
          callbacks := state.callbacks.modify index fun callback =>
            { callback with phase := .advanced } }
  | callbackAdvanceLast {index : Nat} {event : Event}
      (here : state.callbacks[index]? = some ⟨some event, .entered⟩)
      (relevant : event.enqueuesReconciliation = true) (open_ : state.isExhausted = false)
      (full : maxRevision ≤ state.invalidationRevision) :
      Access debounce state
        { state with
          callbacks := state.callbacks.modify index fun callback =>
            { callback with phase := .poisoning } }
  | callbackPoison {index : Nat} {event : Event}
      (here : state.callbacks[index]? = some ⟨some event, .poisoning⟩) :
      Access debounce state
        { state.poison with
          callbacks := state.callbacks.modify index fun callback =>
            { callback with phase := .advanced } }
  | callbackSend {index : Nat} {callback : Callback}
      (here : state.callbacks[index]? = some callback)
      (counted : callback.phase = .advanced ∨
        (callback.event.all fun event => !event.enqueuesReconciliation) = true ∨
          state.isExhausted = true) :
      Access debounce state
        ({ state with callbacks := state.callbacks.eraseIdx index }.send
          (.filesystem callback.event))
  -- The worker, and the owner that stops it.
  | askToStop : Access debounce state (state.send (.command .stop))
  | start {contents : Option Contents} {now : Nat} (phase : state.worker.phase = .starting) :
      Access debounce state
        { state with
          worker := state.worker.start state.invalidationRevision contents now debounce }
  | take {input : WorkerInput} {rest : List WorkerInput} {invalidation : Option (List String)}
      {now : Nat} (phase : state.worker.phase = .receiving)
      (next : state.inputs = input :: rest) :
      Access debounce state
        ({ state with inputs := rest }.handle input invalidation now debounce)
  | timeout (phase : state.worker.phase = .receiving) :
      Access debounce state (state.setPhase .received)
  | answer {outcome : ReconciliationOutcome} {index : Nat} {preliminarilyCurrent : Bool}
      (phase : state.worker.phase = .acknowledging outcome index preliminarilyCurrent) :
      Access debounce state
        ((state.answer outcome index preliminarilyCurrent).setPhase .received)
  | check (phase : state.worker.phase = .received) :
      Access debounce state
        ((if state.isExhausted then state.failWork else state).setPhase .checked)
  | notDue {now : Nat} (phase : state.worker.phase = .checked)
      (later : ∀ deadline, state.worker.deadline = some deadline → now < deadline) :
      Access debounce state (state.setPhase .receiving)
  | due {now deadline : Nat} (phase : state.worker.phase = .checked)
      (scheduled : state.worker.deadline = some deadline) (reached : deadline ≤ now) :
      Access debounce state
        { state with worker := state.worker.beginLoad state.invalidationRevision state.clock }
  | load {refreshRevision began : Nat} {contents : Option Contents}
      (phase : state.worker.phase = .loading refreshRevision began) :
      Access debounce state
        (state.setPhase (.loaded refreshRevision ⟨began, state.clock, contents⟩
          (state.worker.refresh contents)))
  | abandon {refreshRevision : Nat} {load : Load} {refreshed : Option Snapshot}
      (phase : state.worker.phase = .loaded refreshRevision load refreshed)
      (exhausted : state.isExhausted = true) :
      Access debounce state (state.failWork.setPhase .receiving)
  | proceed {refreshRevision : Nat} {load : Load} {refreshed : Option Snapshot}
      (phase : state.worker.phase = .loaded refreshRevision load refreshed)
      (open_ : state.isExhausted = false) :
      Access debounce state (state.setPhase (.settling refreshRevision load refreshed))
  | settle {refreshRevision now : Nat} {load : Load} {refreshed : Option Snapshot}
      (phase : state.worker.phase = .settling refreshRevision load refreshed) :
      Access debounce state (state.settle refreshRevision load refreshed now)
  | complete {outcome : ReconciliationOutcome}
      (phase : state.worker.phase = .completing outcome) :
      Access debounce state ((state.complete outcome).setPhase .receiving)

/-- The clock goes on. -/
def WatchState.tick (state : WatchState) : WatchState := { state with clock := state.clock + 1 }

/-- One step. -/
inductive Step (debounce : Nat) (state : WatchState) : WatchState → Prop where
  | mk {after : WatchState} (access : Access debounce state after) :
      Step debounce state after.tick

/-- The states of a watcher in any interleaving. -/
inductive Reachable (debounce : Nat) (snapshot : Snapshot) : WatchState → Prop where
  | initial : Reachable debounce snapshot (.initial snapshot)
  | step {before after : WatchState} (prior : Reachable debounce snapshot before)
      (next : Step debounce before after) : Reachable debounce snapshot after

end Mdbase.Watch
