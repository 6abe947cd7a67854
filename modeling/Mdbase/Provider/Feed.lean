import Mdbase.Library.Trace
import Mdbase.Provider.Change

/-!
# The durable change feed

The feed is one file: the events that its owner has not acknowledged, the position of
the last event, and the owner with the epoch that fences off earlier handles. Every
operation reads the file, decides, and at its end writes the file at most once.
-/

namespace Mdbase.Provider

open Library
open Mdbase.Runtime (u64Max)

/-- `StoredChangeSet`. -/
inductive StoredChangeSet where
  | exact (changes : List CanonicalChange)
  | collectionWide (reason : RebuildReason)
  deriving DecidableEq

/-- `StoredEvent`. -/
structure StoredEvent where
  id : String
  watermark : Nat
  generation : CollectionGeneration
  changes : StoredChangeSet
  origin : ChangeOrigin
  commitId : Option String
  deriving DecidableEq

/-- `StoredTransfer`. -/
structure StoredTransfer where
  id : String
  current : String
  next : String
  expectedAckedThrough : Nat
  fencingEpoch : Nat
  deriving DecidableEq

/-- `FeedJournal`. -/
structure FeedJournal where
  version : Nat
  owner : Option String
  fencingEpoch : Nat
  acknowledgedThrough : Nat
  head : Nat
  baselineThrough : Option Nat
  events : List StoredEvent
  pendingTransfer : Option StoredTransfer
  lastAcknowledgedTransferId : Option String
  deriving DecidableEq

/-- The journal of a collection without a feed file. -/
def FeedJournal.default : FeedJournal where
  version := 1
  owner := none
  fencingEpoch := 0
  acknowledgedThrough := 0
  head := 0
  baselineThrough := none
  events := []
  pendingTransfer := none
  lastAcknowledgedTransferId := none

/-- The feed file, if it is there. -/
abbrev StoredFeed := Option FeedJournal

/-- `read_or_default`. -/
def StoredFeed.journal (stored : StoredFeed) : FeedJournal := stored.getD .default

/-- `ChangeFeed`, a handle. -/
structure ChangeFeed where
  owner : String
  fencingEpoch : Nat
  deriving DecidableEq

/-- `ChangeFeedBaseline`. -/
structure ChangeFeedBaseline where
  fencingEpoch : Nat
  acknowledgedThrough : Nat
  feedHead : Nat
  deriving DecidableEq

/-- `ChangeFeedTransferIntent`. -/
structure ChangeFeedTransferIntent where
  id : String
  current : String
  next : String
  expectedAckedThrough : Nat
  deriving DecidableEq

/-- `ChangeFeedTransferReceipt`. -/
structure ChangeFeedTransferReceipt where
  id : String
  fencingEpoch : Nat
  acknowledgedThrough : Nat
  feedHead : Nat
  deriving DecidableEq

/-- `ChangeFeedTransfer`. -/
structure ChangeFeedTransfer where
  feed : ChangeFeed
  receipt : ChangeFeedTransferReceipt
  deriving DecidableEq

/-- `RuntimeChangeEventPage`. -/
structure RuntimeChangeEventPage where
  events : List RuntimeChangeEvent
  next : Option Nat
  feedHead : Nat
  deriving DecidableEq

/-- The committed transactions whose events the feed has to take over, as
`list_unacked_runtime_events` returns them. -/
structure CommittedResolution where
  commitId : String
  generation : CollectionGeneration
  watermark : Nat
  eventId : String
  changes : ChangeBatch
  deriving DecidableEq

/-- `ReconciledFeed`. -/
structure ReconciledFeed where
  watermark : Nat
  generation : CollectionGeneration
  deriving DecidableEq

/-- The members of an `ExecutionOutcome` that `append_known` reads. -/
structure KnownOutcome where
  changeEvent : Option (String × Nat)
  commitId : Option String
  changes : ChangeSet
  generation : CollectionGeneration
  deriving DecidableEq

/-- `MAX_UNACKED_EVENTS`. -/
def maxUnackedEvents : Nat := 100000

/-- `MAX_FEED_BYTES`. -/
def maxFeedBytes : Nat := 64 * 1024 * 1024

/-- `MAX_PAGE_ITEMS`. -/
def maxFeedPageItems : Nat := 256

/-- `corrupt`. -/
def corrupt (message : String) : ProviderError := .transaction "change_feed_corrupt" message

/-- Do the watermarks of events follow the previous one, up to the head? -/
def follows (head : Nat) : (previous : Nat) → List StoredEvent → Bool
  | _, [] => true
  | previous, event :: rest =>
    event.watermark = saturatingSucc previous ∧ event.watermark ≤ head ∧
      follows head event.watermark rest

/-- `validate`. -/
def validate (journal : FeedJournal) : Except ProviderError Unit :=
  if journal.version ≠ 1 ∨ journal.acknowledgedThrough > journal.head ∨
      journal.baselineThrough.any (fun through => through > journal.head) then
    .error (corrupt "invalid version or acknowledged position")
  else if ¬ follows journal.head journal.acknowledgedThrough journal.events then
    .error (corrupt "event watermarks are not strictly ordered")
  else if journal.events.getLast?.map StoredEvent.watermark ≠
      (if journal.head > journal.acknowledgedThrough then some journal.head else none) then
    .error (corrupt "feed head is not retained in the event sequence")
  else .ok ()

/-- How an operation that does not fail ends: with the feed as it is, or by writing a
journal. -/
inductive Verdict (α : Type) where
  | keep (reply : α)
  | store (journal : FeedJournal) (reply : α)

/-- The end of an operation. `bytes` is the length of the text of a journal; a journal is
stored only if it is valid and not too long. -/
def conclude {α : Type} (bytes : FeedJournal → Nat) (stored : StoredFeed) :
    Except ProviderError (Verdict α) → Except ProviderError α × StoredFeed
  | .error error => (.error error, stored)
  | .ok (.keep reply) => (.ok reply, stored)
  | .ok (.store journal reply) =>
    match validate journal with
    | .error error => (.error error, stored)
    | .ok _ =>
      if bytes journal > maxFeedBytes then (.error .changeFeedCapacityExhausted, stored)
      else (.ok reply, some journal)

/-- `checked_journal`. -/
def checkedJournal (stored : StoredFeed) (feed : ChangeFeed) : Except ProviderError FeedJournal :=
  if stored.journal.owner ≠ some feed.owner ∨
      stored.journal.fencingEpoch ≠ feed.fencingEpoch then .error .changeFeedFenced
  else do
    validate stored.journal
    .ok stored.journal

/-- The generation that `reconcile` gives to an event. -/
def reconciledGeneration (generation committed : CollectionGeneration) :
    Except ProviderError CollectionGeneration :=
  if committed.runtimeEpoch = generation.runtimeEpoch then
    .ok (if committed.sequence > generation.sequence then committed else generation)
  else generation.successor

/-- One round of the loop of `reconcile`: the event of a committed transaction is added
unless the feed has it. -/
def reconcileOne (progress : FeedJournal × CollectionGeneration × Bool)
    (resolution : CommittedResolution) :
    Except ProviderError (FeedJournal × CollectionGeneration × Bool) :=
  let (journal, generation, _) := progress
  if journal.events.any fun event => event.id = resolution.eventId then .ok progress
  else if journal.events.any fun event =>
      event.watermark = resolution.watermark ∧ event.id ≠ resolution.eventId then
    .error (corrupt "two durable events claim one change watermark")
  else do
    let generation ← reconciledGeneration generation resolution.generation
    .ok ({ journal with
      head := max journal.head resolution.watermark
      events := journal.events ++ [{
        id := resolution.eventId
        watermark := resolution.watermark
        generation := generation
        changes := .exact resolution.changes.items
        origin := .recoveryReconciliation
        commitId := some resolution.commitId }] }, generation, true)

/-- The loop of `reconcile`. -/
def reconcileAll (context : Context) :
    (number : Nat) → FeedJournal × CollectionGeneration × Bool → List CommittedResolution →
      Except ProviderError (FeedJournal × CollectionGeneration × Bool)
  | _, progress, [] => .ok progress
  | number, progress, resolution :: rest => do
      context.check number
      let progress ← reconcileOne progress resolution
      reconcileAll context (number + 1) progress rest

/-- Events in the order of their watermarks. -/
def sortEvents (events : List StoredEvent) : List StoredEvent :=
  events.insertionSort fun left right => left.watermark ≤ right.watermark

/-- `reconcile`, given what `list_unacked_runtime_events` returns. -/
def reconcile (stored : StoredFeed) (initial : CollectionGeneration)
    (resolutions : Except ProviderError (List CommittedResolution)) (context : Context) :
    Except ProviderError (Verdict ReconciledFeed) := do
  context.check 0
  validate stored.journal
  let resolutions ← resolutions
  let (journal, generation, changed) ←
    reconcileAll context 1 (stored.journal, initial, stored.isNone) resolutions
  let journal := { journal with events := sortEvents journal.events }
  validate journal
  let reply := { watermark := journal.head, generation := generation }
  .ok (if changed then .store journal reply else .keep reply)

/-- `append_known`. -/
def appendKnown (stored : StoredFeed) (outcome : KnownOutcome) : Except ProviderError (Verdict Unit) :=
  match outcome.changeEvent, outcome.commitId, outcome.changes with
  | none, _, _ => .error (.transaction "change_event_missing"
      "committed mutation is missing its durable event identity")
  | _, none, _ => .error (.transaction "commit_identity_missing"
      "committed mutation is missing its transaction identity")
  | some (id, watermark), some commitId, .exact changes => do
      let journal := stored.journal
      validate journal
      match journal.events.find? fun event => event.id = id with
      | some existing =>
        if existing.watermark = watermark ∧ existing.commitId = some commitId then .ok (.keep ())
        else .error (corrupt "change event identity was reused with different metadata")
      | none =>
        if watermark ≠ saturatingSucc journal.head then
          .error (.transaction "change_feed_order_conflict"
            "known mutation event is not the next durable watermark")
        else if journal.events.length ≥ maxUnackedEvents - 1 then
          .error .changeFeedCapacityExhausted
        else .ok (.store { journal with
          head := watermark
          events := journal.events ++ [{
            id := id
            watermark := watermark
            generation := outcome.generation
            changes := .exact changes.items
            origin := .knownMutation
            commitId := some commitId }] } ())
  | _, _, _ => .error (.transaction "known_change_set_missing"
      "committed mutation must retain exact canonical changes")

/-- The changes that `append_external` stores; an exact batch becomes a change of the
whole collection when it is the last event that fits. -/
def externalChanges (count : Nat) : ChangeSet → Option StoredChangeSet
  | .exact batch =>
    some (if count ≥ maxUnackedEvents - 1 then .collectionWide .externalChangeUncertain
      else .exact batch.items)
  | .collectionWide reason => some (.collectionWide reason)
  | .none => none

/-- `append_external`. -/
def appendExternal (stored : StoredFeed) (event : RuntimeChangeEvent) :
    Except ProviderError (Verdict Unit) := do
  let journal := stored.journal
  validate journal
  if event.watermark ≠ saturatingSucc journal.head then
    .error (.transaction "change_feed_order_conflict"
      "filesystem observation is not the next durable watermark")
  else if journal.events.length ≥ maxUnackedEvents then .error .changeFeedCapacityExhausted
  else
    match externalChanges journal.events.length event.changes with
    | none => .ok (.keep ())
    | some changes => .ok (.store { journal with
        head := event.watermark
        events := journal.events ++ [{
          id := event.id
          watermark := event.watermark
          generation := event.generation
          changes := changes
          origin := event.origin
          commitId := none }] } ())

/-- `open`. -/
def openFeed (stored : StoredFeed) (owner : String) : Except ProviderError (Verdict ChangeFeed) :=
  let journal := stored.journal
  if journal.owner = none ∨ journal.owner = some owner then
    match checkedSucc journal.fencingEpoch with
    | none => .error .watermarkExhausted
    | some epoch => .ok (.store { journal with owner := some owner, fencingEpoch := epoch }
        { owner := owner, fencingEpoch := epoch })
  else .error .changeFeedOwned

/-- `commit_baseline`. -/
def commitBaseline (stored : StoredFeed) (feed : ChangeFeed) :
    Except ProviderError (Verdict ChangeFeedBaseline) := do
  let journal ← checkedJournal stored feed
  match journal.baselineThrough with
  | some through => .ok (.keep {
      fencingEpoch := journal.fencingEpoch
      acknowledgedThrough := through
      feedHead := journal.head })
  | none => .ok (.store { journal with
      baselineThrough := some journal.head
      acknowledgedThrough := journal.head
      events := [] } {
        fencingEpoch := journal.fencingEpoch
        acknowledgedThrough := journal.head
        feedHead := journal.head })

/-- The changes of an event as they are handed out. -/
def StoredChangeSet.restore : StoredChangeSet → Except ProviderError ChangeSet
  | .exact changes => (ChangeBatch.new changes).map ChangeSet.exact
  | .collectionWide reason => .ok (.collectionWide reason)

/-- `runtime_event`. -/
def runtimeEvent (event : StoredEvent) : Except ProviderError RuntimeChangeEvent := do
  let changes ← event.changes.restore
  .ok {
    id := event.id
    watermark := event.watermark
    generation := event.generation
    changes := changes
    origin := event.origin
    commitId := event.commitId }

/-- The events of a page, with a check before each of them. -/
def runtimeEvents (context : Context) :
    (number : Nat) → List StoredEvent → Except ProviderError (List RuntimeChangeEvent)
  | _, [] => .ok []
  | number, event :: rest => do
      context.check number
      let event ← runtimeEvent event
      let rest ← runtimeEvents context (number + 1) rest
      .ok (event :: rest)

/-- The stored events that a page has. -/
def pageEvents (journal : FeedJournal) (after limit : Nat) : List StoredEvent :=
  (journal.events.filter fun event => event.watermark > after).take (min limit maxFeedPageItems)

/-- `read`. The limit is not zero. -/
def readFeed (stored : StoredFeed) (feed : ChangeFeed) (after : Option Nat) (limit : Nat)
    (context : Context) : Except ProviderError (Verdict RuntimeChangeEventPage) := do
  context.check 0
  let journal ← checkedJournal stored feed
  let after := after.getD journal.acknowledgedThrough
  if after < journal.acknowledgedThrough then .error .changeFeedRetentionGap
  else if after ≥ journal.head then
    .ok (.keep { events := [], next := none, feedHead := journal.head })
  else
    let page := pageEvents journal after limit
    let next := (page.getLast?.map StoredEvent.watermark).filter fun last => last < journal.head
    let events ← runtimeEvents context 1 page
    .ok (.keep { events := events, next := next, feedHead := journal.head })

/-- `ack`. -/
def ackFeed (stored : StoredFeed) (feed : ChangeFeed) (through : Nat) :
    Except ProviderError (Verdict (List String)) := do
  let journal ← checkedJournal stored feed
  if through > journal.head then .error .invalidChangeFeedAck
  else if through ≤ journal.acknowledgedThrough then .ok (.keep [])
  else
    .ok (.store { journal with
      acknowledgedThrough := through
      events := journal.events.filter fun event => ¬ event.watermark ≤ through }
      ((journal.events.filter fun event => event.watermark ≤ through).filterMap
        StoredEvent.commitId))

/-- `transfer_result`. A transferred feed has an owner. -/
def transferResult (journal : FeedJournal) (id : String) : ChangeFeedTransfer where
  feed := { owner := journal.owner.getD "", fencingEpoch := journal.fencingEpoch }
  receipt := {
    id := id
    fencingEpoch := journal.fencingEpoch
    acknowledgedThrough := journal.acknowledgedThrough
    feedHead := journal.head }

/-- `transfer`. -/
def transferFeed (stored : StoredFeed) (intent : ChangeFeedTransferIntent) :
    Except ProviderError (Verdict ChangeFeedTransfer) :=
  let journal := stored.journal
  match journal.pendingTransfer with
  | some pending =>
    if pending.id = intent.id ∧ pending.current = intent.current ∧ pending.next = intent.next ∧
        pending.expectedAckedThrough = intent.expectedAckedThrough ∧
        journal.owner = some intent.next then
      .ok (.keep (transferResult journal intent.id))
    else .error .changeFeedTransferMismatch
  | none =>
    if journal.owner ≠ some intent.current ∨
        journal.acknowledgedThrough ≠ intent.expectedAckedThrough then
      .error .changeFeedTransferMismatch
    else
      match checkedSucc journal.fencingEpoch with
      | none => .error .watermarkExhausted
      | some epoch =>
        let journal := { journal with
          fencingEpoch := epoch
          owner := some intent.next
          pendingTransfer := some {
            id := intent.id
            current := intent.current
            next := intent.next
            expectedAckedThrough := intent.expectedAckedThrough
            fencingEpoch := epoch } }
        .ok (.store journal (transferResult journal intent.id))

/-- `ack_transfer`. -/
def ackTransfer (stored : StoredFeed) (id : String) : Except ProviderError (Verdict Unit) :=
  let journal := stored.journal
  if journal.pendingTransfer.any fun transfer => transfer.id = id then
    .ok (.store { journal with
      pendingTransfer := none
      lastAcknowledgedTransferId := some id } ())
  else if journal.lastAcknowledgedTransferId = some id then .ok (.keep ())
  else .error .changeFeedTransferMismatch

/-- The calls of the feed. -/
inductive FeedCall where
  | reconcile (initial : CollectionGeneration)
      (resolutions : Except ProviderError (List CommittedResolution)) (context : Context)
  | appendKnown (outcome : KnownOutcome)
  | appendExternal (event : RuntimeChangeEvent)
  | openFeed (owner : String)
  | baseline (feed : ChangeFeed)
  | read (feed : ChangeFeed) (after : Option Nat) (limit : Nat) (positive : 0 < limit)
      (context : Context)
  | ack (feed : ChangeFeed) (through : Nat)
  | transfer (intent : ChangeFeedTransferIntent)
  | ackTransfer (id : String)

/-- The replies of the feed. -/
inductive FeedReply where
  | reconciled (feed : ReconciledFeed)
  | appended
  | opened (feed : ChangeFeed)
  | baseline (baseline : ChangeFeedBaseline)
  | page (page : RuntimeChangeEventPage)
  | acknowledged (commits : List String)
  | transferred (transfer : ChangeFeedTransfer)
  | transferAcknowledged

/-- A decision, with its reply among the replies of the feed. -/
def Verdict.map {α β : Type} (f : α → β) : Verdict α → Verdict β
  | .keep reply => .keep (f reply)
  | .store journal reply => .store journal (f reply)

/-- What the feed decides on a call. -/
def decideCall (stored : StoredFeed) : FeedCall → Except ProviderError (Verdict FeedReply)
  | .reconcile initial resolutions context =>
    (reconcile stored initial resolutions context).map (Verdict.map .reconciled)
  | .appendKnown outcome => (appendKnown stored outcome).map (Verdict.map fun _ => .appended)
  | .appendExternal event => (appendExternal stored event).map (Verdict.map fun _ => .appended)
  | .openFeed owner => (openFeed stored owner).map (Verdict.map .opened)
  | .baseline feed => (commitBaseline stored feed).map (Verdict.map .baseline)
  | .read feed after limit _ context =>
    (readFeed stored feed after limit context).map (Verdict.map .page)
  | .ack feed through => (ackFeed stored feed through).map (Verdict.map .acknowledged)
  | .transfer intent => (transferFeed stored intent).map (Verdict.map .transferred)
  | .ackTransfer id => (ackTransfer stored id).map (Verdict.map fun _ => .transferAcknowledged)

/-- A call of the feed. -/
def feedCall (bytes : FeedJournal → Nat) (stored : StoredFeed) (call : FeedCall) :
    Except ProviderError FeedReply × StoredFeed :=
  conclude bytes stored (decideCall stored call)

/-- A call of the feed as a step. -/
def FeedStep (bytes : FeedJournal → Nat) (before : StoredFeed) (call : FeedCall)
    (reply : Except ProviderError FeedReply) (after : StoredFeed) : Prop :=
  feedCall bytes before call = (reply, after)

end Mdbase.Provider
