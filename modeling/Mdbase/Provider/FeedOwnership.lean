import Mdbase.Provider.FeedReaders

/-!
# Ownership of the change feed

An open and a transfer issue a handle and fence off all earlier ones. A transfer that is
repeated before it is acknowledged leaves the feed alone, but its answer is built from
the journal of that moment: it is the answer of the first call only as long as neither
the epoch nor the positions of the feed have moved.
-/

namespace Mdbase.Provider

open Library
open Mdbase.Runtime (u64Max)

/-- The handle that a call issued, if it did. -/
def issued (exchange : FeedExchange) : Option ChangeFeed :=
  match exchange.call, exchange.reply with
  | .openFeed _, .ok (.opened feed) => some feed
  | .transfer _, .ok (.transferred transfer) =>
    if exchange.after = exchange.before then none else some transfer.feed
  | _, _ => none

/-- The handle that a call is made with, if it needs one. -/
def FeedCall.handle : FeedCall → Option ChangeFeed
  | .baseline feed => some feed
  | .read feed _ _ _ _ => some feed
  | .ack feed _ => some feed
  | _ => none

/-- What a call made with a handle decides once its handle is accepted. -/
def FeedCall.served (journal : FeedJournal) :
    FeedCall → Option (Except ProviderError (Verdict FeedReply))
  | .baseline _ => some <| .ok <|
    match journal.baselineThrough with
    | some through => .keep (.baseline ⟨journal.fencingEpoch, through, journal.head⟩)
    | none => .store { journal with
        baselineThrough := some journal.head
        acknowledgedThrough := journal.head
        events := [] } (.baseline ⟨journal.fencingEpoch, journal.head, journal.head⟩)
  | .read _ position limit _ context => some do
    context.check 0
    let after := position.getD journal.acknowledgedThrough
    if after < journal.acknowledgedThrough then .error .changeFeedRetentionGap
    else if journal.head ≤ after then .ok (.keep (.page ⟨[], none, journal.head⟩))
    else
      let page := pageEvents journal after limit
      let next := (page.getLast?.map StoredEvent.watermark).filter fun last => last < journal.head
      let events ← runtimeEvents context 1 page
      .ok (.keep (.page ⟨events, next, journal.head⟩))
  | .ack _ through => some <|
    if journal.head < through then .error .invalidChangeFeedAck
    else if through ≤ journal.acknowledgedThrough then .ok (.keep (.acknowledged []))
    else
      .ok (.store { journal with
        acknowledgedThrough := through
        events := journal.events.filter fun event => ¬ event.watermark ≤ through }
        (.acknowledged ((journal.events.filter fun event => event.watermark ≤ through).filterMap
          StoredEvent.commitId)))
  | _ => none

/-- Is the call not stopped before it looks at the feed? -/
def FeedCall.Ready : FeedCall → Prop
  | .read _ _ _ _ context => context 0 = none
  | _ => True

/-- The call is a transfer that changed the feed. -/
def Transfers (exchange : FeedExchange) (intent : ChangeFeedTransferIntent) : Prop :=
  exchange.call = .transfer intent ∧ (issued exchange).isSome = true

variable {bytes : FeedJournal → Nat} {exchange : FeedExchange}

theorem openFeed_keep {stored : StoredFeed} {owner : String} {reply : ChangeFeed} :
    openFeed stored owner ≠ .ok (.keep reply) := by
  unfold openFeed
  intro decided
  dsimp only at decided
  split at decided
  next =>
    split at decided
    next => cases decided
    next => cases decided
  next => cases decided

/-- A transfer that failed or left the feed alone issued no handle; an open that left the
feed alone failed. -/
theorem issued_eq_none_of_unchanged
    (step : FeedStep bytes exchange.before exchange.call exchange.reply exchange.after)
    (unchanged : exchange.after = exchange.before) : issued exchange = none := by
  unfold issued
  split
  next owner feed asked replied =>
    rw [asked, replied] at step
    rcases conclude_cases step with ⟨_, failed, _⟩ | ⟨_, kept, _, _⟩ |
      ⟨new, value, decided, _, _, stored⟩
    · cases failed
    · obtain ⟨_, decided, _⟩ := map_eq_keep_iff.mp kept
      exact absurd decided openFeed_keep
    · -- an open that is stored raises the epoch
      obtain ⟨_, opens, _⟩ := map_eq_store_iff.mp decided
      have epoch := congrArg (fun journal => journal.fencingEpoch) (openFeed_store opens).2.1
      rw [unchanged] at stored
      rw [stored] at epoch
      exact absurd epoch (Nat.ne_of_lt (Nat.lt_succ_self new.fencingEpoch))
  next => rw [if_pos unchanged]
  next => rfl

/-- A call issues a handle only with a new fencing epoch, and that handle is the current one. -/
theorem FeedStep.issuance
    (step : FeedStep bytes exchange.before exchange.call exchange.reply exchange.after) :
    (issued exchange = none ∧
      exchange.after.journal.owner = exchange.before.journal.owner ∧
      exchange.after.journal.fencingEpoch = exchange.before.journal.fencingEpoch) ∨
    ∃ feed, issued exchange = some feed ∧ Current exchange.after feed ∧
      exchange.after.journal.fencingEpoch = exchange.before.journal.fencingEpoch + 1 := by
  rcases exchange with ⟨before, call, reply, after⟩
  rcases step.cases with same | ⟨new, value, change, _, replied, stored⟩
  · refine .inl ⟨issued_eq_none_of_unchanged step same, ?_, ?_⟩
    · exact congrArg (fun feed => feed.journal.owner) same
    · exact congrArg (fun feed => feed.journal.fencingEpoch) same
  dsimp only at change replied stored ⊢
  subst replied stored
  change (_ ∧ new.owner = _ ∧ new.fencingEpoch = _) ∨ ∃ feed, _ ∧ _ ∧ new.fencingEpoch = _
  cases change with
  | reconciled growth =>
    refine .inl ⟨rfl, ?_, ?_⟩
    · rw [growth.rest]
    · rw [growth.rest]
  | known appended _ | external appended _ =>
    refine .inl ⟨rfl, ?_, ?_⟩
    · rw [appended.journal]
    · rw [appended.journal]
  | opened => exact .inr ⟨_, rfl, ⟨rfl, rfl⟩, rfl⟩
  | baselined | acknowledged => exact .inl ⟨rfl, rfl, rfl⟩
  | transferred free expected result =>
    have moved : ¬ some new = before := by
      intro same
      have epoch := congrArg FeedJournal.fencingEpoch result
      rw [← same] at epoch
      exact Nat.ne_of_lt (Nat.lt_succ_self new.fencingEpoch) epoch
    refine .inr ⟨(transferResult new _).feed, if_neg moved, ⟨?_, rfl⟩, ?_⟩
    · rw [result]
      rfl
    · rw [result]
  | transferAcknowledged => exact .inl ⟨rfl, rfl, rfl⟩

variable {start finish : StoredFeed} {exchanges : List FeedExchange}

theorem FeedStep.valid (valid : Valid exchange.before.journal)
    (step : FeedStep bytes exchange.before exchange.call exchange.reply exchange.after) :
    Valid exchange.after.journal := by
  rcases step.cases with same | ⟨new, _, _, stored, _, here⟩
  · rw [same]
    exact valid
  · rw [here]
    exact stored

theorem Valid.run (valid : Valid start.journal)
    (trace : Trace (FeedStep bytes) start exchanges finish) : Valid finish.journal :=
  @Trace.invariant _ _ _ _ _ _ _ (fun stored => Valid stored.journal) trace valid
    fun _ _ step before => step.valid before

theorem epoch_le (trace : Trace (FeedStep bytes) start exchanges finish) :
    start.journal.fencingEpoch ≤ finish.journal.fencingEpoch := by
  have rises : ∀ exchange ∈ exchanges,
      FeedStep bytes exchange.before exchange.call exchange.reply exchange.after →
        exchange.before.journal.fencingEpoch ≤ exchange.after.journal.fencingEpoch := by
    intro exchange _ step
    rcases step.issuance with ⟨_, _, same⟩ | ⟨_, _, _, later⟩
    · omega
    · omega
  exact @Trace.relates _ _ _ _ _ _ _ (fun before after => before.journal.fencingEpoch ≤
    after.journal.fencingEpoch) trace (fun _ => le_rfl) le_trans rises

variable {feed : ChangeFeed}

theorem Current.run (current : Current start feed)
    (trace : Trace (FeedStep bytes) start exchanges finish)
    (silent : ∀ exchange ∈ exchanges, issued exchange = none) : Current finish feed := by
  have kept : ∀ exchange ∈ exchanges,
      FeedStep bytes exchange.before exchange.call exchange.reply exchange.after →
        Current exchange.before feed → Current exchange.after feed := by
    intro exchange member step before
    rcases step.issuance with ⟨_, owner, epoch⟩ | ⟨other, contrary, _⟩
    · exact ⟨owner.trans before.1, epoch.trans before.2⟩
    · rw [silent exchange member] at contrary
      cases contrary
  exact @Trace.invariant _ _ _ _ _ _ _ (fun stored => Current stored feed) trace current kept

/-- A call with a handle that is not current changes nothing and is refused. -/
theorem FeedStep.fenced
    (step : FeedStep bytes exchange.before exchange.call exchange.reply exchange.after)
    (asked : exchange.call.handle = some feed) (foreign : ¬ Current exchange.before feed) :
    exchange.after = exchange.before ∧
      (exchange.call.Ready → exchange.reply = .error .changeFeedFenced) := by
  rcases exchange with ⟨before, call, reply, after⟩
  dsimp only at step asked foreign ⊢
  have refused : checkedJournal before feed = .error .changeFeedFenced := by
    unfold checkedJournal
    rw [if_pos]
    by_contra current
    rw [not_or, not_not, not_not] at current
    exact foreign current
  cases call with
  | baseline other =>
    cases asked
    have decided : commitBaseline before feed = .error .changeFeedFenced := by
      unfold commitBaseline
      rw [refused]
      rfl
    unfold FeedStep feedCall decideCall at step
    dsimp only at step
    rw [decided] at step
    cases step
    exact ⟨rfl, fun _ => rfl⟩
  | ack other through =>
    cases asked
    have decided : ackFeed before feed through = .error .changeFeedFenced := by
      unfold ackFeed
      rw [refused]
      rfl
    unfold FeedStep feedCall decideCall at step
    dsimp only at step
    rw [decided] at step
    cases step
    exact ⟨rfl, fun _ => rfl⟩
  | read other position limit positive context =>
    cases asked
    constructor
    · rcases conclude_cases step with ⟨_, _, same⟩ | ⟨_, _, _, same⟩ | ⟨_, _, decided, _⟩
      · exact same
      · exact same
      · obtain ⟨_, stored, _⟩ := map_eq_store_iff.mp decided
        exact absurd stored readFeed_store
    · intro ready
      have started : context.check 0 = .ok () := by
        have here : context 0 = none := ready
        simp [Context.check, here]
      refine (step.read_reply.2 _).mp ?_
      unfold readFeed
      rw [started, refused]
      rfl
  | reconcile initial resolutions context | appendKnown outcome | appendExternal event
  | openFeed owner | transfer intent | ackTransfer id => cases asked

/-- A call with the current handle is served. -/
theorem FeedStep.accepted {decision : Except ProviderError (Verdict FeedReply)}
    (valid : Valid exchange.before.journal)
    (step : FeedStep bytes exchange.before exchange.call exchange.reply exchange.after)
    (asked : exchange.call.handle = some feed) (current : Current exchange.before feed)
    (served : exchange.call.served exchange.before.journal = some decision) :
    (exchange.reply, exchange.after) = conclude bytes exchange.before decision := by
  rcases exchange with ⟨before, call, reply, after⟩
  dsimp only at valid step asked current served ⊢
  have checked : checkedJournal before feed = .ok before.journal := by
    unfold checkedJournal
    rw [if_neg (by simp [current.1, current.2]), validate_eq_ok_iff.mpr valid]
    rfl
  rw [← show _ = (reply, after) from step]
  unfold feedCall
  congr 1
  cases call with
  | baseline other =>
    cases asked
    cases served
    change (commitBaseline before feed).map _ = _
    unfold commitBaseline
    rw [checked]
    cases through : before.journal.baselineThrough with
    | none | some position => simp [bind, Except.bind, Except.map, Verdict.map, through]
  | ack other through =>
    cases asked
    cases served
    change (ackFeed before feed through).map _ = _
    unfold ackFeed
    rw [checked]
    by_cases beyond : before.journal.head < through
    · simp [bind, Except.bind, Except.map, beyond]
    · by_cases behind : through ≤ before.journal.acknowledgedThrough
      · simp [bind, Except.bind, Except.map, Verdict.map, beyond, behind]
      · simp [bind, Except.bind, Except.map, Verdict.map, beyond, behind]
  | read other position limit positive context =>
    cases asked
    cases served
    change (readFeed before feed position limit context).map _ = _
    unfold readFeed
    rw [checked]
    cases context.check 0 with
    | error stopped => rfl
    | ok =>
      simp only [bind, Except.bind, ge_iff_le]
      split_ifs with gap ahead
      · rfl
      · rfl
      · cases runtimeEvents context 1 (pageEvents before.journal
          (position.getD before.journal.acknowledgedThrough) limit) with
        | error stopped | ok events => rfl
  | reconcile initial resolutions context | appendKnown outcome | appendExternal event
  | openFeed owner | transfer intent | ackTransfer id => cases asked

/-- The transfer of an intent is pending. -/
def Pending (intent : ChangeFeedTransferIntent) (stored : StoredFeed) : Prop :=
  stored.journal.owner = some intent.next ∧
    ∃ epoch, stored.journal.pendingTransfer = some ⟨intent.id, intent.current, intent.next,
      intent.expectedAckedThrough, epoch⟩

variable {intent : ChangeFeedTransferIntent}

theorem FeedStep.transfers
    (step : FeedStep bytes exchange.before exchange.call exchange.reply exchange.after)
    (transfers : Transfers exchange intent) :
    Pending intent exchange.after ∧
      exchange.reply = .ok (.transferred (transferResult exchange.after.journal intent.id)) := by
  rcases exchange with ⟨before, call, reply, after⟩
  obtain ⟨rfl, issues⟩ := transfers
  rcases step.cases with same | ⟨new, value, change, _, replied, stored⟩
  · rw [issued_eq_none_of_unchanged step same] at issues
    cases issues
  · dsimp only at change replied stored ⊢
    subst replied stored
    cases change with
    | transferred free expected result =>
      refine ⟨⟨?_, before.journal.fencingEpoch + 1, ?_⟩, rfl⟩
      · change new.owner = _
        rw [result]
      · change new.pendingTransfer = _
        rw [result]

/-- A pending transfer stays pending until it is acknowledged. -/
theorem Pending.step {bytes : FeedJournal → Nat} {exchange : FeedExchange}
    {intent : ChangeFeedTransferIntent} (pending : Pending intent exchange.before)
    (step : FeedStep bytes exchange.before exchange.call exchange.reply exchange.after)
    (other : exchange.call ≠ .ackTransfer intent.id) : Pending intent exchange.after := by
  rcases exchange with ⟨before, call, reply, after⟩
  obtain ⟨owner, epoch, waiting⟩ := pending
  rcases step.cases with same | ⟨new, value, change, _, replied, stored⟩
  · dsimp only at same ⊢
    rw [same]
    exact ⟨owner, epoch, waiting⟩
  · dsimp only at change owner waiting other stored ⊢
    subst stored
    change new.owner = _ ∧ ∃ epoch, new.pendingTransfer = _
    cases change with
    | reconciled growth =>
      rw [growth.rest]
      exact ⟨owner, epoch, waiting⟩
    | known appended _ | external appended _ =>
      rw [appended.journal]
      exact ⟨owner, epoch, waiting⟩
    | opened free =>
      rw [owner] at free
      refine ⟨?_, epoch, waiting⟩
      rcases free with contrary | same
      · cases contrary
      · exact same.symm
    | baselined | acknowledged => exact ⟨owner, epoch, waiting⟩
    | transferred free _ _ =>
      rw [waiting] at free
      cases free
    | transferAcknowledged acknowledged =>
      obtain ⟨transfer, here, same⟩ := acknowledged
      rw [waiting] at here
      cases here
      exact absurd (by rw [← same]) other

theorem Pending.run
    (pending : Pending intent start) (trace : Trace (FeedStep bytes) start exchanges finish)
    (others : ∀ exchange ∈ exchanges, exchange.call ≠ .ackTransfer intent.id) :
    Pending intent finish := by
  have kept : ∀ exchange ∈ exchanges,
      FeedStep bytes exchange.before exchange.call exchange.reply exchange.after →
        Pending intent exchange.before → Pending intent exchange.after := by
    intro exchange member step before
    exact before.step step (others exchange member)
  exact trace.invariant pending kept

/-- A transfer while one is pending: the same intent is answered from the journal, another
one is refused. -/
theorem Pending.answer {bytes : FeedJournal → Nat} {exchange : FeedExchange}
    {intent other : ChangeFeedTransferIntent} (pending : Pending intent exchange.before)
    (step : FeedStep bytes exchange.before exchange.call exchange.reply exchange.after)
    (asked : exchange.call = .transfer other) :
    exchange.after = exchange.before ∧ exchange.reply = if other = intent then
      .ok (.transferred (transferResult exchange.before.journal intent.id))
      else .error .changeFeedTransferMismatch := by
  rcases exchange with ⟨before, call, reply, after⟩
  obtain ⟨owner, epoch, waiting⟩ := pending
  dsimp only at asked owner waiting step ⊢
  subst asked
  have decided : transferFeed before other = if other = intent then
      .ok (.keep (transferResult before.journal intent.id))
      else .error .changeFeedTransferMismatch := by
    unfold transferFeed
    dsimp only
    rw [waiting, owner]
    dsimp only
    by_cases same : other = intent
    · subst same
      simp
    · rw [if_neg same, if_neg]
      rintro ⟨id, current, next, expected, _⟩
      refine same ?_
      cases other
      cases intent
      simp_all
  unfold FeedStep feedCall decideCall at step
  dsimp only at step
  rw [decided] at step
  by_cases same : other = intent
  · rw [if_pos same] at step ⊢
    cases step
    exact ⟨rfl, rfl⟩
  · rw [if_neg same] at step ⊢
    cases step
    exact ⟨rfl, rfl⟩

/-- The transfer with an id was the last one to be acknowledged, and none with the id is
pending. -/
def Acknowledged (id : String) (stored : StoredFeed) : Prop :=
  stored.journal.lastAcknowledgedTransferId = some id ∧
    ∀ transfer, stored.journal.pendingTransfer = some transfer → transfer.id ≠ id

variable {id : String}

theorem FeedStep.acknowledges {value : FeedReply}
    (step : FeedStep bytes exchange.before exchange.call exchange.reply exchange.after)
    (asked : exchange.call = .ackTransfer id) (replied : exchange.reply = .ok value) :
    Acknowledged id exchange.after := by
  rcases exchange with ⟨before, call, reply, after⟩
  dsimp only at asked replied step ⊢
  subst asked replied
  rcases conclude_cases step with ⟨_, failed, _⟩ | ⟨_, kept, _, same⟩ | ⟨new, _, stored, _, _, here⟩
  · cases failed
  · obtain ⟨_, decided, _⟩ := map_eq_keep_iff.mp kept
    rw [same]
    unfold ackTransfer at decided
    dsimp only at decided
    split at decided
    next => cases decided
    rename_i unmatched
    split at decided
    next last =>
      refine ⟨last, fun transfer here identical => unmatched ?_⟩
      rw [here]
      simpa using identical
    next => cases decided
  · obtain ⟨_, decided, _⟩ := map_eq_store_iff.mp stored
    obtain ⟨_, result⟩ := ackTransfer_store decided
    subst here result
    exact ⟨rfl, fun transfer contrary => by cases contrary⟩

/-- An acknowledgement remains the last one until another id is acknowledged or a transfer
with the same id is made. -/
theorem Acknowledged.step {bytes : FeedJournal → Nat} {exchange : FeedExchange} {id : String}
    (acknowledged : Acknowledged id exchange.before)
    (step : FeedStep bytes exchange.before exchange.call exchange.reply exchange.after)
    (latest : ∀ other value, exchange.call = .ackTransfer other → exchange.reply = .ok value →
      other = id)
    (fresh : ∀ intent, Transfers exchange intent → intent.id ≠ id) :
    Acknowledged id exchange.after := by
  have issues := step.issuance
  rcases exchange with ⟨before, call, reply, after⟩
  obtain ⟨last, unmatched⟩ := acknowledged
  rcases step.cases with same | ⟨new, value, change, _, replied, stored⟩
  · dsimp only at same ⊢
    rw [same]
    exact ⟨last, unmatched⟩
  · dsimp only at change last unmatched latest replied stored issues fresh ⊢
    subst replied stored
    change new.lastAcknowledgedTransferId = _ ∧ ∀ transfer, new.pendingTransfer = _ → _
    cases change with
    | reconciled growth =>
      rw [growth.rest]
      exact ⟨last, unmatched⟩
    | known appended _ | external appended _ =>
      rw [appended.journal]
      exact ⟨last, unmatched⟩
    | opened | baselined | acknowledged => exact ⟨last, unmatched⟩
    | transferred free expected result =>
      rcases issues with ⟨_, _, same⟩ | ⟨feed, issues, _⟩
      · change new.fencingEpoch = _ at same
        rw [result] at same
        exact absurd same (Nat.succ_ne_self _)
      · have other := fresh _ ⟨rfl, by rw [issues]; rfl⟩
        rw [result]
        refine ⟨last, fun transfer here => ?_⟩
        cases here
        exact other
    | transferAcknowledged =>
      rw [latest _ _ rfl rfl]
      exact ⟨rfl, fun transfer contrary => by cases contrary⟩

theorem Acknowledged.run (acknowledged : Acknowledged id start)
    (trace : Trace (FeedStep bytes) start exchanges finish)
    (latest : ∀ exchange ∈ exchanges, ∀ other value, exchange.call = .ackTransfer other →
      exchange.reply = .ok value → other = id)
    (fresh : ∀ exchange ∈ exchanges, ∀ intent, Transfers exchange intent → intent.id ≠ id) :
    Acknowledged id finish := by
  have kept : ∀ exchange ∈ exchanges,
      FeedStep bytes exchange.before exchange.call exchange.reply exchange.after →
        Acknowledged id exchange.before → Acknowledged id exchange.after := by
    intro exchange member step before
    exact before.step step (latest exchange member) (fresh exchange member)
  exact trace.invariant acknowledged kept

theorem Acknowledged.again (acknowledged : Acknowledged id exchange.before)
    (step : FeedStep bytes exchange.before exchange.call exchange.reply exchange.after)
    (asked : exchange.call = .ackTransfer id) :
    exchange.after = exchange.before ∧ exchange.reply = .ok .transferAcknowledged := by
  rcases exchange with ⟨before, call, reply, after⟩
  obtain ⟨last, unmatched⟩ := acknowledged
  dsimp only at asked last unmatched step ⊢
  subst asked
  have decided : ackTransfer before id = .ok (.keep ()) := by
    unfold ackTransfer
    dsimp only
    rw [if_neg, if_pos last]
    cases here : before.journal.pendingTransfer with
    | none => simp
    | some transfer => simpa using unmatched transfer here
  unfold FeedStep feedCall decideCall at step
  dsimp only at step
  rw [decided] at step
  cases step
  exact ⟨rfl, rfl⟩

/-- Two calls of a run with the calls between them. -/
def Later (exchanges : List FeedExchange) (earlier : FeedExchange) (between : List FeedExchange)
    (later : FeedExchange) : Prop :=
  ∃ first rest, exchanges = first ++ earlier :: (between ++ later :: rest)

/-- A run in which the ownership of the feed is fenced. An issued handle raises the epoch,
is served until the next one is issued, and from then on is refused without effect. A
transfer that is repeated before it is acknowledged has no effect and the same answer,
another one is refused in that time, and an acknowledgement may be repeated. -/
structure OwnershipFenced (bytes : FeedJournal → Nat) (exchanges : List FeedExchange) :
    Prop where
  rises : ∀ exchange ∈ exchanges, ∀ feed, issued exchange = some feed →
    exchange.before.journal.fencingEpoch < exchange.after.journal.fencingEpoch
  accepted : ∀ issuing between later, Later exchanges issuing between later →
    ∀ feed, issued issuing = some feed → (∀ other ∈ between, issued other = none) →
    later.call.handle = some feed →
    ∀ decision, later.call.served later.before.journal = some decision →
    (later.reply, later.after) = conclude bytes later.before decision
  refused : ∀ issuing between later, Later exchanges issuing between later →
    ∀ feed, issued issuing = some feed → (∃ other ∈ between, (issued other).isSome = true) →
    later.call.handle = some feed → later.after = later.before ∧
      (later.call.Ready → later.reply = .error .changeFeedFenced)
  repeated : ∀ transfer between again, Later exchanges transfer between again →
    ∀ intent, Transfers transfer intent →
    (∀ other ∈ between, other.call ≠ .ackTransfer intent.id) →
    again.call = .transfer intent → again.after = again.before ∧ again.reply = transfer.reply
  different : ∀ transfer between again, Later exchanges transfer between again →
    ∀ intent, Transfers transfer intent →
    (∀ other ∈ between, other.call ≠ .ackTransfer intent.id) →
    ∀ other, other ≠ intent → again.call = .transfer other →
    again.after = again.before ∧ again.reply = .error .changeFeedTransferMismatch
  acknowledged : ∀ acknowledgement between again, Later exchanges acknowledgement between again →
    ∀ id value, acknowledgement.call = .ackTransfer id → acknowledgement.reply = .ok value →
    (∀ exchange ∈ between, ∀ other value, exchange.call = .ackTransfer other →
      exchange.reply = .ok value → other = id) →
    (∀ exchange ∈ between, ∀ intent, Transfers exchange intent → intent.id ≠ id) →
    again.call = .ackTransfer id →
    again.after = again.before ∧ again.reply = .ok .transferAcknowledged

/-- A reconciliation takes over the event of a transaction that committed behind the head. -/
def TakesOver (journal : FeedJournal) (listed : List CommittedResolution) : Prop :=
  ∃ first resolution rest, listed = first ++ resolution :: rest ∧
    journal.head < resolution.watermark ∧
    (∀ event ∈ journal.events, event.id ≠ resolution.eventId) ∧
    ∀ other ∈ first, other.eventId ≠ resolution.eventId

/-- A successful call moves the feed: an open, a baseline or an acknowledgement of events
that wait, an event behind the head. -/
def Moves (exchange : FeedExchange) : Prop :=
  let journal := exchange.before.journal
  (∃ value, exchange.reply = .ok value) ∧
    match exchange.call with
    | .openFeed _ => True
    | .baseline _ => journal.baselineThrough = none ∧ journal.acknowledgedThrough < journal.head
    | .ack _ through => journal.acknowledgedThrough < through
    | .appendKnown outcome =>
      ∃ id watermark, outcome.changeEvent = some (id, watermark) ∧ journal.head < watermark
    | .appendExternal event => event.changes ≠ .none ∧ journal.head < event.watermark
    | .reconcile _ resolutions _ => ∃ listed, resolutions = .ok listed ∧ TakesOver journal listed
    | _ => False

/-- No call moves the feed between a transfer and its repetition before it is
acknowledged. -/
def RepeatsUnmoved (exchanges : List FeedExchange) : Prop :=
  ∀ transfer between again, Later exchanges transfer between again →
    ∀ intent, Transfers transfer intent →
    (∀ other ∈ between, other.call ≠ .ackTransfer intent.id) →
    again.call = .transfer intent → ∀ other ∈ between, ¬ Moves other

theorem reconcileOne_cases {journal next : FeedJournal} {generation later : CollectionGeneration}
    {changed after : Bool} {resolution : CommittedResolution}
    (result : reconcileOne (journal, generation, changed) resolution = .ok (next, later, after)) :
    ((∃ event ∈ journal.events, event.id = resolution.eventId) ∧ next = journal) ∨
    (∀ event ∈ journal.events, event.id ≠ resolution.eventId) ∧
      next.head = max journal.head resolution.watermark ∧
      ∃ event, event.id = resolution.eventId ∧ next.events = journal.events ++ [event] := by
  unfold reconcileOne at result
  dsimp only at result
  split at result
  next known =>
    cases result
    obtain ⟨event, member, same⟩ := List.any_eq_true.mp known
    exact .inl ⟨⟨event, member, by simpa using same⟩, rfl⟩
  rename_i unknown
  split at result
  next => cases result
  obtain ⟨_, _, stored⟩ := bind_eq_ok.mp result
  cases stored
  refine .inr ⟨fun event member same => unknown ?_, rfl, _, rfl, rfl⟩
  exact List.any_eq_true.mpr ⟨event, member, by simpa using same⟩

/-- A reconciliation raises the head exactly by the events that it takes over. -/
theorem takesOver_iff {journal next : FeedJournal} {generation later : CollectionGeneration}
    {changed after : Bool} {context : Context} {number : Nat}
    {listed : List CommittedResolution}
    (result : reconcileAll context number (journal, generation, changed) listed =
      .ok (next, later, after)) : journal.head < next.head ↔ TakesOver journal listed := by
  induction listed generalizing number journal generation changed with
  | nil =>
    cases result
    simp [TakesOver]
  | cons resolution rest ih =>
    obtain ⟨_, _, result⟩ := bind_eq_ok.mp result
    obtain ⟨⟨middle, middleGeneration, middleChanged⟩, first, result⟩ := bind_eq_ok.mp result
    have ascending := (reconcileAll_grown result).1.ascending
    have later := ih result
    rcases reconcileOne_cases first with ⟨⟨event, member, known⟩, rfl⟩ |
      ⟨unknown, head, added, identity, events⟩
    · -- a known event is passed over, here and in what is taken over
      rw [later]
      constructor
      · rintro ⟨before, taken, behind, rfl, above, fresh, unseen⟩
        refine ⟨resolution :: before, taken, behind, rfl, above, fresh, ?_⟩
        refine List.forall_mem_cons.mpr ⟨fun same => ?_, unseen⟩
        exact fresh event member (known.trans same)
      · rintro ⟨before, taken, behind, split, above, fresh, unseen⟩
        cases before with
        | nil =>
          cases split
          exact absurd known (fresh event member)
        | cons other before =>
          cases split
          exact ⟨before, taken, behind, rfl, above, fresh,
            fun other member => unseen other (List.mem_cons_of_mem _ member)⟩
    · constructor
      · intro rises
        by_cases above : journal.head < resolution.watermark
        · exact ⟨[], resolution, rest, rfl, above, unknown, by simp⟩
        have same : middle.head = journal.head := by omega
        obtain ⟨before, taken, behind, rfl, above, fresh, unseen⟩ := later.mp (same ▸ rises)
        rw [events] at fresh
        refine ⟨resolution :: before, taken, behind, rfl, same ▸ above,
          fun event member => fresh event (List.mem_append_left _ member), ?_⟩
        refine List.forall_mem_cons.mpr ⟨fun same => ?_, unseen⟩
        exact fresh added (List.mem_append_right _ List.mem_cons_self) (identity.trans same)
      · rintro ⟨before, taken, behind, split, above, fresh, unseen⟩
        cases before with
        | nil =>
          cases split
          omega
        | cons other before =>
          cases split
          by_cases moved : journal.head < middle.head
          · omega
          have same : middle.head = journal.head := by omega
          rw [← same]
          refine later.mpr ⟨before, taken, behind, rfl, same ▸ above, ?_,
            fun other member => unseen other (List.mem_cons_of_mem _ member)⟩
          rw [events]
          intro event member
          rcases List.mem_append.mp member with old | new
          · exact fresh event old
          · rw [List.mem_singleton.mp new, identity]
            exact unseen resolution List.mem_cons_self

/-- The watermarks of a feed have 64 bits. -/
def Counted (stored : StoredFeed) : Prop := stored.journal.head ≤ u64Max

/-- The epoch and the positions of the feed, in one number. -/
def StoredFeed.place (stored : StoredFeed) : Nat :=
  stored.journal.fencingEpoch + stored.journal.acknowledgedThrough + stored.journal.head

/-- The epoch and the positions are not lowered. -/
def Ahead (before after : StoredFeed) : Prop :=
  before.journal.fencingEpoch ≤ after.journal.fencingEpoch ∧
    before.journal.acknowledgedThrough ≤ after.journal.acknowledgedThrough ∧
    before.journal.head ≤ after.journal.head

/-- A call never takes a feed back. -/
theorem FeedStep.ahead (valid : Valid exchange.before.journal) (counted : Counted exchange.before)
    (step : FeedStep bytes exchange.before exchange.call exchange.reply exchange.after) :
    Ahead exchange.before exchange.after ∧ Counted exchange.after := by
  rcases exchange with ⟨before, call, reply, after⟩
  rcases step.cases with same | ⟨new, value, change, stored, _, here⟩
  · dsimp only at same counted ⊢
    rw [same]
    exact ⟨⟨le_rfl, le_rfl, le_rfl⟩, counted⟩
  dsimp only at change here counted valid ⊢
  subst here
  change (before.journal.fencingEpoch ≤ new.fencingEpoch ∧
    before.journal.acknowledgedThrough ≤ new.acknowledgedThrough ∧
    before.journal.head ≤ new.head) ∧ new.head ≤ u64Max
  have waiting := valid.acknowledged
  unfold Counted at counted
  cases change with
  | @reconciled _ _ _ grown _ growth =>
    have ascending := growth.ascending
    have epoch := congrArg FeedJournal.fencingEpoch growth.rest
    have acknowledged := congrArg FeedJournal.acknowledgedThrough growth.rest
    dsimp only at epoch acknowledged ⊢
    refine ⟨⟨epoch.ge, acknowledged.ge, ascending⟩, ?_⟩
    rcases growth.head with same | ⟨event, member, latest⟩
    · omega
    · have listed : event ∈ sortEvents grown.events :=
        (List.perm_insertionSort _ _).mem_iff.mpr member
      rw [← latest]
      exact (watermark_le_of_follows stored.follows event listed).1
  | known appended _ | external appended _ =>
    obtain ⟨rfl, next, _⟩ := appended
    dsimp only
    rw [next, saturatingSucc]
    omega
  | opened | baselined | transferAcknowledged =>
    dsimp only
    omega
  | acknowledged current le gt =>
    dsimp only
    omega
  | transferred free expected result =>
    subst result
    dsimp only
    omega

theorem appendKnown_keep {stored : StoredFeed} {outcome : KnownOutcome} {id : String}
    {watermark : Nat} (decided : appendKnown stored outcome = .ok (.keep ()))
    (identity : outcome.changeEvent = some (id, watermark)) :
    ∃ event ∈ stored.journal.events, event.watermark = watermark := by
  unfold appendKnown at decided
  rw [identity] at decided
  split at decided
  next => cases decided
  next => cases decided
  next same _ _ =>
    cases same
    obtain ⟨_, _, decided⟩ := bind_eq_ok.mp decided
    split at decided
    next existing found =>
      split at decided
      next agrees => exact ⟨existing, List.mem_of_find?_eq_some found, agrees.1⟩
      next => cases decided
    split at decided
    next => cases decided
    split at decided
    next => cases decided
    next => cases decided
  next => cases decided

theorem appendExternal_changes {stored : StoredFeed} {event : RuntimeChangeEvent}
    {verdict : Verdict Unit} (decided : appendExternal stored event = .ok verdict) :
    (∃ new, verdict = .store new ()) ↔ event.changes ≠ .none := by
  unfold appendExternal at decided
  obtain ⟨_, _, decided⟩ := bind_eq_ok.mp decided
  split at decided
  next => cases decided
  split at decided
  next => cases decided
  cases kind : event.changes with
  | none =>
    rw [kind] at decided
    cases decided
    simp
  | exact batch | collectionWide reason =>
    rw [kind] at decided
    cases decided
    simp

theorem commitBaseline_first {stored : StoredFeed} {verdict : Verdict ChangeFeedBaseline}
    (decided : commitBaseline stored feed = .ok verdict) :
    (∃ new reply, verdict = .store new reply) ↔ stored.journal.baselineThrough = none := by
  unfold commitBaseline at decided
  obtain ⟨journal, checked, decided⟩ := bind_eq_ok.mp decided
  obtain ⟨rfl, _, _⟩ := checkedJournal_eq_ok checked
  cases through : stored.journal.baselineThrough with
  | none | some position =>
    rw [through] at decided
    cases decided
    simp

theorem ackFeed_keep {stored : StoredFeed} {through : Nat} {reply : List String}
    (decided : ackFeed stored feed through = .ok (.keep reply)) :
    through ≤ stored.journal.acknowledgedThrough := by
  unfold ackFeed at decided
  obtain ⟨journal, checked, decided⟩ := bind_eq_ok.mp decided
  obtain ⟨rfl, _, _⟩ := checkedJournal_eq_ok checked
  split at decided
  next => cases decided
  split at decided
  next behind => exact behind
  next => cases decided

variable {before : StoredFeed} {call : FeedCall} {new : FeedJournal} {value : FeedReply}

/-- A call that keeps the feed does not move it. -/
theorem not_moves_of_keep (valid : Valid before.journal)
    (kept : decideCall before call = .ok (.keep value)) :
    ¬ Moves ⟨before, call, .ok value, before⟩ := by
  rintro ⟨-, moves⟩
  cases call with
  | reconcile initial resolutions context =>
    obtain ⟨_, decided, _⟩ := map_eq_keep_iff.mp kept
    obtain ⟨listed, grown, _, changed, lists, rounds, verdict⟩ := reconcile_ok decided
    obtain ⟨_, same, taken⟩ := moves
    rw [lists] at same
    cases same
    cases changed with
    | true => cases verdict
    | false =>
      rw [← takesOver_iff rounds, (reconcileAll_grown rounds).2 rfl] at taken
      exact absurd taken (lt_irrefl _)
  | appendKnown outcome =>
    obtain ⟨_, decided, _⟩ := map_eq_keep_iff.mp kept
    obtain ⟨id, watermark, identity, above⟩ := moves
    obtain ⟨event, member, same⟩ := appendKnown_keep decided identity
    have below := (watermark_le_of_follows valid.follows event member).2
    rw [same] at below
    exact absurd above (not_lt.mpr below)
  | appendExternal event =>
    obtain ⟨_, decided, _⟩ := map_eq_keep_iff.mp kept
    obtain ⟨_, contrary⟩ := (appendExternal_changes decided).mpr moves.1
    cases contrary
  | openFeed owner =>
    obtain ⟨_, decided, _⟩ := map_eq_keep_iff.mp kept
    exact absurd decided openFeed_keep
  | baseline feed =>
    obtain ⟨_, decided, _⟩ := map_eq_keep_iff.mp kept
    obtain ⟨_, _, contrary⟩ := (commitBaseline_first decided).mpr moves.1
    cases contrary
  | ack feed through =>
    obtain ⟨_, decided, _⟩ := map_eq_keep_iff.mp kept
    exact absurd (ackFeed_keep decided) (not_le.mpr moves)
  | read feed position limit positive context | transfer intent | ackTransfer id => exact moves

/-- While a transfer is pending, a call that stores a journal moves the feed exactly if it raises
the epoch or a position. -/
theorem moves_iff_of_store (valid : Valid before.journal) (counted : Counted before)
    (waiting : before.journal.pendingTransfer ≠ none) (ahead : Ahead before (some new))
    (decided : decideCall before call = .ok (.store new value)) :
    StoredFeed.place (some new) = before.place ↔ ¬ Moves ⟨before, call, .ok value, some new⟩ := by
  have replies : ∃ reply, (Except.ok value : Except ProviderError FeedReply) = .ok reply :=
    ⟨value, rfl⟩
  have change := feedChange_of_store decided
  change new.fencingEpoch + new.acknowledgedThrough + new.head =
    before.journal.fencingEpoch + before.journal.acknowledgedThrough + before.journal.head ↔ _
  have acknowledged := valid.acknowledged
  unfold Counted at counted
  cases call with
  | reconcile initial resolutions context =>
    obtain ⟨_, decided, _⟩ := map_eq_store_iff.mp decided
    obtain ⟨listed, grown, _, changed, lists, rounds, verdict⟩ := reconcile_ok decided
    have growth := (reconcileAll_grown rounds).1
    have ascending := growth.ascending
    have epoch := congrArg FeedJournal.fencingEpoch growth.rest
    have position := congrArg FeedJournal.acknowledgedThrough growth.rest
    dsimp only at epoch position
    cases changed with
    | false => cases verdict
    | true =>
      cases verdict
      have moves : Moves ⟨before, .reconcile initial resolutions context, .ok value,
          some { grown with events := sortEvents grown.events }⟩ ↔
          TakesOver before.journal listed := by
        simp [Moves, lists]
      rw [moves, ← takesOver_iff rounds]
      dsimp only
      omega
  | appendKnown outcome =>
    obtain ⟨_, decided, _⟩ := map_eq_store_iff.mp decided
    obtain ⟨event, ⟨rfl, next, _⟩, identity⟩ := appendKnown_store decided
    have moves : Moves ⟨before, .appendKnown outcome, .ok value, some { before.journal with
        head := event.watermark, events := before.journal.events ++ [event] }⟩ ↔
        before.journal.head < event.watermark := by
      simp [Moves, identity]
    rw [moves]
    dsimp only
    rw [next, saturatingSucc]
    omega
  | appendExternal observed =>
    obtain ⟨_, decided, _⟩ := map_eq_store_iff.mp decided
    have changes := (appendExternal_changes decided).mp ⟨_, rfl⟩
    obtain ⟨event, ⟨rfl, next, _⟩, same⟩ := appendExternal_store decided
    have moves : Moves ⟨before, .appendExternal observed, .ok value, some { before.journal with
        head := event.watermark, events := before.journal.events ++ [event] }⟩ ↔
        before.journal.head < event.watermark := by
      simp [Moves, changes, same]
    rw [moves]
    dsimp only
    rw [next, saturatingSucc]
    omega
  | openFeed owner =>
    cases change
    refine iff_of_false ?_ (not_not.mpr ⟨replies, trivial⟩)
    dsimp only
    omega
  | baseline feed =>
    obtain ⟨_, decided, _⟩ := map_eq_store_iff.mp decided
    have first := (commitBaseline_first decided).mp ⟨_, _, rfl⟩
    cases change
    have moves : Moves ⟨before, .baseline feed, .ok value, some { before.journal with
        baselineThrough := some before.journal.head
        acknowledgedThrough := before.journal.head
        events := [] }⟩ ↔ before.journal.acknowledgedThrough < before.journal.head := by
      simp [Moves, first]
    rw [moves]
    dsimp only
    omega
  | read feed position limit positive context => cases change
  | ack feed through =>
    cases change with
    | acknowledged current le gt =>
      refine iff_of_false ?_ (not_not.mpr ⟨replies, gt⟩)
      dsimp only
      omega
  | transfer intent =>
    cases change with
    | transferred free => exact absurd free waiting
  | ackTransfer id =>
    cases change
    exact iff_of_true rfl fun moves => moves.2

/-- While a transfer is pending, the calls that move the feed are those that raise the
epoch or a position. -/
theorem FeedStep.moves_iff (valid : Valid exchange.before.journal)
    (counted : Counted exchange.before) (waiting : exchange.before.journal.pendingTransfer ≠ none)
    (step : FeedStep bytes exchange.before exchange.call exchange.reply exchange.after) :
    exchange.after.place = exchange.before.place ↔ ¬ Moves exchange := by
  have ahead := (step.ahead valid counted).1
  rcases exchange with ⟨before, call, reply, after⟩
  dsimp only at valid counted waiting step ahead ⊢
  rcases conclude_cases step with ⟨_, rfl, rfl⟩ | ⟨value, kept, rfl, rfl⟩ |
    ⟨new, value, decided, stored, rfl, rfl⟩
  · refine iff_of_true rfl ?_
    rintro ⟨⟨_, contrary⟩, _⟩
    cases contrary
  · exact iff_of_true rfl (not_moves_of_keep valid kept)
  · exact moves_iff_of_store valid counted waiting ahead decided

theorem Counted.run (valid : Valid start.journal) (counted : Counted start)
    (trace : Trace (FeedStep bytes) start exchanges finish) :
    Valid finish.journal ∧ Counted finish := by
  have kept : ∀ exchange ∈ exchanges,
      FeedStep bytes exchange.before exchange.call exchange.reply exchange.after →
        Valid exchange.before.journal ∧ Counted exchange.before →
        Valid exchange.after.journal ∧ Counted exchange.after := by
    rintro exchange _ step ⟨valid, counted⟩
    exact ⟨step.valid valid, (step.ahead valid counted).2⟩
  exact @Trace.invariant _ _ _ _ _ _ _ (fun stored => Valid stored.journal ∧ Counted stored)
    trace ⟨valid, counted⟩ kept

/-- The feed stands where a transfer left it exactly if no call in between moved it. -/
theorem Pending.unmoved_iff (pending : Pending intent start) (valid : Valid start.journal)
    (counted : Counted start) (trace : Trace (FeedStep bytes) start exchanges finish)
    (others : ∀ exchange ∈ exchanges, exchange.call ≠ .ackTransfer intent.id) :
    (finish.journal.fencingEpoch = start.journal.fencingEpoch ∧
      finish.journal.acknowledgedThrough = start.journal.acknowledgedThrough ∧
      finish.journal.head = start.journal.head) ↔ ∀ exchange ∈ exchanges, ¬ Moves exchange := by
  have steps : ∀ exchange ∈ exchanges, Ahead exchange.before exchange.after ∧
      (exchange.after.place = exchange.before.place ↔ ¬ Moves exchange) := by
    intro exchange member
    obtain ⟨first, rest, rfl⟩ := List.append_of_mem member
    obtain ⟨head, step, _⟩ := trace.middle_inv
    obtain ⟨here, inside⟩ := counted.run valid head
    obtain ⟨_, _, waiting⟩ := pending.run head fun other earlier =>
      others other (List.mem_append_left _ earlier)
    exact ⟨(step.ahead here inside).1, step.moves_iff here inside (by simp [waiting])⟩
  have places : ∀ exchange ∈ exchanges, exchange.before.place ≤ exchange.after.place := by
    intro exchange member
    obtain ⟨⟨epoch, acknowledged, head⟩, _⟩ := steps exchange member
    exact Nat.add_le_add (Nat.add_le_add epoch acknowledged) head
  have ahead : Ahead start finish := by
    refine @Trace.relates _ _ _ _ _ _ _ Ahead trace (fun _ => ⟨le_rfl, le_rfl, le_rfl⟩) ?_
      fun exchange member _ => (steps exchange member).1
    rintro first second third ⟨epoch, acknowledged, head⟩ ⟨later, further, last⟩
    exact ⟨epoch.trans later, acknowledged.trans further, head.trans last⟩
  rw [← forall₂_congr fun exchange member => (steps exchange member).2,
    ← trace.measure_eq_iff places]
  obtain ⟨epoch, acknowledged, head⟩ := ahead
  unfold StoredFeed.place
  omega

variable {exchanges between : List FeedExchange}

theorem Later.parts {earlier later : FeedExchange}
    (trace : Trace (FeedStep bytes) start exchanges finish)
    (positions : Later exchanges earlier between later) :
    (∃ first, Trace (FeedStep bytes) start first earlier.after) ∧
      FeedStep bytes earlier.before earlier.call earlier.reply earlier.after ∧
      Trace (FeedStep bytes) earlier.after between later.before ∧
      FeedStep bytes later.before later.call later.reply later.after := by
  obtain ⟨first, rest, rfl⟩ := positions
  obtain ⟨head, step, tail⟩ := trace.middle_inv
  obtain ⟨middle, laterStep, _⟩ := tail.middle_inv
  exact ⟨⟨_, head.snoc step⟩, step, middle, laterStep⟩

theorem not_current_of_issued (current : Current start feed)
    (trace : Trace (FeedStep bytes) start exchanges finish)
    (issues : ∃ other ∈ exchanges, (issued other).isSome = true) : ¬ Current finish feed := by
  obtain ⟨other, member, issues⟩ := issues
  obtain ⟨first, rest, rfl⟩ := List.append_of_mem member
  obtain ⟨head, step, tail⟩ := trace.middle_inv
  have before := epoch_le head
  have after := epoch_le tail
  rcases step.issuance with ⟨silent, _⟩ | ⟨_, _, _, later⟩
  · rw [silent] at issues
    cases issues
  · intro still
    have startEpoch := current.2
    have finishEpoch := still.2
    omega

theorem transferResult_eq_iff {first second : FeedJournal} {id owner : String}
    (firstOwner : first.owner = some owner) (secondOwner : second.owner = some owner) :
    transferResult first id = transferResult second id ↔
      first.fencingEpoch = second.fencingEpoch ∧
        first.acknowledgedThrough = second.acknowledgedThrough ∧ first.head = second.head := by
  unfold transferResult
  rw [firstOwner, secondOwner]
  simp

theorem repeated_transfer {transfer again : FeedExchange}
    (trace : Trace (FeedStep bytes) none exchanges finish)
    (positions : Later exchanges transfer between again) (transfers : Transfers transfer intent)
    (unacknowledged : ∀ other ∈ between, other.call ≠ .ackTransfer intent.id)
    (asked : again.call = .transfer intent) :
    again.after = again.before ∧
      (again.reply = transfer.reply ↔ ∀ other ∈ between, ¬ Moves other) := by
  obtain ⟨⟨_, whole⟩, step, middle, againStep⟩ := positions.parts trace
  obtain ⟨pending, replied⟩ := step.transfers transfers
  have still := pending.run middle unacknowledged
  obtain ⟨unchanged, answer⟩ := still.answer againStep asked
  refine ⟨unchanged, ?_⟩
  have initial : Valid (StoredFeed.journal none) := Contiguous.default.valid
  obtain ⟨valid, counted⟩ := Counted.run initial (Nat.zero_le _) whole
  rw [answer, if_pos rfl, replied, Except.ok.injEq, FeedReply.transferred.injEq,
    transferResult_eq_iff still.1 pending.1]
  exact pending.unmoved_iff valid counted middle unacknowledged

/-- The ownership of the feed is fenced in exactly those runs in which no call moves the
feed between a transfer and its repetition. -/
theorem ownership_fenced_iff {bytes : FeedJournal → Nat} {exchanges : List FeedExchange}
    {finish : StoredFeed} (trace : Trace (FeedStep bytes) none exchanges finish) :
    OwnershipFenced bytes exchanges ↔ RepeatsUnmoved exchanges := by
  constructor
  · intro fenced transfer between again positions intent transfers unacknowledged asked
    have same := (fenced.repeated transfer between again positions intent transfers unacknowledged
      asked).2
    exact (repeated_transfer trace positions transfers unacknowledged asked).2.mp same
  intro unmoved
  have initial : Valid (StoredFeed.journal none) := Contiguous.default.valid
  refine ⟨?_, ?_, ?_, ?_, ?_, ?_⟩
  · intro exchange member feed issues
    obtain ⟨first, rest, rfl⟩ := List.append_of_mem member
    obtain ⟨_, step, _⟩ := trace.middle_inv
    rcases step.issuance with ⟨silent, _⟩ | ⟨_, _, _, later⟩
    · rw [silent] at issues
      cases issues
    · omega
  · intro issuing between later positions feed issues silent asked decision served
    obtain ⟨⟨_, whole⟩, step, middle, laterStep⟩ := positions.parts trace
    rcases step.issuance with ⟨contrary, _⟩ | ⟨other, same, current, _⟩
    · rw [contrary] at issues
      cases issues
    · rw [issues] at same
      cases same
      exact laterStep.accepted ((initial.run whole).run middle) asked
          (current.run middle silent) served
  · intro issuing between later positions feed issues others asked
    obtain ⟨_, step, middle, laterStep⟩ := positions.parts trace
    rcases step.issuance with ⟨contrary, _⟩ | ⟨other, same, current, _⟩
    · rw [contrary] at issues
      cases issues
    · rw [issues] at same
      cases same
      exact laterStep.fenced asked (not_current_of_issued current middle others)
  · intro transfer between again positions intent transfers unacknowledged asked
    obtain ⟨unchanged, same⟩ := repeated_transfer trace positions transfers unacknowledged asked
    exact ⟨unchanged, same.mpr (unmoved transfer between again positions intent transfers
      unacknowledged asked)⟩
  · intro transfer between again positions intent transfers unacknowledged other differs asked
    obtain ⟨_, step, middle, againStep⟩ := positions.parts trace
    have still := (step.transfers transfers).1.run middle unacknowledged
    obtain ⟨unchanged, answer⟩ := still.answer againStep asked
    rw [if_neg differs] at answer
    exact ⟨unchanged, answer⟩
  · intro acknowledgement between again positions id value asked replied latest fresh repeats
    obtain ⟨_, step, middle, againStep⟩ := positions.parts trace
    have acknowledged := step.acknowledges asked replied
    exact (acknowledged.run middle latest fresh).again againStep repeats

/-- A transfer from one owner to the next. -/
def handover : ChangeFeedTransferIntent := ⟨"handover", "first", "second", 0⟩

/-- An owner transfers the feed, fails to open it again and repeats the transfer, and the
transfer is acknowledged. -/
def handedOver : List FeedCall :=
  [.openFeed "first", .transfer handover, .openFeed "first", .transfer handover,
    .ackTransfer "handover"]

theorem ownership_fenced_handedOver :
    RepeatsUnmoved (Trace.perform (feedCall kibibytes) none handedOver) ∧
      OwnershipFenced kibibytes (Trace.perform (feedCall kibibytes) none handedOver) := by
  have trace : Trace (FeedStep kibibytes) none (Trace.perform (feedCall kibibytes) none handedOver)
      (Trace.performed (feedCall kibibytes) none handedOver) := Trace.of_perform _ _ _
  have unmoved : RepeatsUnmoved (Trace.perform (feedCall kibibytes) none handedOver) := by
    intro transfer between again positions intent transfers unacknowledged asked
    obtain ⟨_, _, middle, _⟩ := positions.parts trace
    have later := epoch_le middle
    have repeats := (repeated_transfer trace positions transfers unacknowledged asked).2
    obtain ⟨first, rest, same⟩ := positions
    have transferMember : transfer ∈ Trace.perform (feedCall kibibytes) none handedOver := by
      rw [same]
      simp
    have againMember : again ∈ Trace.perform (feedCall kibibytes) none handedOver := by
      rw [same]
      simp
    refine repeats.mp ?_
    simp only [handedOver, Trace.perform, List.mem_cons, List.not_mem_nil, or_false]
      at transferMember againMember
    rcases transferMember with rfl | rfl | rfl | rfl | rfl
    · cases transfers.1
    · rcases againMember with rfl | rfl | rfl | rfl | rfl
      · cases asked
      · exact absurd later (by decide)
      · cases asked
      · rfl
      · cases asked
    · cases transfers.1
    · exact absurd transfers.2 (by decide)
    · cases transfers.1
  exact ⟨unmoved, (ownership_fenced_iff trace).mpr unmoved⟩

/-- The new owner opens the feed before the transfer is repeated. -/
def reopened : List FeedCall :=
  [.openFeed "first", .transfer handover, .openFeed "second", .transfer handover]

/-- The repeated transfer returns a handle to the epoch that the new owner opened. -/
theorem repeated_transfer_returns_later_epoch :
    (Trace.perform (feedCall kibibytes) none reopened).filterMap issued =
        [⟨"first", 1⟩, ⟨"second", 2⟩, ⟨"second", 3⟩] ∧
      ¬ OwnershipFenced kibibytes (Trace.perform (feedCall kibibytes) none reopened) := by
  have trace : Trace (FeedStep kibibytes) none (Trace.perform (feedCall kibibytes) none reopened)
      (Trace.performed (feedCall kibibytes) none reopened) := Trace.of_perform _ _ _
  refine ⟨by decide +kernel, fun fenced => ?_⟩
  have unmoved : ∀ transfer between again,
      Later (Trace.perform (feedCall kibibytes) none reopened) transfer between again →
      Transfers transfer handover → (∀ other ∈ between, other.call ≠ .ackTransfer handover.id) →
      again.call = .transfer handover → ∀ other ∈ between, ¬ Moves other := by
    intro transfer between again positions transfers unacknowledged asked
    have same := (fenced.repeated _ _ _ positions handover transfers unacknowledged asked).2
    exact (repeated_transfer trace positions transfers unacknowledged asked).2.mp same
  have kept := unmoved _ [_] _ ⟨[_], [], rfl⟩ ⟨rfl, by decide⟩ (by simp) rfl
  exact kept _ List.mem_cons_self ⟨⟨_, rfl⟩, trivial⟩

end Mdbase.Provider
