import Mdbase.Provider.FeedLog

/-!
# Readers of the change feed

A reader holds a handle, goes on behind the last watermark it received and acknowledges
what it received. Other calls may come between its calls. It receives every watermark
once, in order, for as long as its handle is accepted.
-/

namespace Mdbase.Provider

open Library
open Mdbase.Runtime (u64Max)

/-- A call of the feed with its reply. -/
abbrev FeedExchange := Exchange StoredFeed FeedCall (Except ProviderError FeedReply)

/-- The watermarks that the reader with a handle receives. -/
def received (feed : ChangeFeed) (exchange : FeedExchange) : List Nat :=
  match exchange.call, exchange.reply with
  | .read other _ _ _ _, .ok (.page page) =>
    if other = feed then page.events.map RuntimeChangeEvent.watermark else []
  | _, _ => []

/-- Was the call a read with the handle that was not refused? -/
def answered (feed : ChangeFeed) (exchange : FeedExchange) : Bool :=
  match exchange.call, exchange.reply with
  | .read other _ _ _ _, .ok _ => other = feed
  | _, _ => false

/-- The reader goes on behind the last watermark it received, acknowledges nothing
that it has not received, and establishes no baseline. -/
def ReadsOn (feed : ChangeFeed) (position : Nat) : FeedCall → Prop
  | .read other after _ _ _ => other = feed → after = some position
  | .ack other through => other = feed → through ≤ position
  | .baseline other => other ≠ feed
  | _ => True

/-- The calls of a reader that starts at a position, among those of others. -/
def Consumes (feed : ChangeFeed) : (position : Nat) → List FeedExchange → Prop
  | _, [] => True
  | position, exchange :: rest =>
    ReadsOn feed position exchange.call ∧
      Consumes feed ((received feed exchange).getLast?.getD position) rest

/-- The handle is accepted and nothing behind the position was forgotten, or the handle
is fenced off for good. -/
def Owns (feed : ChangeFeed) (position : Nat) (stored : StoredFeed) : Prop :=
  Current stored feed ∧ stored.journal.acknowledgedThrough ≤ position ∨
    feed.fencingEpoch < stored.journal.fencingEpoch

variable {bytes : FeedJournal → Nat} {before after : StoredFeed} {feed : ChangeFeed}

/-- A page is served to the current reader only, and changes nothing. -/
theorem readStep_page {position : Option Nat} {limit : Nat} {positive : 0 < limit}
    {context : Context} {reply : FeedReply} (contiguous : Contiguous before.journal)
    (step : FeedStep bytes before (.read feed position limit positive context) (.ok reply) after) :
    Current before feed ∧ after = before ∧
      before.journal.acknowledgedThrough ≤ position.getD before.journal.acknowledgedThrough ∧
      ∃ page, reply = .page page ∧
        PageOf before.journal (position.getD before.journal.acknowledgedThrough) limit page := by
  have verdict : ∃ page, readFeed before feed position limit context = .ok (.keep page) ∧
      reply = .page page ∧ after = before := by
    rcases conclude_cases step with ⟨_, failed, _⟩ | ⟨_, decided, same, unchanged⟩ |
      ⟨_, _, decided, _, _, _⟩
    · cases failed
    · obtain ⟨page, result, here⟩ := map_eq_keep_iff.mp decided
      cases same
      exact ⟨page, result, here.symm, unchanged⟩
    · obtain ⟨_, result, _⟩ := map_eq_store_iff.mp decided
      exact absurd result readFeed_store
  obtain ⟨page, result, rfl, unchanged⟩ := verdict
  have calm := readFeed_calm result
  have current : Current before feed := by
    obtain ⟨_, _, result⟩ := bind_eq_ok.mp result
    obtain ⟨journal, checked, _⟩ := bind_eq_ok.mp result
    obtain ⟨rfl, current⟩ := checkedJournal_eq_ok checked
    exact current
  obtain ⟨gap, answered⟩ := @readFeed_spec before feed position limit .calm contiguous current
    positive Context.calm_open
  have behind : before.journal.acknowledgedThrough ≤
      position.getD before.journal.acknowledgedThrough := by
    by_contra below
    rw [gap (not_le.mp below)] at calm
    cases calm
  obtain ⟨same, again, facts⟩ := answered behind
  rw [again] at calm
  cases calm
  exact ⟨current, unchanged, behind, page, rfl, facts⟩

variable {reply : Except ProviderError FeedReply} {call : FeedCall}

theorem FeedStep.handle (step : FeedStep bytes before call reply after) :
    (after.journal.owner = before.journal.owner ∧
      after.journal.fencingEpoch = before.journal.fencingEpoch) ∨
    after.journal.fencingEpoch = before.journal.fencingEpoch + 1 := by
  rcases step.cases with rfl | ⟨new, value, change, valid, _, rfl⟩
  · exact .inl ⟨rfl, rfl⟩
  change (new.owner = _ ∧ new.fencingEpoch = _) ∨ new.fencingEpoch = _
  cases change with
  | reconciled growth =>
    rw [growth.rest]
    exact .inl ⟨rfl, rfl⟩
  | known appended _ | external appended _ =>
    rw [appended.journal]
    exact .inl ⟨rfl, rfl⟩
  | opened => exact .inr rfl
  | baselined | acknowledged => exact .inl ⟨rfl, rfl⟩
  | transferred _ _ result =>
    rw [result]
    exact .inr rfl
  | transferAcknowledged => exact .inl ⟨rfl, rfl⟩

theorem FeedStep.acknowledged (step : FeedStep bytes before call reply after) :
    after.journal.acknowledgedThrough = before.journal.acknowledgedThrough ∨
    (∃ feed through, call = .ack feed through ∧ Current before feed ∧
      after.journal.acknowledgedThrough = through) ∨
    ∃ feed, call = .baseline feed ∧ Current before feed := by
  rcases step.cases with rfl | ⟨new, value, change, valid, _, rfl⟩
  · exact .inl rfl
  change new.acknowledgedThrough = _ ∨ (∃ feed through, _ ∧ _ ∧ new.acknowledgedThrough = _) ∨ _
  cases change with
  | reconciled growth =>
    rw [growth.rest]
    exact .inl rfl
  | known appended _ | external appended _ =>
    rw [appended.journal]
    exact .inl rfl
  | opened => exact .inl rfl
  | baselined current => exact .inr (.inr ⟨_, rfl, current⟩)
  | acknowledged current _ _ => exact .inr (.inl ⟨_, _, rfl, current, rfl⟩)
  | transferred _ _ result =>
    rw [result]
    exact .inl rfl
  | transferAcknowledged => exact .inl rfl

theorem FeedStep.head_le (contiguous : Contiguous before.journal)
    (step : FeedStep bytes before call reply after) :
    before.journal.head ≤ after.journal.head := by
  have appends : ∀ {new : FeedJournal} {event : StoredEvent},
      Appended before.journal new event → before.journal.head ≤ new.head := by
    intro new event appended
    have bounded := contiguous.bounded
    rw [appended.journal]
    change before.journal.head ≤ event.watermark
    rw [appended.next, saturatingSucc]
    omega
  rcases step.cases with rfl | ⟨new, value, change, valid, _, rfl⟩
  · exact le_rfl
  change before.journal.head ≤ new.head
  cases change with
  | reconciled growth => exact growth.ascending
  | known appended _ | external appended _ => exact appends appended
  | opened | baselined | acknowledged => exact le_rfl
  | transferred _ _ result => rw [result]
  | transferAcknowledged => exact le_rfl

/-- What a call brings to a reader: the next watermarks, at least one if the call was an
answered read and the head was not reached. -/
structure Advances (feed : ChangeFeed) (position : Nat) (exchange : FeedExchange) (count : Nat) :
    Prop where
  received : received feed exchange = List.range' (position + 1) count
  owns : Owns feed (position + count) exchange.after
  progress : answered feed exchange = true → position < exchange.before.journal.head → 0 < count
  bounded : position + count ≤ max position exchange.before.journal.head

variable {exchange : FeedExchange}

theorem Advances.silent {position : Nat}
    (unanswered : answered feed exchange = false) (owns : Owns feed position exchange.after) :
    Advances feed position exchange 0 := by
  refine ⟨?_, owns, fun contrary => ?_, le_max_left _ _⟩
  · unfold answered at unanswered
    unfold Provider.received
    split
    next other _ _ _ _ page asked replied =>
      rw [asked, replied] at unanswered
      rw [if_neg (by simpa using unanswered)]
      rfl
    next => rfl
  · rw [unanswered] at contrary
    cases contrary

theorem answered_inv (replied : answered feed exchange = true) :
    ∃ after limit positive context reply,
      exchange.call = .read feed after limit positive context ∧ exchange.reply = .ok reply := by
  unfold answered at replied
  split at replied
  next other after limit positive context reply asked answer =>
    have same : other = feed := by simpa using replied
    subst same
    exact ⟨after, limit, positive, context, reply, asked, answer⟩
  next => cases replied

/-- The owner reads on from its position, whatever the others do. -/
theorem Owns.step {bytes : FeedJournal → Nat} {exchange : FeedExchange} {feed : ChangeFeed}
    {position : Nat} (contiguous : Contiguous exchange.before.journal)
    (owns : Owns feed position exchange.before) (readsOn : ReadsOn feed position exchange.call)
    (step : FeedStep bytes exchange.before exchange.call exchange.reply exchange.after) :
    ∃ count, Advances feed position exchange count := by
  cases replied : answered feed exchange with
  | true =>
    obtain ⟨after, limit, positive, context, reply, asked, answer⟩ := answered_inv replied
    rw [asked] at step readsOn
    rw [answer] at step
    obtain rfl := readsOn rfl
    obtain ⟨current, unchanged, behind, page, rfl, facts⟩ := readStep_page contiguous step
    refine ⟨pageCount exchange.before.journal position limit, ?_, .inl ⟨?_, ?_⟩, ?_, ?_⟩
    · simp only [received, asked, answer, if_true]
      exact facts.watermarks
    · rw [unchanged]
      exact current
    · rw [unchanged]
      exact behind.trans (Nat.le_add_right _ _)
    · intro _ inside
      rw [pageCount, maxFeedPageItems]
      omega
    · rw [pageCount]
      omega
  | false =>
    refine ⟨0, .silent replied ?_⟩
    rcases owns with ⟨current, behind⟩ | fenced
    · rcases step.handle with ⟨owner, epoch⟩ | later
      · refine .inl ⟨⟨owner.trans current.1, epoch.trans current.2⟩, ?_⟩
        rcases step.acknowledged with same | ⟨other, through, asked, otherCurrent, moved⟩ |
          ⟨other, asked, otherCurrent⟩
        · rw [same]
          exact behind
        · rw [asked] at readsOn
          rw [moved]
          exact readsOn (otherCurrent.unique current)
        · rw [asked] at readsOn
          exact absurd (otherCurrent.unique current) readsOn
      · refine .inr ?_
        rw [later, current.2]
        exact Nat.lt_succ_self _
    · refine .inr ?_
      rcases step.handle with ⟨_, epoch⟩ | later
      · rw [epoch]
        exact fenced
      · rw [later]
        exact fenced.trans (Nat.lt_succ_self _)

variable {start finish : StoredFeed} {exchanges : List FeedExchange}

theorem Contiguous.run (contiguous : Contiguous start.journal)
    (trace : Trace (FeedStep bytes) start exchanges finish)
    (unwrapped : ∀ exchange ∈ exchanges, Unwrapped exchange.before exchange.call) :
    Contiguous finish.journal := by
  have kept : ∀ exchange ∈ exchanges,
      FeedStep bytes exchange.before exchange.call exchange.reply exchange.after →
        Contiguous exchange.before.journal → Contiguous exchange.after.journal := by
    intro exchange member step before
    exact before.step (unwrapped exchange member) step
  exact @Trace.invariant _ _ _ _ _ _ _ (fun stored => Contiguous stored.journal) trace contiguous
    kept

theorem Contiguous.at_call (contiguous : Contiguous start.journal)
    (trace : Trace (FeedStep bytes) start exchanges finish)
    (unwrapped : ∀ exchange ∈ exchanges, Unwrapped exchange.before exchange.call)
    (member : exchange ∈ exchanges) :
    Contiguous exchange.before.journal ∧
      FeedStep bytes exchange.before exchange.call exchange.reply exchange.after := by
  obtain ⟨first, rest, rfl⟩ := List.append_of_mem member
  obtain ⟨head, step, _⟩ := trace.middle_inv
  refine ⟨contiguous.run head ?_, step⟩
  intro other early
  exact unwrapped other (List.mem_append_left _ early)

theorem range'_getLast?_getD (position count : Nat) :
    (List.range' (position + 1) count).getLast?.getD position = position + count := by
  cases count with
  | zero => rfl
  | succ count =>
    rw [List.getLast?_range', if_neg (Nat.succ_ne_zero count), Option.getD_some]
    omega

/-- The watermarks of a run of a reader: consecutive ones, none beyond the head, and as
many as there were answered reads unless they reach the head that the run started with. -/
structure Follows (feed : ChangeFeed) (position : Nat) (start finish : StoredFeed)
    (exchanges : List FeedExchange) (count : Nat) : Prop where
  received : exchanges.flatMap (received feed) = List.range' (position + 1) count
  owns : Owns feed (position + count) finish
  progress : min (exchanges.countP (answered feed)) (start.journal.head - position) ≤ count
  bounded : position + count ≤ max position finish.journal.head

/-- The owner follows the feed over a whole run. -/
theorem Owns.run {position : Nat} (contiguous : Contiguous start.journal)
    (owns : Owns feed position start) (trace : Trace (FeedStep bytes) start exchanges finish)
    (unwrapped : ∀ exchange ∈ exchanges, Unwrapped exchange.before exchange.call)
    (consumes : Consumes feed position exchanges) :
    ∃ count, Follows feed position start finish exchanges count := by
  induction exchanges generalizing start position with
  | nil =>
    obtain rfl := trace
    exact ⟨0, rfl, owns, by simp, by omega⟩
  | cons exchange rest ih =>
    obtain ⟨rfl, step, tail⟩ := trace
    obtain ⟨readsOn, later⟩ := consumes
    obtain ⟨here, advances⟩ := owns.step contiguous readsOn step
    rw [advances.received, range'_getLast?_getD] at later
    have next := contiguous.step (unwrapped exchange List.mem_cons_self) step
    obtain ⟨count, follows⟩ := ih next advances.owns tail
      (fun other member => unwrapped other (List.mem_cons_of_mem _ member)) later
    have grows := step.head_le contiguous
    have ahead : exchange.after.journal.head ≤ finish.journal.head := by
      have rises : ∀ exchange ∈ rest,
          FeedStep bytes exchange.before exchange.call exchange.reply exchange.after →
            exchange.before.journal.head ≤ exchange.after.journal.head := by
        intro other member taken
        have before := (next.at_call tail
          (fun other member => unwrapped other (List.mem_cons_of_mem _ member)) member).1
        exact taken.head_le before
      exact @Trace.relates _ _ _ _ _ _ _ (fun before after => before.journal.head ≤
        after.journal.head) tail (fun _ => le_rfl) le_trans rises
    refine ⟨here + count, ?_, ?_, ?_, ?_⟩
    · rw [List.flatMap_cons, advances.received, follows.received]
      have same : position + here + 1 = position + 1 + here := by omega
      rw [same, List.range'_append_1]
    · rw [← Nat.add_assoc]
      exact follows.owns
    · have progress := follows.progress
      have first := advances.progress
      rw [List.countP_cons]
      split
      next replied =>
        have moved := first replied
        omega
      next => omega
    · have early := advances.bounded
      have late := follows.bounded
      omega

/-- The trace of a log without gaps. A call that fails changes nothing. Every stored
journal is valid and has the watermarks behind the acknowledged position up to the head.
A read with an accepted handle finds a gap exactly below the acknowledged position and a
page otherwise, and a page goes on unless it reaches the head. A reader receives
consecutive watermarks, and with enough reads all of them up to the head. -/
structure GapFree (bytes : FeedJournal → Nat) (exchanges : List FeedExchange)
    (finish : StoredFeed) : Prop where
  errors : ∀ exchange ∈ exchanges, ∀ error, exchange.reply = .error error →
    exchange.after = exchange.before
  stored : ∀ exchange ∈ exchanges, validate exchange.after.journal = .ok () ∧
    exchange.after.journal.events.map StoredEvent.watermark =
      List.range' (exchange.after.journal.acknowledgedThrough + 1)
        (exchange.after.journal.head - exchange.after.journal.acknowledgedThrough)
  gaps : ∀ exchange ∈ exchanges, ∀ feed after limit positive context,
    exchange.call = .read feed after limit positive context → Current exchange.before feed →
    context 0 = none →
    (exchange.reply = .error .changeFeedRetentionGap ↔
      after.getD exchange.before.journal.acknowledgedThrough <
        exchange.before.journal.acknowledgedThrough)
  answers : ∀ exchange ∈ exchanges, ∀ feed after limit positive context,
    exchange.call = .read feed after limit positive context → Current exchange.before feed →
    context.Open →
    exchange.before.journal.acknowledgedThrough ≤
      after.getD exchange.before.journal.acknowledgedThrough →
    ∃ page, exchange.reply = .ok (.page page)
  pages : ∀ exchange ∈ exchanges, ∀ feed after limit positive context page,
    exchange.call = .read feed after limit positive context →
    exchange.reply = .ok (.page page) →
    (page.next = none ↔ exchange.before.journal.head ≤
      (page.events.map RuntimeChangeEvent.watermark).getLast?.getD
        (after.getD exchange.before.journal.acknowledgedThrough))
  readers : ∀ first rest middle feed position, exchanges = first ++ rest →
    Trace (FeedStep bytes) none first middle → Trace (FeedStep bytes) middle rest finish →
    Current middle feed → middle.journal.acknowledgedThrough ≤ position →
    Consumes feed position rest →
    ∃ count, rest.flatMap (received feed) = List.range' (position + 1) count ∧
      min (rest.countP (answered feed)) (middle.journal.head - position) ≤ count ∧
      position + count ≤ max position finish.journal.head

variable {journal : FeedJournal}

theorem PageOf.next_eq_none_iff {after limit : Nat}
    {page : RuntimeChangeEventPage} (facts : PageOf journal after limit page) :
    page.next = none ↔ journal.head ≤
      (page.events.map RuntimeChangeEvent.watermark).getLast?.getD after := by
  rw [facts.watermarks, range'_getLast?_getD, facts.next]
  split
  next more =>
    constructor
    · intro contrary
      cases contrary
    · intro reached
      omega
  rename_i reached
  constructor
  · intro _
    omega
  · intro _
    rfl

theorem FeedStep.read_reply {position : Option Nat} {limit : Nat} {positive : 0 < limit}
    {context : Context}
    (step : FeedStep bytes before (.read feed position limit positive context) reply after) :
    (∀ page, readFeed before feed position limit context = .ok (.keep page) →
      reply = .ok (.page page)) ∧
    ∀ error, readFeed before feed position limit context = .error error ↔ reply = .error error := by
  change conclude bytes before
    ((readFeed before feed position limit context).map (Verdict.map .page)) = (reply, after) at step
  cases decided : readFeed before feed position limit context with
  | error stopped =>
    rw [decided] at step
    cases step
    refine ⟨fun page contrary => (by cases contrary), fun error => ?_⟩
    simp
  | ok verdict =>
    cases verdict with
    | keep page =>
      rw [decided] at step
      cases step
      refine ⟨fun other same => (by cases same; rfl), fun error => ?_⟩
      simp
    | store journal page => exact absurd decided readFeed_store

/-- The change feed is a log without gaps in every run in which no event with the largest
watermark is appended when the head is there already. -/
theorem change_feed_gap_free {bytes : FeedJournal → Nat} {exchanges : List FeedExchange}
    {finish : StoredFeed} (trace : Trace (FeedStep bytes) none exchanges finish)
    (unwrapped : ∀ exchange ∈ exchanges, Unwrapped exchange.before exchange.call) :
    GapFree bytes exchanges finish := by
  have initial : Contiguous (StoredFeed.journal none) := Contiguous.default
  refine ⟨?_, ?_, ?_, ?_, ?_, ?_⟩
  · intro exchange member error failed
    obtain ⟨_, step⟩ := initial.at_call trace unwrapped member
    rw [failed] at step
    exact step.unchanged_of_error
  · intro exchange member
    obtain ⟨before, step⟩ := initial.at_call trace unwrapped member
    have contiguous := before.step (unwrapped exchange member) step
    refine ⟨contiguous.validate, ?_⟩
    rw [contiguous.consecutive, contiguous.length]
  · intro exchange member feed after limit positive context asked current started
    obtain ⟨contiguous, step⟩ := initial.at_call trace unwrapped member
    rw [asked] at step
    rw [← step.read_reply.2, readFeed_gap_iff contiguous current started]
  · intro exchange member feed after limit positive context asked current open_ behind
    obtain ⟨contiguous, step⟩ := initial.at_call trace unwrapped member
    rw [asked] at step
    obtain ⟨page, decided, _⟩ := (readFeed_spec contiguous current positive open_).2 behind
    exact ⟨page, step.read_reply.1 page decided⟩
  · intro exchange member feed after limit positive context page asked replied
    obtain ⟨contiguous, step⟩ := initial.at_call trace unwrapped member
    rw [asked, replied] at step
    obtain ⟨_, _, _, other, same, facts⟩ := readStep_page contiguous step
    cases same
    exact facts.next_eq_none_iff
  · rintro first rest middle feed position rfl head tail current behind consumes
    have contiguous := initial.run head fun exchange member =>
      unwrapped exchange (List.mem_append_left _ member)
    have owns : Owns feed position middle := .inl ⟨current, behind⟩
    obtain ⟨count, follows⟩ := owns.run contiguous tail
      (fun exchange member => unwrapped exchange (List.mem_append_right _ member)) consumes
    exact ⟨count, follows.received, follows.progress, follows.bounded⟩

/-- An event that the provider observed outside of its own mutations. -/
def observedEvent (id : String) (watermark : Nat) : RuntimeChangeEvent where
  id := id
  watermark := watermark
  generation := ⟨"runtime", watermark⟩
  changes := .collectionWide .externalChangeUncertain
  origin := .filesystem
  commitId := none

/-- The length of a journal with events of a kibibyte. -/
def kibibytes (journal : FeedJournal) : Nat := 1024 * (journal.events.length + 1)

/-- A reader of two events. -/
def twoReads : List FeedCall :=
  let feed : ChangeFeed := ⟨"reader", 1⟩
  [.openFeed "reader", .appendExternal (observedEvent "first" 1),
    .appendExternal (observedEvent "second" 2), .read feed (some 0) 1 (by decide) .calm,
    .ack feed 1, .read feed (some 1) 1 (by decide) .calm]

theorem change_feed_gap_free_twoReads :
    (Trace.perform (feedCall kibibytes) none twoReads).flatMap (received ⟨"reader", 1⟩) = [1, 2] ∧
      GapFree kibibytes (Trace.perform (feedCall kibibytes) none twoReads)
        (Trace.performed (feedCall kibibytes) none twoReads) := by
  refine ⟨by decide +kernel, change_feed_gap_free (Trace.of_perform _ _ _) ?_⟩
  intro exchange member
  simp only [twoReads, Trace.perform, List.mem_cons, List.not_mem_nil, or_false] at member
  rcases member with rfl | rfl | rfl | rfl | rfl | rfl
  · trivial
  · intro _
    decide
  · intro _
    decide
  · trivial
  · trivial
  · trivial

/-- A feed whose events are all acknowledged. -/
def drained (head : Nat) : FeedJournal :=
  { FeedJournal.default with
    owner := some "reader", fencingEpoch := 1, acknowledgedThrough := head, head := head }

/-- A feed with one event behind the acknowledged position. -/
def undrained (head : Nat) : FeedJournal :=
  { drained head with
    head := head + 1
    events := [⟨"observed", head + 1, ⟨"runtime", head + 1⟩,
      .collectionWide .externalChangeUncertain, .filesystem, none⟩] }

theorem undrained_contiguous {head : Nat} (below : head < u64Max) : Contiguous (undrained head) := by
  refine ⟨rfl, Nat.le_succ head, below, ?_, Consecutive.singleton_iff.mpr rfl, ?_, ?_⟩
  · intro through member
    cases member
  · exact (Nat.add_sub_cancel_left head 1).symm
  · intro event member changes same
    rw [List.mem_singleton.mp member] at same
    cases same

variable {head : Nat}

theorem drained_contiguous (le : head ≤ u64Max) : Contiguous (drained head) := by
  refine ⟨rfl, le_rfl, le, ?_, .nil, (Nat.sub_self head).symm, ?_⟩
  · intro through member
    cases member
  · intro event member
    cases member

theorem conclude_store {α : Type} {stored : StoredFeed} {reply : α}
    (valid : validate journal = .ok ()) (short : bytes journal ≤ maxFeedBytes) :
    conclude bytes stored (.ok (.store journal reply)) = (.ok reply, some journal) := by
  simp only [conclude, valid, if_neg (not_lt.mpr short)]

variable {event : RuntimeChangeEvent}

theorem appendExternal_next {changes : StoredChangeSet}
    (valid : validate journal = .ok ()) (next : event.watermark = saturatingSucc journal.head)
    (room : journal.events.length < maxUnackedEvents)
    (external : externalChanges journal.events.length event.changes = some changes) :
    appendExternal (some journal) event = .ok (.store { journal with
      head := event.watermark
      events := journal.events ++ [⟨event.id, event.watermark, event.generation, changes,
        event.origin, none⟩] } ()) := by
  have same : StoredFeed.journal (some journal) = journal := rfl
  unfold appendExternal
  dsimp only
  rw [same, valid]
  change (if _ then _ else if _ then _ else _) = _
  rw [if_neg (not_not.mpr next), if_neg (not_le.mpr room), external]

theorem FeedStep.of_appendExternal {stored : StoredFeed}
    (decided : appendExternal stored event = .ok (.store journal ()))
    (valid : validate journal = .ok ()) (short : bytes journal ≤ maxFeedBytes) :
    FeedStep bytes stored (.appendExternal event) (.ok .appended) (some journal) := by
  unfold FeedStep feedCall decideCall
  dsimp only
  rw [decided]
  exact conclude_store valid short

theorem drained_append (below : head < u64Max) :
    FeedStep kibibytes (some (drained head)) (.appendExternal (observedEvent "observed" (head + 1)))
      (.ok .appended) (some (undrained head)) := by
  have next : head + 1 = saturatingSucc head := by
    rw [saturatingSucc]
    omega
  have decided : appendExternal (some (drained head)) (observedEvent "observed" (head + 1)) =
      .ok (.store (undrained head) ()) :=
    appendExternal_next (drained_contiguous below.le).validate next (Nat.zero_lt_succ _) rfl
  exact .of_appendExternal decided (undrained_contiguous below).validate
    (by simp [kibibytes, undrained, maxFeedBytes])

theorem undrained_ack (below : head < u64Max) :
    FeedStep kibibytes (some (undrained head)) (.ack ⟨"reader", 1⟩ (head + 1))
      (.ok (.acknowledged [])) (some (drained (head + 1))) := by
  have current : Current (some (undrained head)) ⟨"reader", 1⟩ := ⟨rfl, rfl⟩
  have decided : ackFeed (some (undrained head)) ⟨"reader", 1⟩ (head + 1) =
      .ok (.store (drained (head + 1)) []) := by
    have contiguous : Contiguous (StoredFeed.journal (some (undrained head))) :=
      undrained_contiguous below
    unfold ackFeed
    rw [checkedJournal_current contiguous current]
    change (if head + 1 > head + 1 then _ else if head + 1 ≤ head then _ else _) = _
    rw [if_neg (by omega), if_neg (by omega)]
    simp [undrained, drained, StoredFeed.journal, FeedJournal.default]
  change conclude kibibytes _ ((ackFeed _ _ _).map _) = _
  rw [decided]
  exact conclude_store (drained_contiguous below).validate
    (by simp [kibibytes, drained, FeedJournal.default, maxFeedBytes])

theorem drained_reached {head : Nat} (le : head ≤ u64Max) :
    ∃ exchanges, Trace (FeedStep kibibytes) none exchanges (some (drained head)) := by
  induction head with
  | zero =>
    have opened : FeedStep kibibytes none (.openFeed "reader") (.ok (.opened ⟨"reader", 1⟩))
        (some (drained 0)) :=
      conclude_store (drained_contiguous (Nat.zero_le _)).validate
        (by simp [kibibytes, FeedJournal.default, maxFeedBytes, StoredFeed.journal])
    exact ⟨[⟨none, _, _, _⟩], rfl, opened, rfl⟩
  | succ head ih =>
    obtain ⟨exchanges, trace⟩ := ih (by omega)
    exact ⟨_, (trace.snoc (drained_append le)).snoc (undrained_ack le)⟩

/-- The feed with two events at the largest watermark. -/
def wrapped : FeedJournal :=
  let last := undrained (u64Max - 1)
  { last with
    events := last.events ++ [⟨"again", u64Max, ⟨"runtime", u64Max⟩,
      .collectionWide .externalChangeUncertain, .filesystem, none⟩] }

/-- Two different events are stored with the largest watermark. -/
theorem change_feed_wraps :
    ∃ exchanges, Trace (FeedStep kibibytes) none exchanges (some wrapped) ∧
      wrapped.events.map StoredEvent.watermark = [u64Max, u64Max] ∧
      ¬ GapFree kibibytes exchanges (some wrapped) := by
  obtain ⟨exchanges, trace⟩ := @drained_reached (u64Max - 1) (by decide)
  have full := trace.snoc (drained_append (by decide))
  have again : FeedStep kibibytes (some (undrained (u64Max - 1)))
      (.appendExternal (observedEvent "again" u64Max)) (.ok .appended) (some wrapped) := by
    have decided : appendExternal (some (undrained (u64Max - 1))) (observedEvent "again" u64Max) =
        .ok (.store wrapped ()) := by
      have valid := (@undrained_contiguous (u64Max - 1) (by decide)).validate
      rw [appendExternal_next valid (by decide +kernel) (by decide +kernel) rfl]
      rfl
    exact .of_appendExternal decided (by decide +kernel) (by simp [kibibytes, wrapped, undrained, maxFeedBytes])
  refine ⟨_, full.snoc again, rfl, fun gapFree => ?_⟩
  have stored := (gapFree.stored _ (List.mem_append_right _ (List.mem_singleton_self _))).2
  have single := congrArg List.length stored
  revert single
  decide

end Mdbase.Provider
