import Mdbase.Library.Consecutive
import Mdbase.Library.Fallible
import Mdbase.Provider.Feed

/-!
# The change feed is a log without gaps

Every stored journal holds exactly the events behind the acknowledged position, with
consecutive watermarks up to the head, as long as no append is made at the largest
watermark there is: the check of the next watermark saturates, and a second event with
the largest watermark passes it.
-/

namespace Mdbase.Provider

open Library
open Mdbase.Runtime (u64Max)

variable {α : Type} {bytes : FeedJournal → Nat} {decision : Except ProviderError (Verdict α)}

/-- The end of an operation: it failed or left the feed alone, or it stored a journal
that is valid. -/
theorem conclude_cases {stored after : StoredFeed} {reply : Except ProviderError α}
    (result : conclude bytes stored decision = (reply, after)) :
    (∃ error, reply = .error error ∧ after = stored) ∨
    (∃ value, decision = .ok (.keep value) ∧ reply = .ok value ∧ after = stored) ∨
    ∃ journal value, decision = .ok (.store journal value) ∧ validate journal = .ok () ∧
      reply = .ok value ∧ after = some journal := by
  unfold conclude at result
  split at result
  next error =>
    cases result
    exact .inl ⟨error, rfl, rfl⟩
  next value =>
    cases result
    exact .inr (.inl ⟨value, rfl, rfl, rfl⟩)
  rename_i journal value
  split at result
  next error _ =>
    cases result
    exact .inl ⟨error, rfl, rfl⟩
  rename_i valid
  split at result
  next =>
    cases result
    exact .inl ⟨_, rfl, rfl⟩
  cases result
  exact .inr (.inr ⟨journal, value, rfl, valid, rfl, rfl⟩)

theorem FeedStep.unchanged_of_error {before after : StoredFeed}
    {call : FeedCall} {error : ProviderError} (step : FeedStep bytes before call (.error error) after) :
    after = before := by
  rcases conclude_cases step with ⟨_, _, same⟩ | ⟨_, _, failed, _⟩ | ⟨_, _, _, _, failed, _⟩
  · exact same
  · cases failed
  · cases failed

/-- What `validate` checks. -/
structure Valid (journal : FeedJournal) : Prop where
  version : journal.version = 1
  acknowledged : journal.acknowledgedThrough ≤ journal.head
  baseline : ∀ through ∈ journal.baselineThrough, through ≤ journal.head
  follows : follows journal.head journal.acknowledgedThrough journal.events = true
  last : journal.events.getLast?.map StoredEvent.watermark =
    if journal.head > journal.acknowledgedThrough then some journal.head else none

variable {journal : FeedJournal}

/-- The journal check accepts exactly the valid journals. -/
theorem validate_eq_ok_iff : validate journal = .ok () ↔ Valid journal := by
  unfold validate
  constructor
  · intro checked
    split at checked
    next => cases checked
    rename_i fields
    split at checked
    next => cases checked
    rename_i ordered
    simp only [not_or, not_not, not_lt, Bool.not_eq_true] at fields ordered
    refine ⟨fields.1, fields.2.1, ?_, by simpa using ordered, ?_⟩
    · intro through here
      have bounded := fields.2.2
      rw [Option.mem_def.mp here] at bounded
      simpa using bounded
    · by_contra other
      rw [if_pos other] at checked
      cases checked
  · rintro ⟨version, acknowledged, baseline, ordered, last⟩
    rw [if_neg, if_neg (by simp [ordered]), if_neg (by simp [last])]
    simp only [version, not_or, not_not, not_lt, acknowledged, true_and, Bool.not_eq_true, ne_eq]
    cases through : journal.baselineThrough with
    | none => rfl
    | some bound => simpa using baseline bound through

/-- The events of a journal are those behind the acknowledged position, with the
watermarks up to the head, and their exact changes are batches. -/
structure Contiguous (journal : FeedJournal) : Prop where
  version : journal.version = 1
  acknowledged : journal.acknowledgedThrough ≤ journal.head
  bounded : journal.head ≤ u64Max
  baseline : ∀ through ∈ journal.baselineThrough, through ≤ journal.head
  consecutive : Consecutive StoredEvent.watermark (journal.acknowledgedThrough + 1) journal.events
  length : journal.events.length = journal.head - journal.acknowledgedThrough
  batches : ∀ event ∈ journal.events, ∀ changes, event.changes = .exact changes →
    changes.Pairwise CanonicalChange.Below

variable {events : List StoredEvent}

theorem consecutive_of_follows {head previous : Nat} (ordered : follows head previous events = true)
    (nodup : (events.map StoredEvent.watermark).Nodup) (bounded : previous ≤ u64Max)
    (fresh : previous = u64Max → previous ∉ events.map StoredEvent.watermark) :
    Consecutive StoredEvent.watermark (previous + 1) events := by
  induction events generalizing previous with
  | nil => exact .nil
  | cons event rest ih =>
    simp only [follows, decide_eq_true_eq] at ordered
    obtain ⟨here, _, later⟩ := ordered
    rw [List.map_cons, List.nodup_cons] at nodup
    have below : previous ≠ u64Max := by
      intro top
      refine fresh top ?_
      have same : event.watermark = previous := by
        rw [here, saturatingSucc, top]
        omega
      simp [same]
    have next : event.watermark = previous + 1 := by
      rw [here, saturatingSucc]
      omega
    refine Consecutive.cons_iff.mpr ⟨next, ?_⟩
    rw [next] at later nodup
    exact ih later nodup.2 (by omega) fun _ => nodup.1

theorem follows_of_consecutive {head previous : Nat}
    (consecutive : Consecutive StoredEvent.watermark (previous + 1) events)
    (bounded : head ≤ u64Max) (fits : previous + events.length ≤ head) :
    follows head previous events = true := by
  induction events generalizing previous with
  | nil => rfl
  | cons event rest ih =>
    obtain ⟨here, later⟩ := Consecutive.cons_iff.mp consecutive
    rw [List.length_cons] at fits
    simp only [follows, decide_eq_true_eq]
    refine ⟨?_, by omega, ?_⟩
    · rw [here, saturatingSucc]
      omega
    · rw [here]
      exact ih later (by omega)

/-- The events of an ordered feed have watermarks of 64 bits, up to the head. -/
theorem watermark_le_of_follows {head previous : Nat}
    (ordered : follows head previous events = true) :
    ∀ event ∈ events, event.watermark ≤ u64Max ∧ event.watermark ≤ head := by
  induction events generalizing previous with
  | nil => simp
  | cons first rest ih =>
    intro event member
    simp only [follows, decide_eq_true_eq] at ordered
    rcases List.mem_cons.mp member with rfl | later
    · refine ⟨?_, ordered.2.1⟩
      rw [ordered.1, saturatingSucc]
      omega
    · exact ih ordered.2.2 event later

theorem Valid.contiguous (valid : Valid journal) (bounded : journal.head ≤ u64Max)
    (nodup : (journal.events.map StoredEvent.watermark).Nodup)
    (batches : ∀ event ∈ journal.events, ∀ changes, event.changes = .exact changes →
      changes.Pairwise CanonicalChange.Below) : Contiguous journal := by
  have acknowledged := valid.acknowledged
  have consecutive : Consecutive StoredEvent.watermark (journal.acknowledgedThrough + 1)
      journal.events := by
    refine consecutive_of_follows valid.follows nodup (by omega) ?_
    intro top listed
    -- nothing is stored behind the largest watermark
    have last := valid.last
    rw [if_neg (by omega)] at last
    cases events : journal.events with
    | nil => simp [events] at listed
    | cons event rest => simp [events] at last
  refine ⟨valid.version, valid.acknowledged, bounded, valid.baseline, consecutive, ?_, batches⟩
  have last := valid.last
  rw [consecutive.getLast?] at last
  by_cases empty : journal.events = []
  · rw [if_pos empty] at last
    split at last
    next => cases last
    next behind =>
      rw [empty, List.length_nil]
      omega
  · rw [if_neg empty] at last
    split at last
    next ahead =>
      have equal := Option.some.inj last
      omega
    next => cases last

theorem Contiguous.valid (contiguous : Contiguous journal) : Valid journal := by
  have acknowledged := contiguous.acknowledged
  have length := contiguous.length
  refine ⟨contiguous.version, contiguous.acknowledged, contiguous.baseline,
    follows_of_consecutive contiguous.consecutive contiguous.bounded (by omega), ?_⟩
  rw [contiguous.consecutive.getLast?]
  by_cases empty : journal.events = []
  · rw [empty, List.length_nil] at length
    rw [if_pos empty, if_neg (by omega)]
  · have positive : 0 < journal.events.length := List.length_pos_iff.mpr empty
    rw [if_neg empty, if_pos (by omega)]
    congr 1
    omega

theorem Contiguous.default : Contiguous .default := by
  refine ⟨rfl, le_rfl, by decide, ?_, .nil, rfl, ?_⟩
  · intro through member
    cases member
  · intro event member
    cases member

theorem Contiguous.validate (contiguous : Contiguous journal) :
    Provider.validate journal = .ok () := validate_eq_ok_iff.mpr contiguous.valid

theorem map_eq_store_iff {β : Type} {f : α → β} {reply : β} :
    decision.map (Verdict.map f) = .ok (.store journal reply) ↔
      ∃ value, decision = .ok (.store journal value) ∧ f value = reply := by
  cases decision with
  | error error => simp [Except.map]
  | ok verdict =>
    cases verdict with
    | keep value | store other value => simp [Except.map, Verdict.map]

theorem map_eq_keep_iff {β : Type} {f : α → β} {reply : β} :
    decision.map (Verdict.map f) = .ok (.keep reply) ↔
      ∃ value, decision = .ok (.keep value) ∧ f value = reply := by
  cases decision with
  | error error => simp [Except.map]
  | ok verdict =>
    cases verdict with
    | keep value | store other value => simp [Except.map, Verdict.map]

variable {stored : StoredFeed} {feed : ChangeFeed}

theorem checkedJournal_eq_ok (checked : checkedJournal stored feed = .ok journal) :
    journal = stored.journal ∧ journal.owner = some feed.owner ∧
      journal.fencingEpoch = feed.fencingEpoch := by
  unfold checkedJournal at checked
  split at checked
  next => cases checked
  rename_i current
  obtain ⟨_, _, same⟩ := bind_eq_ok.mp checked
  cases same
  simp only [not_or, not_not] at current
  exact ⟨rfl, current⟩

/-- The journal of a reconciliation: events of committed transactions were added. -/
structure Grown (old new : FeedJournal) : Prop where
  rest : new = { old with head := new.head, events := new.events }
  head : new.head = old.head ∨ ∃ event ∈ new.events, event.watermark = new.head
  ascending : old.head ≤ new.head
  events : ∃ added, new.events = old.events ++ added
  nodup : (old.events.map StoredEvent.watermark).Nodup →
    (new.events.map StoredEvent.watermark).Nodup
  batches : ∀ event ∈ new.events, event ∈ old.events ∨
    ∃ batch : ChangeBatch, event.changes = .exact batch.items

theorem Grown.refl (journal : FeedJournal) : Grown journal journal where
  rest := rfl
  head := .inl rfl
  ascending := le_rfl
  events := ⟨[], by simp⟩
  nodup := fun nodup => nodup
  batches := fun _ member => .inl member

theorem Grown.trans {first second third : FeedJournal} (left : Grown first second)
    (right : Grown second third) : Grown first third := by
  obtain ⟨added, leftEvents⟩ := left.events
  obtain ⟨more, rightEvents⟩ := right.events
  refine ⟨?_, ?_, left.ascending.trans right.ascending,
    ⟨added ++ more, by rw [rightEvents, leftEvents, List.append_assoc]⟩,
    fun nodup => right.nodup (left.nodup nodup), ?_⟩
  · rw [right.rest, left.rest]
  · rcases right.head with same | latest
    · rcases left.head with unchanged | ⟨event, member, here⟩
      · exact .inl (same.trans unchanged)
      · refine .inr ⟨event, ?_, here.trans same.symm⟩
        rw [rightEvents]
        exact List.mem_append_left _ member
    · exact .inr latest
  · intro event member
    rcases right.batches event member with old | exact_
    · exact left.batches event old
    · exact .inr exact_

variable {journal next : FeedJournal} {generation later : CollectionGeneration}

/-- Reconciling a resolution only adds to the journal. -/
theorem reconcileOne_grown {changed after : Bool} {resolution : CommittedResolution}
    (result : reconcileOne (journal, generation, changed) resolution =
      .ok (next, later, after)) : Grown journal next ∧ (after = false → next = journal) := by
  unfold reconcileOne at result
  dsimp only at result
  split at result
  next =>
    cases result
    exact ⟨.refl journal, fun _ => rfl⟩
  rename_i unknown
  split at result
  next => cases result
  rename_i unclaimed
  obtain ⟨_, _, stored⟩ := bind_eq_ok.mp result
  cases stored
  have fresh : ∀ event ∈ journal.events, event.watermark ≠ resolution.watermark := by
    intro event member same
    have known : event.id ≠ resolution.eventId := by
      intro identical
      exact unknown (List.any_eq_true.mpr ⟨event, member, by simpa using identical⟩)
    exact unclaimed (List.any_eq_true.mpr ⟨event, member, by simp [same, known]⟩)
  refine ⟨⟨rfl, ?_, le_max_left _ _, ⟨_, rfl⟩, ?_, ?_⟩, fun unchanged => by cases unchanged⟩
  · rcases le_total resolution.watermark journal.head with below | above
    · exact .inl (max_eq_left below)
    · exact .inr ⟨_, List.mem_append_right _ (List.mem_singleton_self _),
        (max_eq_right above).symm⟩
  · intro nodup
    rw [List.map_append, List.nodup_append]
    refine ⟨nodup, by simp, ?_⟩
    intro watermark listed other here same
    obtain ⟨event, member, rfl⟩ := List.mem_map.mp listed
    simp only [List.map_cons, List.map_nil, List.mem_singleton] at here
    exact fresh event member (same.trans here)
  · intro event member
    rcases List.mem_append.mp member with old | new
    · exact .inl old
    · rw [List.mem_singleton.mp new]
      exact .inr ⟨resolution.changes, rfl⟩

variable {context : Context}

variable {number : Nat}

theorem reconcileAll_changed {resolutions : List CommittedResolution} {after : Bool}
    (result : reconcileAll context number (journal, generation, true) resolutions =
      .ok (next, later, after)) : after = true := by
  induction resolutions generalizing number journal generation with
  | nil =>
    cases result
    rfl
  | cons resolution rest ih =>
    obtain ⟨_, _, result⟩ := bind_eq_ok.mp result
    obtain ⟨⟨middle, middleGeneration, middleChanged⟩, first, result⟩ := bind_eq_ok.mp result
    have still : middleChanged = true := by
      unfold reconcileOne at first
      dsimp only at first
      split at first
      next =>
        cases first
        rfl
      split at first
      next => cases first
      obtain ⟨_, _, stored⟩ := bind_eq_ok.mp first
      cases stored
      rfl
    rw [still] at result
    exact ih result

/-- Reconciliation appends events behind the head, or leaves the journal as it is. -/
theorem reconcileAll_grown {resolutions : List CommittedResolution} {changed after : Bool}
    (result : reconcileAll context number (journal, generation, changed) resolutions =
      .ok (next, later, after)) : Grown journal next ∧ (after = false → next = journal) := by
  induction resolutions generalizing number journal generation changed with
  | nil =>
    cases result
    exact ⟨.refl _, fun _ => rfl⟩
  | cons resolution rest ih =>
    obtain ⟨_, _, result⟩ := bind_eq_ok.mp result
    obtain ⟨⟨middle, middleGeneration, middleChanged⟩, first, result⟩ := bind_eq_ok.mp result
    obtain ⟨firstGrown, firstSame⟩ := reconcileOne_grown first
    obtain ⟨restGrown, restSame⟩ := ih result
    refine ⟨firstGrown.trans restGrown, fun unchanged => ?_⟩
    have middleUnchanged : middleChanged = false := by
      cases flag : middleChanged with
      | false => rfl
      | true =>
        rw [flag] at result
        have kept := reconcileAll_changed result
        rw [unchanged] at kept
        cases kept
    rw [restSame unchanged, firstSame middleUnchanged]

variable {new : FeedJournal}

/-- A reconciliation that succeeds went over all committed transactions. -/
theorem reconcile_ok {initial : CollectionGeneration}
    {resolutions : Except ProviderError (List CommittedResolution)}
    {verdict : Verdict ReconciledFeed}
    (decided : reconcile stored initial resolutions context = .ok verdict) :
    ∃ listed grown generation changed, resolutions = .ok listed ∧
      reconcileAll context 1 (stored.journal, initial, stored.isNone) listed =
        .ok (grown, generation, changed) ∧
      verdict = if changed then
        .store { grown with events := sortEvents grown.events } ⟨grown.head, generation⟩
        else .keep ⟨grown.head, generation⟩ := by
  unfold reconcile at decided
  obtain ⟨_, _, decided⟩ := bind_eq_ok.mp decided
  obtain ⟨_, _, decided⟩ := bind_eq_ok.mp decided
  obtain ⟨listed, lists, decided⟩ := bind_eq_ok.mp decided
  obtain ⟨⟨grown, generation, changed⟩, rounds, decided⟩ := bind_eq_ok.mp decided
  obtain ⟨_, _, decided⟩ := bind_eq_ok.mp decided
  exact ⟨listed, grown, generation, changed, lists, rounds, (Except.ok.inj decided).symm⟩

theorem reconcile_store {initial : CollectionGeneration}
    {resolutions : Except ProviderError (List CommittedResolution)} {reply : ReconciledFeed}
    (decided : reconcile stored initial resolutions context = .ok (.store new reply)) :
    ∃ grown, Grown stored.journal grown ∧
      new = { grown with events := sortEvents grown.events } := by
  obtain ⟨_, grown, _, changed, _, rounds, verdict⟩ := reconcile_ok decided
  cases changed with
  | false => cases verdict
  | true =>
    cases verdict
    exact ⟨grown, (reconcileAll_grown rounds).1, rfl⟩

/-- The journal of an append: one event more, at the next watermark. -/
structure Appended (old new : FeedJournal) (event : StoredEvent) : Prop where
  journal : new = { old with head := event.watermark, events := old.events ++ [event] }
  next : event.watermark = saturatingSucc old.head
  batch : ∀ changes, event.changes = .exact changes → ∃ batch : ChangeBatch, changes = batch.items

theorem appendKnown_store {outcome : KnownOutcome}
    {reply : Unit} (decided : appendKnown stored outcome = .ok (.store new reply)) :
    ∃ event, Appended stored.journal new event ∧
      outcome.changeEvent = some (event.id, event.watermark) := by
  unfold appendKnown at decided
  split at decided
  next => cases decided
  next => cases decided
  next id watermark commitId changes identity _ _ =>
    obtain ⟨_, _, decided⟩ := bind_eq_ok.mp decided
    split at decided
    next =>
      split at decided
      next => cases decided
      next => cases decided
    split at decided
    next => cases decided
    rename_i next
    split at decided
    next => cases decided
    simp only [Except.ok.injEq, Verdict.store.injEq] at decided
    refine ⟨⟨id, watermark, outcome.generation, .exact changes.items, .knownMutation,
      some commitId⟩, ⟨decided.1.symm, not_not.mp next, ?_⟩, identity⟩
    intro listed same
    cases same
    exact ⟨changes, rfl⟩
  next => cases decided

theorem appendExternal_store {event : RuntimeChangeEvent} {reply : Unit}
    (decided : appendExternal stored event = .ok (.store new reply)) :
    ∃ added, Appended stored.journal new added ∧ added.watermark = event.watermark := by
  unfold appendExternal at decided
  obtain ⟨_, _, decided⟩ := bind_eq_ok.mp decided
  split at decided
  next => cases decided
  rename_i next
  split at decided
  next => cases decided
  split at decided
  next => cases decided
  rename_i changes external
  simp only [Except.ok.injEq, Verdict.store.injEq] at decided
  refine ⟨⟨event.id, event.watermark, event.generation, changes, event.origin, none⟩,
    ⟨decided.1.symm, not_not.mp next, ?_⟩, rfl⟩
  intro listed same
  dsimp only at same
  subst same
  cases kind : event.changes with
  | none | collectionWide reason => simp [externalChanges, kind] at external
  | exact batch =>
    rw [kind, externalChanges] at external
    split at external
    next => simp at external
    simp only [Option.some.injEq, StoredChangeSet.exact.injEq] at external
    exact ⟨batch, external.symm⟩

theorem openFeed_store {owner : String}
    {reply : ChangeFeed} (decided : openFeed stored owner = .ok (.store new reply)) :
    (stored.journal.owner = none ∨ stored.journal.owner = some owner) ∧
      new = { stored.journal with
        owner := some owner, fencingEpoch := stored.journal.fencingEpoch + 1 } ∧
      reply = ⟨owner, stored.journal.fencingEpoch + 1⟩ := by
  unfold openFeed checkedSucc at decided
  dsimp only at decided
  split at decided
  next free =>
    split at decided
    next => cases decided
    rename_i epoch next
    split at next
    next =>
      cases next
      cases decided
      exact ⟨free, rfl, rfl⟩
    next => cases next
  next => cases decided

theorem commitBaseline_store {reply : ChangeFeedBaseline}
    (decided : commitBaseline stored feed = .ok (.store new reply)) :
    (stored.journal.owner = some feed.owner ∧ stored.journal.fencingEpoch = feed.fencingEpoch) ∧
    new = { stored.journal with
      baselineThrough := some stored.journal.head
      acknowledgedThrough := stored.journal.head
      events := [] } := by
  unfold commitBaseline at decided
  obtain ⟨journal, checked, decided⟩ := bind_eq_ok.mp decided
  obtain ⟨rfl, owner, epoch⟩ := checkedJournal_eq_ok checked
  split at decided
  next => cases decided
  cases decided
  exact ⟨⟨owner, epoch⟩, rfl⟩

theorem ackFeed_store {through : Nat} {reply : List String}
    (decided : ackFeed stored feed through = .ok (.store new reply)) :
    (stored.journal.owner = some feed.owner ∧ stored.journal.fencingEpoch = feed.fencingEpoch) ∧
    through ≤ stored.journal.head ∧ stored.journal.acknowledgedThrough < through ∧
    new = { stored.journal with
      acknowledgedThrough := through
      events := stored.journal.events.filter fun event => ¬ event.watermark ≤ through } := by
  unfold ackFeed at decided
  obtain ⟨journal, checked, decided⟩ := bind_eq_ok.mp decided
  obtain ⟨rfl, owner, epoch⟩ := checkedJournal_eq_ok checked
  split at decided
  next => cases decided
  rename_i below
  split at decided
  next => cases decided
  next above =>
    cases decided
    exact ⟨⟨owner, epoch⟩, not_lt.mp below, not_le.mp above, rfl⟩

/-- When a transfer is stored, and what it stores. -/
theorem transferFeed_store {intent : ChangeFeedTransferIntent} {reply : ChangeFeedTransfer}
    (decided : transferFeed stored intent = .ok (.store new reply)) :
    stored.journal.pendingTransfer = none ∧
      stored.journal.acknowledgedThrough = intent.expectedAckedThrough ∧
      new = { stored.journal with
        fencingEpoch := stored.journal.fencingEpoch + 1
        owner := some intent.next
        pendingTransfer := some {
          id := intent.id
          current := intent.current
          next := intent.next
          expectedAckedThrough := intent.expectedAckedThrough
          fencingEpoch := stored.journal.fencingEpoch + 1 } } ∧
      reply = transferResult new intent.id := by
  unfold transferFeed checkedSucc at decided
  dsimp only at decided
  split at decided
  next =>
    split at decided
    next => cases decided
    next => cases decided
  rename_i free
  split at decided
  next => cases decided
  rename_i expected
  simp only [not_or, not_not] at expected
  split at decided
  next => cases decided
  rename_i epoch next
  split at next
  next =>
    cases next
    cases decided
    exact ⟨free, expected.2, rfl, rfl⟩
  next => cases next

theorem ackTransfer_store {id : String} {reply : Unit}
    (decided : ackTransfer stored id = .ok (.store new reply)) :
    (∃ transfer, stored.journal.pendingTransfer = some transfer ∧ transfer.id = id) ∧
    new = { stored.journal with
      pendingTransfer := none
      lastAcknowledgedTransferId := some id } := by
  unfold ackTransfer at decided
  dsimp only at decided
  split at decided
  next pending =>
    cases decided
    refine ⟨?_, rfl⟩
    cases here : stored.journal.pendingTransfer with
    | none => simp [here] at pending
    | some transfer => exact ⟨transfer, rfl, by simpa [here] using pending⟩
  split at decided
  next => cases decided
  next => cases decided

variable {after : Option Nat}

theorem readFeed_store {limit : Nat} {reply : RuntimeChangeEventPage} :
    readFeed stored feed after limit context ≠ .ok (.store new reply) := by
  intro decided
  unfold readFeed at decided
  obtain ⟨_, _, decided⟩ := bind_eq_ok.mp decided
  obtain ⟨_, _, decided⟩ := bind_eq_ok.mp decided
  dsimp only at decided
  split at decided
  next => cases decided
  split at decided
  next => cases decided
  obtain ⟨_, _, decided⟩ := bind_eq_ok.mp decided
  cases decided

/-- The handle is the one that the feed accepts. -/
def Current (stored : StoredFeed) (feed : ChangeFeed) : Prop :=
  stored.journal.owner = some feed.owner ∧ stored.journal.fencingEpoch = feed.fencingEpoch

theorem Current.unique {left right : ChangeFeed}
    (leftCurrent : Current stored left) (rightCurrent : Current stored right) : left = right := by
  cases left
  cases right
  have owner := leftCurrent.1.symm.trans rightCurrent.1
  have epoch := leftCurrent.2.symm.trans rightCurrent.2
  cases owner
  cases epoch
  rfl

/-- The journal that a call stores, and its reply. -/
inductive FeedChange (stored : StoredFeed) : FeedCall → FeedReply → FeedJournal → Prop where
  | reconciled {initial : CollectionGeneration}
      {resolutions : Except ProviderError (List CommittedResolution)} {context : Context}
      {grown : FeedJournal} {reply : FeedReply} (growth : Grown stored.journal grown) :
      FeedChange stored (.reconcile initial resolutions context) reply
        { grown with events := sortEvents grown.events }
  | known {outcome : KnownOutcome} {new : FeedJournal} {event : StoredEvent} {reply : FeedReply}
      (appended : Appended stored.journal new event)
      (identity : outcome.changeEvent = some (event.id, event.watermark)) :
      FeedChange stored (.appendKnown outcome) reply new
  | external {observed : RuntimeChangeEvent} {new : FeedJournal} {event : StoredEvent}
      {reply : FeedReply} (appended : Appended stored.journal new event)
      (same : event.watermark = observed.watermark) :
      FeedChange stored (.appendExternal observed) reply new
  | opened {owner : String}
      (free : stored.journal.owner = none ∨ stored.journal.owner = some owner) :
      FeedChange stored (.openFeed owner) (.opened ⟨owner, stored.journal.fencingEpoch + 1⟩)
        { stored.journal with
          owner := some owner, fencingEpoch := stored.journal.fencingEpoch + 1 }
  | baselined {feed : ChangeFeed} {reply : FeedReply} (current : Current stored feed) :
      FeedChange stored (.baseline feed) reply
        { stored.journal with
          baselineThrough := some stored.journal.head
          acknowledgedThrough := stored.journal.head
          events := [] }
  | acknowledged {feed : ChangeFeed} {through : Nat} {reply : FeedReply}
      (current : Current stored feed) (le : through ≤ stored.journal.head)
      (gt : stored.journal.acknowledgedThrough < through) :
      FeedChange stored (.ack feed through) reply
        { stored.journal with
          acknowledgedThrough := through
          events := stored.journal.events.filter fun event => ¬ event.watermark ≤ through }
  | transferred {intent : ChangeFeedTransferIntent} {new : FeedJournal}
      (free : stored.journal.pendingTransfer = none)
      (expected : stored.journal.acknowledgedThrough = intent.expectedAckedThrough)
      (result : new = { stored.journal with
        fencingEpoch := stored.journal.fencingEpoch + 1
        owner := some intent.next
        pendingTransfer := some {
          id := intent.id
          current := intent.current
          next := intent.next
          expectedAckedThrough := intent.expectedAckedThrough
          fencingEpoch := stored.journal.fencingEpoch + 1 } }) :
      FeedChange stored (.transfer intent) (.transferred (transferResult new intent.id)) new
  | transferAcknowledged {id : String} {reply : FeedReply}
      (pending : ∃ transfer, stored.journal.pendingTransfer = some transfer ∧ transfer.id = id) :
      FeedChange stored (.ackTransfer id) reply
        { stored.journal with
          pendingTransfer := none
          lastAcknowledgedTransferId := some id }

/-- A call that stores something changes the feed as `FeedChange` says. -/
theorem feedChange_of_store {call : FeedCall} {reply : FeedReply}
    (decided : decideCall stored call = .ok (.store new reply)) :
    FeedChange stored call reply new := by
  cases call with
  | reconcile initial resolutions context =>
    obtain ⟨_, decided, _⟩ := map_eq_store_iff.mp decided
    obtain ⟨grown, growth, rfl⟩ := reconcile_store decided
    exact .reconciled growth
  | appendKnown outcome =>
    obtain ⟨_, decided, _⟩ := map_eq_store_iff.mp decided
    obtain ⟨event, appended, identity⟩ := appendKnown_store decided
    exact .known appended identity
  | appendExternal event =>
    obtain ⟨_, decided, _⟩ := map_eq_store_iff.mp decided
    obtain ⟨added, appended, same⟩ := appendExternal_store decided
    exact .external appended same
  | openFeed owner =>
    obtain ⟨_, opens, rfl⟩ := map_eq_store_iff.mp decided
    obtain ⟨free, rfl, rfl⟩ := openFeed_store opens
    exact .opened free
  | baseline feed =>
    obtain ⟨_, decided, _⟩ := map_eq_store_iff.mp decided
    obtain ⟨current, rfl⟩ := commitBaseline_store decided
    exact .baselined current
  | read feed position limit positive context =>
    obtain ⟨_, decided, _⟩ := map_eq_store_iff.mp decided
    exact absurd decided readFeed_store
  | ack feed through =>
    obtain ⟨_, decided, _⟩ := map_eq_store_iff.mp decided
    obtain ⟨current, le, gt, rfl⟩ := ackFeed_store decided
    exact .acknowledged current le gt
  | transfer intent =>
    obtain ⟨_, transfers, rfl⟩ := map_eq_store_iff.mp decided
    obtain ⟨free, expected, result, rfl⟩ := transferFeed_store transfers
    exact .transferred free expected result
  | ackTransfer id =>
    obtain ⟨_, decided, _⟩ := map_eq_store_iff.mp decided
    obtain ⟨pending, rfl⟩ := ackTransfer_store decided
    exact .transferAcknowledged pending

/-- A call leaves the feed as it is or changes it as `FeedChange` says. -/
theorem FeedStep.cases {before after : StoredFeed} {call : FeedCall}
    {reply : Except ProviderError FeedReply} (step : FeedStep bytes before call reply after) :
    after = before ∨
    ∃ new value, FeedChange before call value new ∧ Valid new ∧ reply = .ok value ∧
      after = some new := by
  rcases conclude_cases step with ⟨_, _, same⟩ | ⟨_, _, _, same⟩ |
    ⟨new, value, decided, valid, replied, stored⟩
  · exact .inl same
  · exact .inl same
  · exact .inr ⟨new, value, feedChange_of_store decided, validate_eq_ok_iff.mp valid, replied,
      stored⟩

/-- An append of the largest watermark is not made when the head is there already. -/
def Unwrapped (stored : StoredFeed) : FeedCall → Prop
  | .appendKnown outcome =>
    ∀ id, stored.journal.head = u64Max → outcome.changeEvent ≠ some (id, u64Max)
  | .appendExternal event => stored.journal.head = u64Max → event.watermark ≠ u64Max
  | _ => True

theorem Contiguous.appended {old new : FeedJournal} {event : StoredEvent}
    (contiguous : Contiguous old) (appended : Appended old new event)
    (unwrapped : old.head = u64Max → event.watermark ≠ u64Max) : Contiguous new := by
  obtain ⟨rfl, next, batch⟩ := appended
  have below : old.head < u64Max := by
    refine lt_of_le_of_ne contiguous.bounded fun top => unwrapped top ?_
    rw [next, saturatingSucc, top]
    omega
  have watermark : event.watermark = old.head + 1 := by
    rw [next, saturatingSucc]
    omega
  have acknowledged := contiguous.acknowledged
  have length := contiguous.length
  refine ⟨contiguous.version, ?_, ?_, ?_, ?_, ?_, ?_⟩
  · change old.acknowledgedThrough ≤ event.watermark
    omega
  · change event.watermark ≤ u64Max
    omega
  · intro through member
    have bound := contiguous.baseline through member
    change through ≤ event.watermark
    omega
  · refine Consecutive.append_iff.mpr ⟨contiguous.consecutive, Consecutive.singleton_iff.mpr ?_⟩
    change event.watermark = old.acknowledgedThrough + 1 + old.events.length
    omega
  · simp only [List.length_append, List.length_singleton]
    omega
  · intro other member changes same
    rcases List.mem_append.mp member with kept | new
    · exact contiguous.batches other kept changes same
    · rw [List.mem_singleton] at new
      subst new
      obtain ⟨found, rfl⟩ := batch changes same
      exact found.ordered

theorem Contiguous.grown {old grown : FeedJournal} (contiguous : Contiguous old)
    (growth : Grown old grown) (valid : Valid { grown with events := sortEvents grown.events }) :
    Contiguous { grown with events := sortEvents grown.events } := by
  have sorted : (sortEvents grown.events).Perm grown.events := List.perm_insertionSort _ _
  refine valid.contiguous ?_ ?_ ?_
  · rcases growth.head with same | ⟨event, member, here⟩
    · change grown.head ≤ u64Max
      rw [same]
      exact contiguous.bounded
    · change grown.head ≤ u64Max
      rw [← here]
      exact (watermark_le_of_follows valid.follows event (sorted.mem_iff.mpr member)).1
  · exact (sorted.map StoredEvent.watermark).nodup_iff.mpr
      (growth.nodup contiguous.consecutive.nodup)
  · intro event member changes same
    rcases growth.batches event (sorted.mem_iff.mp member) with kept | ⟨batch, exact_⟩
    · exact contiguous.batches event kept changes same
    · rw [same] at exact_
      cases exact_
      exact batch.ordered

theorem Contiguous.acknowledge {old : FeedJournal} (contiguous : Contiguous old) {through : Nat}
    (le : through ≤ old.head) (gt : old.acknowledgedThrough < through) :
    Contiguous { old with
      acknowledgedThrough := through
      events := old.events.filter fun event => ¬ event.watermark ≤ through } := by
  have dropped : (old.events.filter fun event => ¬ event.watermark ≤ through) =
      old.events.drop (through - old.acknowledgedThrough) := by
    have le : old.acknowledgedThrough + 1 ≤ through + 1 := by omega
    have same := contiguous.consecutive.filter_gt le
    simp only [not_le]
    rw [Nat.add_sub_add_right] at same
    exact same
  have length := contiguous.length
  refine ⟨contiguous.version, le, contiguous.bounded, contiguous.baseline, ?_, ?_, ?_⟩
  · have fits : through - old.acknowledgedThrough ≤ old.events.length := by omega
    have rest := contiguous.consecutive.drop fits
    have first : old.acknowledgedThrough + 1 + (through - old.acknowledgedThrough) =
        through + 1 := by omega
    rw [first] at rest
    rw [dropped]
    exact rest
  · dsimp only
    rw [dropped, List.length_drop]
    omega
  · intro event member
    exact contiguous.batches event (List.mem_filter.mp member).1

/-- A call that does not wrap the sequence keeps the journal contiguous. -/
theorem Contiguous.step {bytes : FeedJournal → Nat} {before after : StoredFeed} {call : FeedCall}
    {reply : Except ProviderError FeedReply} (contiguous : Contiguous before.journal)
    (unwrapped : Unwrapped before call) (step : FeedStep bytes before call reply after) :
    Contiguous after.journal := by
  rcases step.cases with rfl | ⟨new, value, change, valid, _, rfl⟩
  · exact contiguous
  change Contiguous new
  cases change with
  | reconciled growth => exact contiguous.grown growth valid
  | @known _ _ event _ appended identity =>
    refine contiguous.appended appended fun top same => ?_
    rw [same] at identity
    exact unwrapped event.id top identity
  | external appended same =>
    refine contiguous.appended appended fun top here => ?_
    exact unwrapped top (same.symm.trans here)
  | opened => exact { contiguous with }
  | baselined current =>
    refine ⟨contiguous.version, le_rfl, contiguous.bounded, ?_, .nil, ?_, ?_⟩
    · intro through member
      cases member
      exact le_rfl
    · exact (Nat.sub_self _).symm
    · intro event member
      cases member
  | acknowledged current le gt => exact contiguous.acknowledge le gt
  | transferred free expected result =>
    subst result
    exact { contiguous with }
  | transferAcknowledged => exact { contiguous with }

theorem checkedJournal_current
    (contiguous : Contiguous stored.journal) (current : Current stored feed) :
    checkedJournal stored feed = .ok stored.journal := by
  unfold checkedJournal
  rw [if_neg (by simp [current.1, current.2]), contiguous.validate]
  rfl

/-- The number of events on a page. -/
def pageCount (journal : FeedJournal) (after limit : Nat) : Nat :=
  min (min limit maxFeedPageItems) (journal.head - after)

/-- A page has the events behind a position, as many as its limit allows, and says
where to go on unless it reaches the head. -/
structure PageOf (journal : FeedJournal) (after limit : Nat) (page : RuntimeChangeEventPage) :
    Prop where
  watermarks : page.events.map RuntimeChangeEvent.watermark =
    List.range' (after + 1) (pageCount journal after limit)
  next : page.next = if after + pageCount journal after limit < journal.head then
    some (after + pageCount journal after limit) else none
  head : page.feedHead = journal.head

theorem runtimeEvents_watermarks
    {page : List RuntimeChangeEvent} (result : runtimeEvents context number events = .ok page) :
    page.map RuntimeChangeEvent.watermark = events.map StoredEvent.watermark := by
  induction events generalizing number page with
  | nil =>
    cases result
    rfl
  | cons event rest ih =>
    obtain ⟨_, _, result⟩ := bind_eq_ok.mp result
    obtain ⟨first, converted, result⟩ := bind_eq_ok.mp result
    obtain ⟨others, later, result⟩ := bind_eq_ok.mp result
    cases result
    unfold runtimeEvent at converted
    obtain ⟨_, _, same⟩ := bind_eq_ok.mp converted
    cases same
    rw [List.map_cons, List.map_cons, ih later]

theorem runtimeEvent_ok {event : StoredEvent}
    (batch : ∀ changes, event.changes = .exact changes → changes.Pairwise CanonicalChange.Below) :
    ∃ converted, runtimeEvent event = .ok converted := by
  obtain ⟨restored, restores⟩ : ∃ restored, event.changes.restore = .ok restored := by
    cases kind : event.changes with
    | collectionWide reason => exact ⟨.collectionWide reason, rfl⟩
    | exact changes =>
      have new := ChangeBatch.new_items ⟨changes, batch changes kind⟩
      exact ⟨.exact ⟨changes, _⟩, by rw [StoredChangeSet.restore, new]; rfl⟩
  exact ⟨_, by rw [runtimeEvent, restores]; rfl⟩

theorem runtimeEvents_error {error : ProviderError}
    (batches : ∀ event ∈ events, ∀ changes, event.changes = .exact changes →
      changes.Pairwise CanonicalChange.Below)
    (result : runtimeEvents context number events = .error error) :
    ∃ other, context.check other = .error error := by
  induction events generalizing number with
  | nil => cases result
  | cons event rest ih =>
    unfold runtimeEvents at result
    cases checked : context.check number with
    | error stopped =>
      rw [checked] at result
      cases result
      exact ⟨number, checked⟩
    | ok =>
      obtain ⟨first, converted⟩ := runtimeEvent_ok (batches event List.mem_cons_self)
      cases later : runtimeEvents context (number + 1) rest with
      | error stopped =>
        rw [checked, converted, later] at result
        cases result
        exact ih (fun other member => batches other (List.mem_cons_of_mem _ member)) later
      | ok others =>
        rw [checked, converted, later] at result
        cases result

theorem runtimeEvents_ok {context : Context} {number : Nat} {events : List StoredEvent}
    (open_ : context.Open) (batches : ∀ event ∈ events, ∀ changes, event.changes = .exact changes →
      changes.Pairwise CanonicalChange.Below) :
    ∃ page, runtimeEvents context number events = .ok page := by
  induction events generalizing number with
  | nil => exact ⟨[], rfl⟩
  | cons event rest ih =>
    obtain ⟨others, later⟩ := @ih (number + 1) fun other member =>
      batches other (List.mem_cons_of_mem _ member)
    obtain ⟨first, converted⟩ := runtimeEvent_ok (batches event List.mem_cons_self)
    refine ⟨first :: others, ?_⟩
    simp [runtimeEvents, open_.check, converted, later, bind, Except.bind]

theorem Contiguous.pageEvents {journal : FeedJournal} (contiguous : Contiguous journal)
    {after limit : Nat} (behind : journal.acknowledgedThrough ≤ after)
    (inside : after < journal.head) :
    Consecutive StoredEvent.watermark (after + 1) (Provider.pageEvents journal after limit) ∧
      (Provider.pageEvents journal after limit).length = pageCount journal after limit := by
  have length := contiguous.length
  have le : journal.acknowledgedThrough + 1 ≤ after + 1 := by omega
  have fits : after - journal.acknowledgedThrough ≤ journal.events.length := by omega
  have selected := contiguous.consecutive.filter_gt le
  rw [Nat.add_sub_add_right] at selected
  have rest := contiguous.consecutive.drop fits
  have first : journal.acknowledgedThrough + 1 + (after - journal.acknowledgedThrough) =
      after + 1 := by omega
  rw [first] at rest
  unfold Provider.pageEvents
  rw [selected]
  refine ⟨rest.take _, ?_⟩
  rw [List.length_take, List.length_drop, length, pageCount]
  omega

/-- A current reader gets the page that follows its position, or is told of a gap. -/
theorem readFeed_spec {stored : StoredFeed} {feed : ChangeFeed} {after : Option Nat} {limit : Nat}
    {context : Context} (contiguous : Contiguous stored.journal) (current : Current stored feed)
    (positive : 0 < limit) (open_ : context.Open) :
    (after.getD stored.journal.acknowledgedThrough < stored.journal.acknowledgedThrough →
      readFeed stored feed after limit context = .error .changeFeedRetentionGap) ∧
    (stored.journal.acknowledgedThrough ≤ after.getD stored.journal.acknowledgedThrough →
      ∃ page, readFeed stored feed after limit context = .ok (.keep page) ∧
        PageOf stored.journal (after.getD stored.journal.acknowledgedThrough) limit page) := by
  unfold readFeed
  simp only [open_.check, checkedJournal_current contiguous current, bind, Except.bind]
  generalize after.getD stored.journal.acknowledgedThrough = position
  refine ⟨fun below => by rw [if_pos below], fun behind => ?_⟩
  rw [if_neg (not_lt.mpr behind)]
  by_cases beyond : position ≥ stored.journal.head
  · rw [if_pos beyond]
    have none : pageCount stored.journal position limit = 0 := by
      rw [pageCount]
      omega
    refine ⟨_, rfl, ?_, ?_, rfl⟩
    · rw [none]
      rfl
    · rw [none, if_neg (by omega)]
  · rw [if_neg beyond]
    obtain ⟨consecutive, length⟩ :=
      @Contiguous.pageEvents _ contiguous position limit behind (not_le.mp beyond)
    obtain ⟨events, converted⟩ := @runtimeEvents_ok context 1
      (Provider.pageEvents stored.journal position limit) open_ fun event member =>
        contiguous.batches event (List.mem_filter.mp (List.mem_of_mem_take member)).1
    rw [converted]
    have count : 0 < pageCount stored.journal position limit := by
      rw [pageCount, maxFeedPageItems]
      omega
    refine ⟨_, rfl, ?_, ?_, rfl⟩
    · change events.map RuntimeChangeEvent.watermark = _
      rw [runtimeEvents_watermarks converted, consecutive, length]
    · have nonempty : Provider.pageEvents stored.journal position limit ≠ [] := by
        intro empty
        rw [empty, List.length_nil] at length
        omega
      have last : position + 1 + (Provider.pageEvents stored.journal position limit).length - 1 =
          position + pageCount stored.journal position limit := by omega
      change Option.filter _ _ = _
      rw [consecutive.getLast?, if_neg nonempty, last]
      by_cases more : position + pageCount stored.journal position limit < stored.journal.head
      · rw [if_pos more, Option.filter_some_pos (by simpa using more)]
      · rw [if_neg more, Option.filter_some_neg (by simpa using more)]

/-- A current reader is told of a gap exactly if it asks for what is no longer kept. -/
theorem readFeed_gap_iff {limit : Nat} (contiguous : Contiguous stored.journal)
    (current : Current stored feed) (started : context 0 = none) :
    readFeed stored feed after limit context = .error .changeFeedRetentionGap ↔
      after.getD stored.journal.acknowledgedThrough < stored.journal.acknowledgedThrough := by
  have first : context.check 0 = .ok () := by simp [Context.check, started]
  unfold readFeed
  simp only [first, checkedJournal_current contiguous current, bind, Except.bind]
  generalize after.getD stored.journal.acknowledgedThrough = position
  constructor
  · intro gap
    by_contra behind
    rw [if_neg behind] at gap
    split at gap
    next => cases gap
    cases converted : runtimeEvents context 1 (Provider.pageEvents stored.journal position limit)
      with
    | ok events =>
      rw [converted] at gap
      cases gap
    | error error =>
      rw [converted] at gap
      cases gap
      have batches : ∀ event ∈ Provider.pageEvents stored.journal position limit,
          ∀ changes, event.changes = .exact changes →
            changes.Pairwise CanonicalChange.Below := by
        intro event member
        exact contiguous.batches event (List.mem_filter.mp (List.mem_of_mem_take member)).1
      obtain ⟨number, stopped⟩ := runtimeEvents_error batches converted
      unfold Context.check at stopped
      split at stopped
      next => cases stopped
      next => cases stopped
      next => cases stopped
  · intro below
    rw [if_pos below]

/-- A context that never fails. -/
def Context.calm : Context := fun _ => none

theorem Context.calm_open : Context.calm.Open := fun _ => rfl

theorem runtimeEvents_calm
    {page : List RuntimeChangeEvent} (result : runtimeEvents context number events = .ok page)
    (other : Nat) : runtimeEvents .calm other events = .ok page := by
  induction events generalizing number page other with
  | nil => exact result
  | cons event rest ih =>
    obtain ⟨_, _, result⟩ := bind_eq_ok.mp result
    obtain ⟨first, converted, result⟩ := bind_eq_ok.mp result
    obtain ⟨others, later, result⟩ := bind_eq_ok.mp result
    cases result
    simp [runtimeEvents, Context.calm_open.check, converted, ih later, bind, Except.bind]

theorem readFeed_calm {limit : Nat} {verdict : Verdict RuntimeChangeEventPage}
    (result : readFeed stored feed after limit context = .ok verdict) :
    readFeed stored feed after limit .calm = .ok verdict := by
  obtain ⟨_, _, result⟩ := bind_eq_ok.mp result
  obtain ⟨journal, checked, result⟩ := bind_eq_ok.mp result
  refine bind_eq_ok.mpr ⟨(), Context.calm_open.check 0, bind_eq_ok.mpr ⟨journal, checked, ?_⟩⟩
  dsimp only at result ⊢
  split at result
  next => cases result
  rename_i behind
  rw [if_neg behind]
  split at result
  next beyond =>
    rw [if_pos beyond]
    exact result
  rename_i inside
  rw [if_neg inside]
  obtain ⟨events, converted, result⟩ := bind_eq_ok.mp result
  exact bind_eq_ok.mpr ⟨events, runtimeEvents_calm converted 1, result⟩

end Mdbase.Provider
