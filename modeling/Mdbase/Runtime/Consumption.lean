import Mdbase.Library.RetainedLog
import Mdbase.Runtime.Operations
import Mdbase.Runtime.Replay

/-!
# Consuming the event journal

The journal of the in-memory store is a retained log: the entry with cursor `n`
is the `n`-th one ever journalled, the store keeps the entries behind
`retained_after`, and the index of event keys remembers all of them. A consumer
that reads page after page, in any interleaving with the operations of the
store, receives the log without gaps.
-/

namespace Mdbase.Runtime

open Library Memory Relation

/-- A store whose journal is the given log. -/
structure Journals (store : MemoryState) (log : RetainedLog EventJournalEntry) : Prop where
  numbered : log.Numbered EventJournalEntry.cursor
  head : store.nextCursor = log.entries.length
  retained : store.retainedAfter = log.retained
  events : store.events = log.kept
  index : ∀ source id cursor, store.eventIndex.get? (toLex (source, id)) =
      some (toLex (source, id), cursor) ↔
    ∃ entry ∈ log.entries, entry.sourceRuntime = source ∧ entry.eventId = id ∧ entry.cursor = cursor

namespace Journals

variable {store next : MemoryState} {log : RetainedLog EventJournalEntry}

theorem new : Journals .new .empty := by
  refine ⟨.empty, rfl, rfl, rfl, fun source id cursor => ?_⟩
  simp [MemoryState.new, RetainedLog.empty]

theorem same (journals : Journals store log) (same : SameJournal store next) :
    Journals next log where
  numbered := journals.numbered
  head := same.nextCursor.trans journals.head
  retained := same.retainedAfter.trans journals.retained
  events := same.events.trans journals.events
  index := by
    rw [same.eventIndex]
    exact journals.index

variable {event : PreparedEvent}

/-- A journalled event is appended to the log. -/
theorem entry (journals : Journals store log)
    (fresh : store.eventIndex.get? (toLex (event.sourceRuntime, event.eventId)) = none) :
    Journals (journal store event) (log.append [{
      cursor := store.nextCursor + 1
      sourceRuntime := event.sourceRuntime
      eventId := event.eventId
      envelope := event.envelope
      receivedAt := event.receivedAt }]) where
  numbered := journals.numbered.append (by rw [journals.head])
  head := by simp [journal, journals.head]
  retained := journals.retained
  events := by
    simp only [journal, journals.events, RetainedLog.kept, RetainedLog.append_entries,
      RetainedLog.append_retained]
    rw [List.drop_append_of_le_length log.bound]
  index source id cursor := by
    simp only [journal, Table.get?_insert, RetainedLog.append_entries, List.mem_append,
      List.mem_singleton]
    split
    next here =>
      have keys := Prod.ext_iff.mp (congrArg ofLex here)
      simp only [ofLex_toLex] at keys
      obtain ⟨rfl, rfl⟩ := keys
      simp only [Option.some.injEq, Prod.mk.injEq, true_and]
      constructor
      · rintro rfl
        exact ⟨_, .inr rfl, rfl, rfl, rfl⟩
      · rintro ⟨entry, member | rfl, source, id, number⟩
        · have known := (journals.index _ _ cursor).mpr ⟨entry, member, source, id, number⟩
          rw [fresh] at known
          cases known
        · exact number
    rename_i other
    rw [journals.index]
    constructor
    · rintro ⟨entry, member, rest⟩
      exact ⟨entry, .inl member, rest⟩
    · rintro ⟨entry, member | rfl, rest⟩
      · exact ⟨entry, member, rest⟩
      · obtain ⟨rfl, rfl, _⟩ := rest
        exact absurd rfl other

theorem admit_ (journals : Journals store log) {event : PreparedEvent} {outcome : AdmitOutcome}
    (result : Memory.admit_ store event = some (next, outcome)) :
    ∃ added, Journals next (log.append added) := by
  rcases admit_changes result with ⟨rfl, _⟩ | ⟨fresh, _, _, changes⟩
  · exact ⟨[], by rwa [RetainedLog.append_nil]⟩
  · exact ⟨_, (journals.entry fresh).same (SameJournal.changes changes)⟩

theorem admitsAll_true (state : MemoryState) (events : List PreparedEvent) :
    AdmitsAll (fun _ _ => True) state events := by
  induction events generalizing state with
  | nil => trivial
  | cons event rest ih => exact ⟨trivial, fun next _ _ => ih next⟩

theorem admitAll (journals : Journals store log) {events : List PreparedEvent}
    (result : Memory.admitAll store events = some next) :
    ∃ added, Journals next (log.append added) := by
  let Extended (state : MemoryState) : Prop := ∃ added, Journals state (log.append added)
  have start : Extended store := ⟨[], by rwa [RetainedLog.append_nil]⟩
  have event : ∀ {before after : MemoryState} {event : PreparedEvent} {outcome : AdmitOutcome},
      True → Memory.admit_ before event = some (after, outcome) → Extended before →
        Extended after := by
    rintro before after event outcome - admitted ⟨added, reached⟩
    obtain ⟨more, extended⟩ := reached.admit_ admitted
    exact ⟨added ++ more, by rwa [← RetainedLog.append_append]⟩
  exact admitAll_induction result (admitsAll_true store events) start event

theorem commitRun (journals : Journals store log) {claim : Claim}
    {emitted : List PreparedEvent} {reply : Except RuntimeError Claim}
    (result : Memory.commitRun store claim emitted = some (next, reply)) :
    ∃ added, Journals next (log.append added) := by
  cases reply with
  | error error =>
    rw [(commitRun_refused result).1]
    exact ⟨[], by rwa [RetainedLog.append_nil]⟩
  | ok reply =>
    obtain ⟨entry, stored, admitted, commit⟩ := commitRun_committed result
    have installed : Journals (installRun store claim.run) log := journals.same ⟨rfl, rfl, rfl, rfl⟩
    obtain ⟨added, reached⟩ := installed.admitAll commit.emits
    refine ⟨added, ?_⟩
    rw [commit.next_eq]
    unfold releaseTerminal
    split
    next => exact reached.same ⟨rfl, rfl, rfl, rfl⟩
    next => exact reached

theorem fireTimer (journals : Journals store log) {claim : TimerClaim} {fired : TimerRecord}
    {reply : Except RuntimeError AdmitOutcome}
    (result : Memory.fireTimer store claim fired event = some (next, reply)) :
    ∃ added, Journals next (log.append added) := by
  rcases fireTimer_cases result with ⟨rfl, _⟩ | ⟨_, _, _, _, _, _, _, _, fires⟩
  · exact ⟨[], by rwa [RetainedLog.append_nil]⟩
  · have stored : Journals { store with
        timers := store.timers.insert fired
        timerLeases := store.timerLeases.erase claim.timer.id } log :=
      journals.same ⟨rfl, rfl, rfl, rfl⟩
    exact stored.admit_ fires

theorem prune (journals : Journals store log) (cursor : Nat) :
    Journals (pruneEventsThrough store cursor).1 (log.prune cursor) where
  numbered := journals.numbered
  head := journals.head
  retained := by
    simp only [pruneEventsThrough, RetainedLog.prune_retained, journals.head, journals.retained]
  events := by
    simp only [pruneEventsThrough, RetainedLog.kept, RetainedLog.prune_entries,
      RetainedLog.prune_retained, journals.head, journals.retained, journals.events]
    exact journals.numbered.filter_gt (le_max_right _ _)
  index := journals.index

/-- Every operation only appends to the log, and prunes what was logged before it. -/
theorem operation (journals : Journals store log) {operation : Operation}
    (runs : operation.run store = some next) :
    ∃ later, Journals next later ∧ log.entries <+: later.entries ∧
      later.retained ≤ log.entries.length := by
  have appended : (∃ added, Journals next (log.append added)) →
      ∃ later, Journals next later ∧ log.entries <+: later.entries ∧
        later.retained ≤ log.entries.length := by
    rintro ⟨added, reached⟩
    exact ⟨log.append added, reached, List.prefix_append _ _, log.bound⟩
  have unchanged : SameJournal store next → ∃ later, Journals next later ∧
      log.entries <+: later.entries ∧ later.retained ≤ log.entries.length :=
    fun same => ⟨log, journals.same same, List.prefix_rfl, log.bound⟩
  cases operation with
  | admitEvent event =>
    obtain ⟨⟨reached, outcome⟩, result, rfl⟩ := Option.map_eq_some_iff.mp runs
    exact appended (journals.admit_ result)
  | claimRun executor worker now leaseFor token =>
    obtain ⟨⟨reached, reply⟩, result, rfl⟩ := Option.map_eq_some_iff.mp runs
    exact unchanged (SameJournal.claimRun result)
  | commitRun claim emitted =>
    obtain ⟨⟨reached, reply⟩, result, rfl⟩ := Option.map_eq_some_iff.mp runs
    exact appended (journals.commitRun result)
  | requestCancel id now => cases runs; exact unchanged (.requestCancel store id now)
  | upsertTimer timer => cases runs; exact unchanged (.upsertTimer store timer)
  | reconcileTimerExact desired now =>
    cases runs
    exact unchanged (.reconcileTimerExact store desired now)
  | reconcileTimers idPrefix desired now =>
    cases runs
    exact unchanged (.reconcileTimers store idPrefix desired now)
  | cancelTimer id generation now =>
    cases runs
    exact unchanged (.cancelTimer store id generation now)
  | claimDueTimer worker now leaseFor token =>
    obtain ⟨⟨reached, reply⟩, result, rfl⟩ := Option.map_eq_some_iff.mp runs
    exact unchanged (SameJournal.claimDueTimer result)
  | fireTimer claim fired event =>
    obtain ⟨⟨reached, reply⟩, result, rfl⟩ := Option.map_eq_some_iff.mp runs
    exact appended (journals.fireTimer result)
  | pruneEventsThrough cursor =>
    cases runs
    exact ⟨log.prune cursor, journals.prune cursor, List.prefix_rfl, (log.prune cursor).bound⟩

theorem eventsAfter (journals : Journals store log) (after limit : Nat) :
    (Memory.eventsAfter store after limit).resetRequired = decide (after < log.retained) ∧
    (after < log.retained → (Memory.eventsAfter store after limit).events = []) ∧
    (log.retained ≤ after → (Memory.eventsAfter store after limit).events =
      (log.entries.drop after).take (pageLimit limit)) := by
  refine ⟨by simp [Memory.eventsAfter, journals.retained], fun behind => ?_, fun within => ?_⟩
  · simp [Memory.eventsAfter, journals.retained, behind]
  · have selected : store.events.filter (fun event => event.cursor > after) =
        log.entries.drop after := by
      rw [journals.events]
      exact journals.numbered.filter_gt within
    simp only [Memory.eventsAfter, journals.retained, selected]
    rw [if_neg (by simpa using within), List.take_take, min_eq_left (Nat.le_succ _)]

theorem admit_known (journals : Journals store log) {entry : EventJournalEntry}
    (known : entry ∈ log.entries)
    (source : event.sourceRuntime = entry.sourceRuntime) (id : event.eventId = entry.eventId) :
    Memory.admit_ store event = some (store, {
      cursor := entry.cursor
      duplicate := true
      admittedRunIds := []
      skippedRunIds := []
      cancellationRequestedRunIds := [] }) := by
  have indexed := (journals.index event.sourceRuntime event.eventId entry.cursor).mpr
    ⟨entry, known, source.symm, id.symm, rfl⟩
  simp only [Memory.admit_, indexed]

theorem entries_eq (journals : Journals store log) {later : RetainedLog EventJournalEntry}
    (laterJournals : Journals next later) (grows : log.entries <+: later.entries)
    (bound : later.retained ≤ log.entries.length) :
    later.entries = log.entries ++
      next.events.filter (fun entry => entry.cursor > store.nextCursor) := by
  obtain ⟨added, whole⟩ := grows
  have behind : next.events.filter (fun entry => entry.cursor > store.nextCursor) =
      later.entries.drop log.entries.length := by
    rw [laterJournals.events, journals.head]
    exact laterJournals.numbered.filter_gt bound
  rw [behind, ← whole, List.drop_left]

end Journals

/-- A store, every entry it ever journalled, and a consumer with the position it
reads from next and all it has received. -/
structure Consuming where
  store : MemoryState
  journalled : List EventJournalEntry
  after : Nat
  received : List EventJournalEntry

/-- A consumer that starts to read behind a cursor of a new store. -/
def Consuming.initial (start : Nat) : Consuming where
  store := .new
  journalled := []
  after := start
  received := []

/-- An operation of the store, or the consumer reads a page. -/
inductive Action where
  | operate (operation : Operation)
  | read (limit : Nat)

/-- One step. The consumer stops when a page requires a reset, and otherwise
continues behind the last cursor it received. -/
def Consuming.act (sys : Consuming) : Action → Option Consuming
  | .operate operation =>
    (operation.run sys.store).map fun next => { sys with
      store := next
      journalled := sys.journalled ++
        next.events.filter fun entry => entry.cursor > sys.store.nextCursor }
  | .read limit =>
    let page := eventsAfter sys.store sys.after limit
    if page.resetRequired then none
    else some { sys with
      after := (page.events.getLast?.map EventJournalEntry.cursor).getD sys.after
      received := sys.received ++ page.events }

/-- The journal of the store is the log of all entries, and the consumer follows
it. -/
structure Consuming.Sound (start : Nat) (sys : Consuming)
    (log : RetainedLog EventJournalEntry) : Prop where
  entries : log.entries = sys.journalled
  journals : Journals sys.store log
  follows : RetainedLog.Reader.Follows ⟨start, sys.received⟩ log
  after : sys.after = start + sys.received.length

namespace Consuming.Sound

variable {start : Nat} {sys next : Consuming} {log : RetainedLog EventJournalEntry}

theorem operate (sound : sys.Sound start log) {operation : Operation} {store : MemoryState}
    (runs : operation.run sys.store = some store) :
    ∃ later, Sound start { sys with
      store := store
      journalled := sys.journalled ++
        store.events.filter fun entry => entry.cursor > sys.store.nextCursor } later := by
  obtain ⟨later, journals, grows, bound⟩ := sound.journals.operation runs
  refine ⟨later, ?_, journals, sound.follows.grow grows, sound.after⟩
  rw [sound.journals.entries_eq journals grows bound, sound.entries]

theorem page (sound : sys.Sound start log) {limit : Nat}
    (answered : (eventsAfter sys.store sys.after limit).resetRequired = false) :
    log.page sys.after (pageLimit limit) = some (eventsAfter sys.store sys.after limit).events := by
  obtain ⟨reset, _, events⟩ := sound.journals.eventsAfter sys.after limit
  have within : ¬ sys.after < log.retained := by simpa [reset] using answered
  rw [RetainedLog.page, if_neg within, events (not_lt.mp within)]

theorem read (sound : sys.Sound start log) {limit : Nat}
    (answered : (eventsAfter sys.store sys.after limit).resetRequired = false) :
    Sound start { sys with
      after := ((eventsAfter sys.store sys.after limit).events.getLast?.map
        EventJournalEntry.cursor).getD sys.after
      received := sys.received ++ (eventsAfter sys.store sys.after limit).events } log := by
  have page := sound.page answered
  generalize (eventsAfter sys.store sys.after limit).events = events at page
  have before := sound.journals.numbered.position_eq sound.follows
  have position : sys.after = RetainedLog.Reader.position ⟨start, sys.received⟩ := sound.after
  rw [position] at page
  have follows := sound.follows.read page
  have behind := sound.journals.numbered.position_eq follows
  refine ⟨sound.entries, sound.journals, follows, ?_⟩
  dsimp only at before behind ⊢
  rw [position, before, ← RetainedLog.Reader.position.eq_1 ⟨start, sys.received ++ events⟩, behind,
    List.getLast?_append]
  cases events.getLast? <;> rfl

variable {entry : EventJournalEntry}

theorem unreceived_iff (sound : sys.Sound start log) (known : entry ∈ sys.journalled) :
    entry.cursor > start ∧ entry ∉ sys.received ↔ sys.after < entry.cursor := by
  rw [← sound.entries] at known
  obtain ⟨rest, whole⟩ := sound.follows
  dsimp only at whole
  have behind : log.entries.drop sys.after = rest := by
    rw [sound.after, ← List.drop_drop, ← whole, List.drop_left]
  rw [gt_iff_lt, ← sound.journals.numbered.mem_drop_iff known,
    ← sound.journals.numbered.mem_drop_iff known, behind, ← whole, List.mem_append]
  constructor
  · rintro ⟨received | unread, missing⟩
    · exact absurd received missing
    · exact unread
  · intro unread
    refine ⟨.inr unread, fun received => ?_⟩
    have late := (sound.journals.numbered.mem_drop_iff known).mp (behind ▸ unread)
    have numbers : sys.received.map EventJournalEntry.cursor =
        List.range' (start + 1) sys.received.length :=
      sound.journals.numbered.map_received sound.follows
    have member : entry.cursor ∈ sys.received.map EventJournalEntry.cursor :=
      List.mem_map_of_mem received
    rw [numbers, List.mem_range'_1] at member
    have after := sound.after
    omega

theorem pruned_iff (sound : sys.Sound start log)
    (known : entry ∈ sys.journalled) : entry ∉ sys.store.events ↔ entry.cursor ≤ log.retained := by
  rw [← sound.entries] at known
  rw [sound.journals.events, RetainedLog.kept, sound.journals.numbered.mem_drop_iff known, not_lt]

/-- A reset is required exactly when an entry was pruned that the consumer has
not received. -/
theorem reset_iff (sound : sys.Sound start log) (limit : Nat) :
    (eventsAfter sys.store sys.after limit).resetRequired = true ↔
      ∃ entry ∈ sys.journalled, entry.cursor > start ∧ entry ∉ sys.received ∧
        entry ∉ sys.store.events := by
  rw [(sound.journals.eventsAfter sys.after limit).1, decide_eq_true_eq]
  constructor
  · intro behind
    have inside : sys.after < log.entries.length := behind.trans_le log.bound
    obtain ⟨entry, found⟩ : ∃ entry, log.entries[sys.after]? = some entry :=
      ⟨_, List.getElem?_eq_getElem inside⟩
    have number := sound.journals.numbered sys.after entry found
    have member : entry ∈ sys.journalled := sound.entries ▸ List.mem_of_getElem? found
    refine ⟨entry, member, ?_⟩
    rw [← and_assoc, sound.unreceived_iff member, sound.pruned_iff member, number]
    omega
  · rintro ⟨entry, known, late, missing, gone⟩
    have unread := (sound.unreceived_iff known).mp ⟨late, missing⟩
    have forgotten := (sound.pruned_iff known).mp gone
    omega

theorem act (sound : sys.Sound start log) {action : Action}
    (acts : sys.act action = some next) : ∃ later, next.Sound start later := by
  cases action with
  | operate operation =>
    obtain ⟨store, runs, rfl⟩ := Option.map_eq_some_iff.mp acts
    exact sound.operate runs
  | read limit =>
    simp only [Consuming.act] at acts
    split at acts
    next => cases acts
    next answered =>
      cases acts
      exact ⟨log, sound.read (by simpa using answered)⟩

theorem initial (start : Nat) : (Consuming.initial start).Sound start .empty :=
  ⟨rfl, Journals.new, List.nil_prefix, rfl⟩

theorem actions {actions : List Action} (sound : sys.Sound start log)
    (ran : actions.foldlM Consuming.act sys = some next) : ∃ later, next.Sound start later := by
  induction actions generalizing sys log with
  | nil =>
    obtain rfl : sys = next := by simpa using ran
    exact ⟨log, sound⟩
  | cons action rest ih =>
    obtain ⟨middle, first, later⟩ : ∃ middle, sys.act action = some middle ∧
        rest.foldlM Consuming.act middle = some next := by
      simpa [List.foldlM_cons, Option.bind_eq_some_iff] using ran
    obtain ⟨log, sound⟩ := sound.act first
    exact ih sound later

end Consuming.Sound

/-- In every interleaving of the operations of the store with a consumer that
starts behind a cursor and reads pages of any size until one requires a reset:
the entries are journalled under consecutive cursors, the consumer has received
exactly those with the cursors behind its start, in order and once each; the
next page continues there, and requires a reset exactly when an entry that the
consumer has not received was pruned; and an event that was journalled before is
answered with its first cursor and changes nothing. -/
theorem consumption_is_gap_free {start : Nat} {actions : List Action} {sys : Consuming}
    (ran : actions.foldlM Consuming.act (.initial start) = some sys) :
    sys.journalled.map EventJournalEntry.cursor = List.range' 1 sys.journalled.length ∧
    (sys.received.map EventJournalEntry.cursor = List.range' (start + 1) sys.received.length ∧
      ∀ entry ∈ sys.received, entry ∈ sys.journalled) ∧
    (∀ limit, (eventsAfter sys.store sys.after limit).resetRequired = true ↔
      ∃ entry ∈ sys.journalled, entry.cursor > start ∧ entry ∉ sys.received ∧
        entry ∉ sys.store.events) ∧
    (∀ limit, (eventsAfter sys.store sys.after limit).resetRequired = false →
      (eventsAfter sys.store sys.after limit).events =
        (sys.journalled.filter fun entry => entry.cursor > start + sys.received.length).take
          (pageLimit limit)) ∧
    ∀ entry ∈ sys.journalled, ∀ event : PreparedEvent,
      event.sourceRuntime = entry.sourceRuntime → event.eventId = entry.eventId →
      admit_ sys.store event = some (sys.store, {
        cursor := entry.cursor
        duplicate := true
        admittedRunIds := []
        skippedRunIds := []
        cancellationRequestedRunIds := [] }) := by
  obtain ⟨log, sound⟩ := (Consuming.Sound.initial start).actions ran
  have numbered := sound.journals.numbered
  refine ⟨?_, ⟨?_, ?_⟩, sound.reset_iff, ?_, ?_⟩
  · have whole : RetainedLog.Reader.Follows ⟨0, log.entries⟩ log := List.prefix_rfl
    simpa [sound.entries] using numbered.map_received whole
  · exact numbered.map_received sound.follows
  · intro entry received
    rw [← sound.entries]
    exact List.mem_of_mem_drop (sound.follows.subset received)
  · intro limit answered
    have page := sound.page answered
    rw [RetainedLog.page] at page
    split at page
    next => cases page
    rw [← Option.some.inj page, sound.after, ← sound.entries,
      ← numbered.filter_gt (Nat.zero_le _), List.drop_zero]
  · intro entry known event source id
    rw [← sound.entries] at known
    exact sound.journals.admit_known known source id

/-- A consumer reads two events one by one; the first is pruned in between. -/
theorem consumption_is_gap_free_around_prune :
    ∃ sys, [Action.operate (.admitEvent (sampleEvent "e1" 0 [])),
        .operate (.admitEvent (sampleEvent "e2" 0 [])), .read 1,
        .operate (.pruneEventsThrough 1), .read 1].foldlM Consuming.act (.initial 0) = some sys ∧
      sys.received.map EventJournalEntry.cursor = [1, 2] ∧
      (eventsAfter sys.store sys.after 1).resetRequired = false := by
  obtain ⟨sys, ran, two, journalled⟩ : ∃ sys,
      [Action.operate (.admitEvent (sampleEvent "e1" 0 [])),
        .operate (.admitEvent (sampleEvent "e2" 0 [])), .read 1,
        .operate (.pruneEventsThrough 1), .read 1].foldlM Consuming.act (.initial 0) = some sys ∧
      sys.received.length = 2 ∧ sys.journalled.all (fun entry => entry ∈ sys.received) = true := by
    refine ⟨_, (Option.some_get (by decide)).symm, ?_⟩
    decide
  obtain ⟨_, ⟨received, _⟩, reset, _⟩ := consumption_is_gap_free ran
  refine ⟨sys, ran, by rw [received, two]; rfl, ?_⟩
  rw [Bool.eq_false_iff, ne_eq, reset]
  rintro ⟨entry, known, _, missing, _⟩
  exact missing (by simpa using List.all_eq_true.mp journalled entry known)

end Mdbase.Runtime
