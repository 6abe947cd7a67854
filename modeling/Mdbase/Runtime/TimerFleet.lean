import Mdbase.Library.Fallible
import Mdbase.Runtime.Operations
import Mdbase.Runtime.Replay

/-!
# Workers sharing the timers of one store

The six timer calls in any interleaving, by any number of workers. A worker
fires a timer with a claim it was handed, possibly long ago, as `fire_due_timer`
does: the claimed record marked as fired and an event whose id is derived from
the timer id and generation.

`Evolves` says what a call does to one timer id; a claim and a firing are the
only other changes. A generation that was fired, withdrawn or followed by a newer
one is retired, and stays so.
-/

namespace Mdbase.Runtime

open Library Memory

/-- The text that identifies one generation of a timer. -/
def timerText (id : String) (generation : Nat) : String :=
  "timer:" ++ id ++ ":" ++ toString generation

/-- The id of the event of one generation of a timer. -/
def timerEventId (sha256 : String → String) (id : String) (generation : Nat) : String :=
  stableId sha256 "evt" (timerText id generation)

/-- The record that `fire_due_timer` stores. -/
def firedTimer (timer : TimerRecord) (now : DateTime) : TimerRecord :=
  { timer with status := .fired, updatedAt := now, firedAt := some now }

/-- The schedule of a timer: what `timer_matches` compares. -/
def TimerRecord.schedule (timer : TimerRecord) :
    DateTime × ExactContractReference × ImplementationIdentity × String × Option String × Value :=
  (timer.fireAt, timer.eventContract, timer.eventSource, timer.sourceUri, timer.subject, timer.data)

/-- A store, the timer claims it handed out, and the generations fired so far. -/
structure TimerFleet where
  store : MemoryState
  issued : List TimerClaim
  fired : List (String × Nat)

def TimerFleet.initial : TimerFleet := ⟨.new, [], []⟩

inductive TimerCall where
  | upsertTimer (timer : TimerRecord)
  | reconcileTimerExact (desired : TimerRecord) (now : DateTime)
  | reconcileTimers (idPrefix : String) (desired : List TimerRecord) (now : DateTime)
  | cancelTimer (id : String) (generation : Option Nat) (now : DateTime)
  | claimDueTimer (worker : String) (now : DateTime) (leaseFor : Duration) (token : String)
  | fireTimer (claim : TimerClaim) (now : DateTime) (event : PreparedEvent)

/-- One call. A worker fires with a claim that was handed out and the event of
its generation; a panic has no successor. -/
def TimerFleet.act (sha256 : String → String) (sys : TimerFleet) : TimerCall → Option TimerFleet
  | .upsertTimer timer => some { sys with store := (upsertTimer sys.store timer).1 }
  | .reconcileTimerExact desired now =>
    some { sys with store := (reconcileTimerExact sys.store desired now).1 }
  | .reconcileTimers idPrefix desired now =>
    some { sys with store := (reconcileTimers sys.store idPrefix desired now).1 }
  | .cancelTimer id generation now =>
    some { sys with store := (cancelTimer sys.store id generation now).1 }
  | .claimDueTimer worker now leaseFor token =>
    match claimDueTimer sys.store worker now leaseFor token with
    | none => none
    | some (store, .ok (some claim)) =>
      some { sys with store := store, issued := claim :: sys.issued }
    | some (store, _) => some { sys with store := store }
  | .fireTimer claim now event =>
    if claim ∈ sys.issued ∧ event.sourceRuntime = claim.timer.sourceUri ∧
        event.eventId = timerEventId sha256 claim.timer.id claim.timer.generation then
      match fireTimer sys.store claim (firedTimer claim.timer now) event with
      | none => none
      | some (store, .ok _) => some { sys with
          store := store
          fired := sys.fired ++ [(claim.timer.id, claim.timer.generation)] }
      | some (store, .error _) => some { sys with store := store }
    else none

/-- The record that withdrawing a timer leaves. -/
def withdrawnTimer (now : DateTime) (timer : TimerRecord) : TimerRecord :=
  { timer with status := .cancelled, updatedAt := now }

theorem withdrawTimer_timers_get? (now : DateTime) (store : MemoryState) (withdrawn id : String) :
    (withdrawTimer now store withdrawn).timers.get? id =
      if id = withdrawn then (store.timers.get? id).map (withdrawnTimer now)
      else store.timers.get? id := by
  have inPlace : ∀ timer, (withdrawnTimer now timer).id = timer.id := fun _ => rfl
  exact Table.get?_modify store.timers inPlace id

theorem withdrawAll_timers_get? (now : DateTime) (ids : List String) (store : MemoryState)
    (id : String) :
    (ids.foldl (withdrawTimer now) store).timers.get? id =
      if id ∈ ids then (store.timers.get? id).map (withdrawnTimer now)
      else store.timers.get? id := by
  induction ids generalizing store with
  | nil => simp
  | cons head rest ih =>
    rw [List.foldl_cons, ih, withdrawTimer_timers_get?]
    by_cases here : id = head
    · subst here
      cases store.timers.get? id <;> simp [withdrawnTimer]
    · simp [here]

theorem withdrawAll_timerLeases_get? (now : DateTime) (ids : List String) (store : MemoryState)
    (id : String) :
    (ids.foldl (withdrawTimer now) store).timerLeases.get? id =
      if id ∈ ids then none else store.timerLeases.get? id := by
  induction ids generalizing store with
  | nil => simp
  | cons head rest ih =>
    rw [List.foldl_cons, ih]
    by_cases here : id = head
    · simp [withdrawTimer, here]
    · simp [withdrawTimer, here, Table.get?_erase]

/-- The generation stored for an id, zero before the first. -/
def generationOf (store : MemoryState) (id : String) : Nat :=
  ((store.timers.get? id).map TimerRecord.generation).getD 0

/-- What every call but a claim and a firing does to one timer id. -/
inductive Evolves (store next : MemoryState) (id : String) : Prop where
  | same (timer : next.timers.get? id = store.timers.get? id)
      (lease : ∀ entry, next.timerLeases.get? id = some entry →
        store.timerLeases.get? id = some entry)
  | scheduled {timer : TimerRecord} (stored : next.timers.get? id = some timer)
      (generation : timer.generation = generationOf store id + 1)
      (status : timer.status = .scheduled) (lease : next.timerLeases.get? id = none)
  | withdrawn {timer : TimerRecord} (now : DateTime) (before : store.timers.get? id = some timer)
      (active : timer.status.active = true)
      (stored : next.timers.get? id = some (withdrawnTimer now timer))
      (lease : next.timerLeases.get? id = none)

namespace Evolves

variable {store : MemoryState}

theorem refl (store : MemoryState) (id : String) : Evolves store store id :=
  .same rfl fun _ found => found

theorem scheduleTimer {timer : TimerRecord}
    (generation : timer.generation = generationOf store timer.id + 1)
    (status : timer.status = .scheduled) (id : String) :
    Evolves store (Memory.scheduleTimer store timer) id := by
  by_cases here : id = timer.id
  · subst here
    exact .scheduled (by simp [Memory.scheduleTimer]) generation status
      (by simp [Memory.scheduleTimer])
  · refine .same ?_ fun entry found => ?_
    · simp [Memory.scheduleTimer, Table.get?_insert, here]
    · simpa [Memory.scheduleTimer, Table.get?_erase, here] using found

variable {now : DateTime} {desired timer : TimerRecord}

theorem nextGeneration {current : Option TimerRecord}
    (planned : nextTimerGeneration current desired now = .ok timer) :
    timer.id = desired.id ∧ timer.status = .scheduled ∧
      timer.generation = (current.map TimerRecord.generation).getD 0 + 1 := by
  unfold nextTimerGeneration nextTimerGenerationValue at planned
  dsimp only at planned
  split at planned
  next => cases planned
  rename_i generation found
  cases planned
  split at found
  next => cases found
  cases found
  exact ⟨rfl, rfl, rfl⟩

theorem upsertTimer (timer : TimerRecord) (id : String) :
    Evolves store (Memory.upsertTimer store timer).1 id := by
  unfold Memory.upsertTimer
  split
  next => exact refl store id
  rename_i generation found
  unfold nextTimerGenerationValue at found
  dsimp only at found
  split at found
  next => cases found
  cases found
  exact scheduleTimer rfl rfl id

theorem planTimer {schedules : Bool}
    (planned : Memory.planTimer store now desired = .ok (timer, schedules)) :
    timer.id = desired.id ∧ (schedules = true → timer.status = .scheduled ∧
      timer.generation = generationOf store desired.id + 1) := by
  have renewed {current : Option TimerRecord} (found : store.timers.get? desired.id = current)
      (planned : (nextTimerGeneration current desired now).map (·, true) = .ok (timer, schedules)) :
      timer.id = desired.id ∧ (schedules = true → timer.status = .scheduled ∧
        timer.generation = generationOf store desired.id + 1) := by
    cases next : nextTimerGeneration current desired now with
    | error error => simp [next, Except.map] at planned
    | ok result =>
      simp only [next, Except.map, Except.ok.injEq, Prod.mk.injEq] at planned
      obtain ⟨rfl, rfl⟩ := planned
      obtain ⟨same, status, generation⟩ := nextGeneration next
      exact ⟨same, fun _ => ⟨status, by simpa [generationOf, found] using generation⟩⟩
  unfold Memory.planTimer at planned
  split at planned
  next current found =>
    split at planned
    next =>
      cases planned
      exact ⟨Table.key_of_get? found, by simp⟩
    next => exact renewed found planned
  next found => exact renewed found planned

theorem reconcileTimerExact (desired : TimerRecord) (now : DateTime) (id : String) :
    Evolves store (Memory.reconcileTimerExact store desired now).1 id := by
  unfold Memory.reconcileTimerExact
  split
  next => exact refl store id
  next => exact refl store id
  rename_i timer planned
  obtain ⟨same, schedules⟩ := planTimer planned
  obtain ⟨status, generation⟩ := schedules rfl
  exact scheduleTimer (by rw [same]; exact generation) status id

theorem withdrawTimer {timer : TimerRecord} {withdrawn : String}
    (found : store.timers.get? withdrawn = some timer) (active : timer.status.active = true)
    (id : String) : Evolves store (Memory.withdrawTimer now store withdrawn) id := by
  by_cases here : id = withdrawn
  · subst here
    refine .withdrawn now found active ?_ (by simp [Memory.withdrawTimer])
    simp [withdrawTimer_timers_get?, found]
  · refine .same ?_ fun entry found => ?_
    · simp [withdrawTimer_timers_get?, here]
    · simpa [Memory.withdrawTimer, Table.get?_erase, here] using found

theorem cancelTimer (cancelled : String) (generation : Option Nat) (now : DateTime)
    (id : String) : Evolves store (Memory.cancelTimer store cancelled generation now).1 id := by
  unfold Memory.cancelTimer
  split
  next => exact refl store id
  rename_i timer found
  split
  next => exact refl store id
  next accepted =>
    simp only [Bool.not_eq_eq_eq_not, Bool.not_true, not_or, Bool.not_eq_false] at accepted
    exact withdrawTimer found accepted.2 id

/-- What the planned timers of a reconciliation do to one id, whichever of them
come first: the generation was computed before the first change. -/
theorem applyPlanned {original : MemoryState} (planned : List (TimerRecord × Bool))
    (plans : ∀ entry ∈ planned, entry.2 = true → entry.1.status = .scheduled ∧
      entry.1.generation = generationOf original entry.1.id + 1)
    (state : MemoryState) (id : String) :
    ((planned.foldl applyPlannedTimer state).timers.get? id = state.timers.get? id ∧
      (planned.foldl applyPlannedTimer state).timerLeases.get? id = state.timerLeases.get? id) ∨
    ∃ timer, (planned.foldl applyPlannedTimer state).timers.get? id = some timer ∧
      timer.generation = generationOf original id + 1 ∧ timer.status = .scheduled ∧
      (planned.foldl applyPlannedTimer state).timerLeases.get? id = none := by
  induction planned generalizing state with
  | nil => exact .inl ⟨rfl, rfl⟩
  | cons head rest ih =>
    have later := ih (fun entry member => plans entry (List.mem_cons_of_mem _ member))
      (applyPlannedTimer state head)
    rw [List.foldl_cons]
    rcases later with ⟨timer, lease⟩ | scheduled
    · rw [timer, lease]
      by_cases schedules : head.2 = true
      · obtain ⟨status, generation⟩ := plans head List.mem_cons_self schedules
        simp only [applyPlannedTimer, schedules, if_true, Memory.scheduleTimer]
        by_cases here : id = head.1.id
        · subst here
          exact .inr ⟨head.1, by simp, generation, status, by simp⟩
        · exact .inl ⟨by simp [Table.get?_insert, here], by simp [Table.get?_erase, here]⟩
      · simp [applyPlannedTimer, schedules]
    · exact .inr scheduled

theorem mapM_planTimer {desired : List TimerRecord} {planned : List (TimerRecord × Bool)}
    (all : desired.mapM (Memory.planTimer store now) = .ok planned) :
    ∀ entry ∈ planned, entry.1.id ∈ desired.map TimerRecord.id ∧
      (entry.2 = true → entry.1.status = .scheduled ∧
        entry.1.generation = generationOf store entry.1.id + 1) := by
  intro entry member
  obtain ⟨record, listed, plan⟩ := exists_item_of_mapM_ok all member
  obtain ⟨same, schedules⟩ := planTimer plan
  rw [same]
  exact ⟨List.mem_map_of_mem listed, schedules⟩

theorem reconcileTimers (idPrefix : String) (desired : List TimerRecord) (now : DateTime)
    (id : String) : Evolves store (Memory.reconcileTimers store idPrefix desired now).1 id := by
  unfold Memory.reconcileTimers
  split
  next => exact refl store id
  rename_i planned all
  dsimp only
  have plans := mapM_planTimer all
  have timers := withdrawAll_timers_get? now
    (omittedTimers store idPrefix (desired.map TimerRecord.id)) store id
  have leases := withdrawAll_timerLeases_get? now
    (omittedTimers store idPrefix (desired.map TimerRecord.id)) store id
  rcases applyPlanned planned (fun entry member => (plans entry member).2)
    ((omittedTimers store idPrefix (desired.map TimerRecord.id)).foldl
      (Memory.withdrawTimer now) store) id with ⟨timer, lease⟩ |
        ⟨timer, stored, generation, status, lease⟩
  · rw [timers] at timer
    rw [leases] at lease
    split at timer
    next omitted =>
      rw [if_pos omitted] at lease
      obtain ⟨old, member, rfl⟩ := List.mem_map.mp omitted
      obtain ⟨stored, selected⟩ := List.mem_filter.mp member
      have active : old.status.active = true := by
        simp only [decide_eq_true_eq] at selected
        exact selected.2.2
      have found : store.timers.get? old.id = some old := Table.get?_key stored
      exact .withdrawn now found active (by rw [timer, found]; rfl) lease
    next kept =>
      rw [if_neg kept] at lease
      exact .same timer fun entry found => by rwa [lease] at found
  · exact .scheduled stored generation status lease

theorem releaseExpiredTimers (now : DateTime) (id : String) :
    Evolves store (Memory.releaseExpiredTimers store now) id := by
  refine .same rfl fun entry found => ?_
  simp only [Memory.releaseExpiredTimers, Table.get?_filter] at found
  exact (Option.filter_eq_some_iff.mp found).1

end Evolves

variable {store next : MemoryState}

theorem admit_timers {event : PreparedEvent} {outcome : AdmitOutcome}
    (result : admit_ store event = some (next, outcome)) :
    next.timers = store.timers ∧ next.timerLeases = store.timerLeases ∧
      (next.events = store.events ∨
        ∃ entry, next.events = store.events ++ [entry] ∧ entry.eventId = event.eventId) := by
  have timers : ∀ {cursor : Nat} {state next : MemoryState}, Changes event cursor state next →
      next.timers = state.timers ∧ next.timerLeases = state.timerLeases := by
    intro cursor state next changes
    induction changes with
    | refl => exact ⟨rfl, rfl⟩
    | tail _ last ih => exact ⟨last.timers.1.trans ih.1, last.timers.2.trans ih.2⟩
  rcases admit_changes result with ⟨rfl, _⟩ | ⟨_, _, _, changes⟩
  · exact ⟨rfl, rfl, .inl rfl⟩
  · refine ⟨(timers changes).1, (timers changes).2, .inr ⟨_, (SameJournal.changes changes).events, rfl⟩⟩

/-- A generation of a timer is over: a newer one is stored, or it is stored as
fired or cancelled. -/
def Retired (store : MemoryState) (id : String) (generation : Nat) : Prop :=
  ∃ timer, store.timers.get? id = some timer ∧
    (generation < timer.generation ∨ (timer.generation = generation ∧ timer.status.active = false))

variable {id : String}

theorem Retired.evolves {generation : Nat}
    (retired : Retired store id generation) (evolves : Evolves store next id) :
    Retired next id generation := by
  obtain ⟨timer, stored, past⟩ := retired
  cases evolves with
  | same timerSame _ => exact ⟨timer, timerSame.trans stored, past⟩
  | @scheduled later laterStored later_eq _ _ =>
    refine ⟨later, laterStored, .inl ?_⟩
    simp only [generationOf, stored, Option.map_some, Option.getD_some] at later_eq
    rcases past with newer | ⟨same, _⟩ <;> omega
  | @withdrawn old now before active laterStored _ =>
    obtain rfl : old = timer := Option.some.inj (before.symm.trans stored)
    refine ⟨_, laterStored, ?_⟩
    rcases past with newer | ⟨same, inactive⟩
    · exact .inl newer
    · exact .inr ⟨same, rfl⟩

theorem Retired.lt_of_active {store : MemoryState} {generation : Nat}
    {timer : TimerRecord} (retired : Retired store id generation)
    (stored : store.timers.get? id = some timer) (active : timer.status.active = true) :
    generation < timer.generation := by
  obtain ⟨other, otherStored, newer | ⟨_, inactive⟩⟩ := retired
  · obtain rfl : other = timer := Option.some.inj (otherStored.symm.trans stored)
    exact newer
  · obtain rfl : other = timer := Option.some.inj (otherStored.symm.trans stored)
    rw [active] at inactive
    cases inactive

/-- A lease is for a timer that is firing; a claim that was handed out is of a
stored generation or an older one; a generation that was fired is retired and
was fired once; and every journalled event belongs to a firing. -/
structure TimerFleet.Sound (sha256 : String → String) (sys : TimerFleet) : Prop where
  firing : ∀ id entry, sys.store.timerLeases.get? id = some entry →
    ∃ timer, sys.store.timers.get? id = some timer ∧ timer.status = .firing
  claims : ∀ claim ∈ sys.issued, ∃ timer, sys.store.timers.get? claim.timer.id = some timer ∧
    claim.timer.generation ≤ timer.generation ∧
    (claim.timer.generation = timer.generation → claim.timer.schedule = timer.schedule)
  retired : ∀ firing ∈ sys.fired, Retired sys.store firing.1 firing.2
  nodup : sys.fired.Nodup
  events : (sys.store.events.map EventJournalEntry.eventId).Sublist
    (sys.fired.map fun firing => timerEventId sha256 firing.1 firing.2)

/-- The stored generation of a timer and its schedule are kept, or the next
generation is scheduled. -/
def KeepsOrAdvances (store next : MemoryState) (id : String) : Prop :=
  (next.timers.get? id).map (fun timer => (timer.generation, timer.schedule)) =
      (store.timers.get? id).map (fun timer => (timer.generation, timer.schedule)) ∨
    ∃ timer, next.timers.get? id = some timer ∧
      timer.generation = generationOf store id + 1 ∧ timer.status = .scheduled

theorem Evolves.keepsOrAdvances
    (evolves : Evolves store next id) : KeepsOrAdvances store next id := by
  cases evolves with
  | same timer _ => exact .inl (by rw [timer])
  | scheduled stored generation status _ => exact .inr ⟨_, stored, generation, status⟩
  | withdrawn now before _ stored _ => exact .inl (by rw [stored, before]; rfl)

section InPlace

variable {store next : MemoryState} {timer : TimerRecord} (later : TimerRecord)

/-- An active timer was replaced in place: the generation and the schedule are
kept, and what is retired stays so. -/
theorem keepsOrAdvances_insert (stored : store.timers.get? later.id = some timer)
    (generation : later.generation = timer.generation) (schedule : later.schedule = timer.schedule)
    (timers : next.timers = store.timers.insert later) (id : String) :
    KeepsOrAdvances store next id := by
  left
  rw [timers, Table.get?_insert]
  split
  next here =>
    rw [here, stored]
    simp [generation, schedule]
  next => rfl

theorem Retired.insert (stored : store.timers.get? later.id = some timer)
    (active : timer.status.active = true) (generation : later.generation = timer.generation)
    (timers : next.timers = store.timers.insert later) {id : String} {retiredGeneration : Nat}
    (retired : Retired store id retiredGeneration) : Retired next id retiredGeneration := by
  by_cases here : id = later.id
  · rw [here] at retired ⊢
    have newer := retired.lt_of_active stored active
    rw [← generation] at newer
    exact ⟨later, by rw [timers, Table.get?_insert_self], .inl newer⟩
  · obtain ⟨current, currentStored, rest⟩ := retired
    refine ⟨current, ?_, rest⟩
    rw [timers, Table.get?_insert_of_ne _ here]
    exact currentStored

end InPlace

namespace TimerFleet.Sound

variable {sha256 : String → String} {sys : TimerFleet}

theorem initial : Sound sha256 .initial := by
  constructor <;> simp [TimerFleet.initial, MemoryState.new]

theorem evolve {store : MemoryState} (sound : sys.Sound sha256)
    (evolves : ∀ id, Evolves sys.store store id) (journal : SameJournal sys.store store) :
    Sound sha256 { sys with store := store } where
  firing id entry found := by
    cases evolves id with
    | same timer lease =>
      obtain ⟨old, stored, firing⟩ := sound.firing id entry (lease entry found)
      exact ⟨old, timer.trans stored, firing⟩
    | scheduled _ _ _ lease | withdrawn _ _ _ _ lease =>
      rw [lease] at found
      cases found
  claims claim handed := by
    obtain ⟨timer, stored, le, schedule⟩ := sound.claims claim handed
    cases evolves claim.timer.id with
    | same timerSame _ => exact ⟨timer, timerSame.trans stored, le, schedule⟩
    | @scheduled later laterStored generation _ _ =>
      simp only [generationOf, stored, Option.map_some, Option.getD_some] at generation
      exact ⟨later, laterStored, by omega, fun same => by omega⟩
    | @withdrawn old now before _ laterStored _ =>
      obtain rfl : old = timer := Option.some.inj (before.symm.trans stored)
      exact ⟨_, laterStored, le, schedule⟩
  retired firing member := (sound.retired firing member).evolves (evolves firing.1)
  nodup := sound.nodup
  events := by
    rw [journal.events]
    exact sound.events

variable {timer : TimerRecord}

theorem grant {worker token : String} {now expiresAt : DateTime} (sound : sys.Sound sha256)
    (stored : timer ∈ sys.store.timers) (active : timer.status.active = true) :
    Sound sha256 { sys with
      store := { releaseExpiredTimers sys.store now with
        timers := sys.store.timers.insert { timer with status := .firing, updatedAt := now }
        timerLeases := (releaseExpiredTimers sys.store now).timerLeases.insert
          (timer.id, { worker := worker, token := token, expiresAt := expiresAt }) }
      issued := {
        timer := { timer with status := .firing, updatedAt := now }
        worker := worker
        token := token
        expiresAt := expiresAt } :: sys.issued } := by
  have found : sys.store.timers.get? timer.id = some timer := Table.get?_key stored
  have lookup : ∀ id, (sys.store.timers.insert
      { timer with status := .firing, updatedAt := now }).get? id =
        if id = timer.id then some { timer with status := .firing, updatedAt := now }
        else sys.store.timers.get? id := fun id => Table.get?_insert ..
  constructor
  · intro id entry leased
    rw [lookup]
    split
    next => exact ⟨_, rfl, rfl⟩
    rename_i other
    have kept : (releaseExpiredTimers sys.store now).timerLeases.get? id = some entry := by
      rw [Table.get?_insert, if_neg other] at leased
      exact leased
    have before : sys.store.timerLeases.get? id = some entry := by
      rw [releaseExpiredTimers, Table.get?_filter] at kept
      exact (Option.filter_eq_some_iff.mp kept).1
    exact sound.firing id entry before
  · intro claim handed
    rcases List.mem_cons.mp handed with rfl | handed
    · exact ⟨_, by rw [lookup, if_pos rfl], le_rfl, fun _ => rfl⟩
    · obtain ⟨current, currentStored, le, schedule⟩ := sound.claims claim handed
      rw [lookup]
      split
      next here =>
        rw [here, found] at currentStored
        cases currentStored
        exact ⟨_, rfl, le, schedule⟩
      next => exact ⟨current, currentStored, le, schedule⟩
  · intro firing member
    exact Retired.insert { timer with status := .firing, updatedAt := now } found active rfl rfl
      (sound.retired firing member)
  · exact sound.nodup
  · exact sound.events

variable {entry : String × Lease}

theorem active_of_leased {id : String}
    (sound : sys.Sound sha256) (leased : sys.store.timerLeases.get? id = some entry)
    (stored : sys.store.timers.get? id = some timer) : timer.status.active = true := by
  obtain ⟨current, currentStored, firing⟩ := sound.firing id entry leased
  rw [stored] at currentStored
  cases currentStored
  rw [firing]
  rfl

variable {claim : TimerClaim}

theorem schedule_eq (sound : sys.Sound sha256) (handed : claim ∈ sys.issued)
    (stored : sys.store.timers.get? claim.timer.id = some timer)
    (generation : timer.generation = claim.timer.generation) :
    claim.timer.schedule = timer.schedule := by
  obtain ⟨current, currentStored, _, schedule⟩ := sound.claims claim handed
  rw [stored] at currentStored
  cases currentStored
  exact schedule generation.symm

/-- A firing that goes through is the only one of its generation, and keeps the
invariant. -/
theorem fire {now : DateTime} {event : PreparedEvent} {store : MemoryState} {outcome : AdmitOutcome}
    (sound : sys.Sound sha256) (handed : claim ∈ sys.issued)
    (event_id : event.eventId = timerEventId sha256 claim.timer.id claim.timer.generation)
    (leased : sys.store.timerLeases.get? claim.timer.id = some entry)
    (stored : sys.store.timers.get? claim.timer.id = some timer)
    (generation : timer.generation = claim.timer.generation)
    (fires : admit_ { sys.store with
        timers := sys.store.timers.insert (firedTimer claim.timer now)
        timerLeases := sys.store.timerLeases.erase claim.timer.id } event =
      some (store, outcome)) :
    Sound sha256 { sys with
      store := store
      fired := sys.fired ++ [(claim.timer.id, claim.timer.generation)] } := by
  have active := sound.active_of_leased leased stored
  have schedule := sound.schedule_eq handed stored generation
  obtain ⟨timers, leases, events⟩ := admit_timers fires
  have lookup : ∀ id, store.timers.get? id =
      if id = claim.timer.id then some (firedTimer claim.timer now)
      else sys.store.timers.get? id := by
    intro id
    rw [timers]
    exact Table.get?_insert ..
  constructor
  · intro id other found
    rw [leases, Table.get?_erase] at found
    rw [lookup]
    split at found
    next => cases found
    next different =>
      rw [if_neg different]
      exact sound.firing id other found
  · intro other otherHanded
    obtain ⟨current, currentStored, le, same⟩ := sound.claims other otherHanded
    rw [lookup]
    split
    next here =>
      rw [here, stored] at currentStored
      cases currentStored
      refine ⟨firedTimer claim.timer now, rfl, le.trans generation.le, fun equal => ?_⟩
      have scheduled := same (equal.trans generation.symm)
      rw [scheduled, ← schedule]
      rfl
    next => exact ⟨current, currentStored, le, same⟩
  · intro firing member
    rcases List.mem_append.mp member with member | member
    · exact Retired.insert (firedTimer claim.timer now) stored active generation.symm timers
        (sound.retired firing member)
    · rw [List.mem_singleton.mp member]
      exact ⟨firedTimer claim.timer now, by rw [lookup, if_pos rfl], .inr ⟨rfl, rfl⟩⟩
  · refine sound.nodup.append (List.nodup_singleton _) fun firing member new => ?_
    rw [List.mem_singleton.mp new] at member
    have newer := (sound.retired _ member).lt_of_active stored active
    rw [generation] at newer
    exact lt_irrefl _ newer
  · rw [List.map_append]
    rcases events with same | ⟨entry, appended, named⟩
    · rw [same]
      exact sound.events.trans (List.sublist_append_left _ _)
    · rw [appended, List.map_append]
      refine sound.events.append ?_
      simp [named, event_id]

/-- Every call keeps the timers sound, and no retired generation comes back. -/
theorem act {next : TimerFleet} {call : TimerCall} (sound : sys.Sound sha256)
    (acts : sys.act sha256 call = some next) :
    next.Sound sha256 ∧ (∀ id, KeepsOrAdvances sys.store next.store id) ∧
      ∀ id generation, Retired sys.store id generation → Retired next.store id generation := by
  have evolved : ∀ {store : MemoryState}, (∀ id, Evolves sys.store store id) →
      SameJournal sys.store store →
      Sound sha256 { sys with store := store } ∧ (∀ id, KeepsOrAdvances sys.store store id) ∧
        ∀ id generation, Retired sys.store id generation → Retired store id generation :=
    fun evolves journal => ⟨sound.evolve evolves journal, fun id => (evolves id).keepsOrAdvances,
      fun id _ retired => retired.evolves (evolves id)⟩
  cases call with
  | upsertTimer timer =>
    cases acts
    exact evolved (.upsertTimer timer) (.upsertTimer ..)
  | reconcileTimerExact desired now =>
    cases acts
    exact evolved (.reconcileTimerExact desired now) (.reconcileTimerExact ..)
  | reconcileTimers idPrefix desired now =>
    cases acts
    exact evolved (.reconcileTimers idPrefix desired now) (.reconcileTimers ..)
  | cancelTimer id generation now =>
    cases acts
    exact evolved (.cancelTimer id generation now) (.cancelTimer ..)
  | claimDueTimer worker now leaseFor token =>
    simp only [TimerFleet.act] at acts
    split at acts
    next => cases acts
    next store claim result =>
      cases acts
      rcases claimDueTimer_cases result with ⟨_, refused⟩ |
        ⟨timer, stored, expiresAt, active, _, same, rfl⟩
      · exact absurd rfl (refused claim)
      · cases same
        have found : sys.store.timers.get? timer.id = some timer := Table.get?_key stored
        let firing : TimerRecord := { timer with status := .firing, updatedAt := now }
        exact ⟨sound.grant stored active, keepsOrAdvances_insert firing found rfl rfl rfl,
          fun _ _ retired => retired.insert firing found active rfl rfl⟩
    rename_i store reply unclaimed result
    cases acts
    rcases claimDueTimer_cases result with ⟨rfl, _⟩ | ⟨timer, _, expiresAt, _, _, same, _⟩
    · exact evolved (.releaseExpiredTimers now) ⟨rfl, rfl, rfl, rfl⟩
    · exact absurd same (unclaimed _)
  | fireTimer claim now event =>
    simp only [TimerFleet.act] at acts
    split at acts
    next permitted =>
      split at acts
      next => cases acts
      next store outcome result =>
        cases acts
        rcases fireTimer_cases result with ⟨_, _, refused⟩ |
          ⟨entry, timer, fires, leased, _, stored, generation, same, admitted⟩
        · cases refused
        · cases same
          have active := sound.active_of_leased leased stored
          have schedule := sound.schedule_eq permitted.1 stored generation
          have timers := (admit_timers admitted).1
          exact ⟨sound.fire permitted.1 permitted.2.2 leased stored generation admitted,
            keepsOrAdvances_insert (firedTimer claim.timer now) stored generation.symm schedule
              timers,
            fun _ _ retired => retired.insert (firedTimer claim.timer now) stored active
              generation.symm timers⟩
      rename_i store error result
      cases acts
      rcases fireTimer_cases result with ⟨rfl, _⟩ | ⟨_, _, _, _, _, _, _, same, _⟩
      · exact evolved (.refl sys.store) (.refl sys.store)
      · cases same
    next => cases acts

/-- Along every sequence of calls the invariant holds and what is retired stays
retired. -/
theorem run {calls : List TimerCall} {later : TimerFleet} (sound : sys.Sound sha256)
    (ran : calls.foldlM (TimerFleet.act sha256) sys = some later) :
    later.Sound sha256 ∧
      ∀ id generation, Retired sys.store id generation → Retired later.store id generation := by
  induction calls generalizing sys with
  | nil =>
    obtain rfl : sys = later := by simpa using ran
    exact ⟨sound, fun _ _ retired => retired⟩
  | cons call rest ih =>
    obtain ⟨middle, first, onward⟩ : ∃ middle, sys.act sha256 call = some middle ∧
        rest.foldlM (TimerFleet.act sha256) middle = some later := by
      simpa [List.foldlM_cons, Option.bind_eq_some_iff] using ran
    obtain ⟨reached, _, keeps⟩ := sound.act first
    obtain ⟨ends, stays⟩ := ih reached onward
    exact ⟨ends, fun id generation retired => stays id generation (keeps id generation retired)⟩

theorem refuses (sound : sys.Sound sha256)
    (retired : Retired sys.store claim.timer.id claim.timer.generation) (fired : TimerRecord)
    (event : PreparedEvent) :
    ∃ error, fireTimer sys.store claim fired event = some (sys.store, .error error) := by
  apply fireTimer_refused
  intro entry timer leased stored same
  have newer := retired.lt_of_active stored (sound.active_of_leased leased stored)
  omega

end TimerFleet.Sound

/-- The text of a generation determines the timer and the generation: the
digits behind its last colon are the generation. -/
theorem timerText_injective {id other : String} {generation otherGeneration : Nat}
    (same : timerText id generation = timerText other otherGeneration) :
    id = other ∧ generation = otherGeneration := by
  have digits : ∀ number : Nat, ∀ char ∈ (Nat.toDigits 10 number).reverse,
      decide (char ≠ ':') = true := by
    intro number char member
    have digit := Nat.isDigit_of_mem_toDigits (by decide) (by decide) (List.mem_reverse.mp member)
    rw [decide_eq_true_eq]
    rintro rfl
    revert digit
    decide
  have lists : id.toList ++ ':' :: Nat.toDigits 10 generation =
      other.toList ++ ':' :: Nat.toDigits 10 otherGeneration := by
    have texts := congrArg String.toList same
    simpa [timerText, String.toList_append] using texts
  have reversed := congrArg List.reverse lists
  simp only [List.reverse_append, List.reverse_cons, List.append_assoc, List.singleton_append]
    at reversed
  have selected := congrArg (List.takeWhile fun char => decide (char ≠ ':')) reversed
  rw [List.takeWhile_append_of_pos (digits generation),
    List.takeWhile_append_of_pos (digits otherGeneration)] at selected
  have equal : Nat.toDigits 10 generation = Nat.toDigits 10 otherGeneration := by
    simpa using selected
  have generations : generation = otherGeneration := by
    rw [← Nat.ofDigitChars_ten_toDigits (n := generation), equal, Nat.ofDigitChars_ten_toDigits]
  subst generations
  exact ⟨String.toList_inj.mp (List.append_cancel_right lists), rfl⟩

/-- The events of distinct firings are journalled at most once each, as long as
no two fired generations share an event id. -/
theorem TimerFleet.Sound.journalled_once {sha256 : String → String} {sys : TimerFleet}
    (sound : sys.Sound sha256)
    (collisionFree : ∀ left ∈ sys.fired, ∀ right ∈ sys.fired,
      stableId sha256 "evt" (timerText left.1 left.2) =
        stableId sha256 "evt" (timerText right.1 right.2) →
      timerText left.1 left.2 = timerText right.1 right.2)
    (eventId : String) :
    (sys.store.events.filter fun entry => entry.eventId = eventId).length ≤ 1 := by
  have distinct : (sys.fired.map fun firing => timerEventId sha256 firing.1 firing.2).Nodup := by
    refine sound.nodup.map_on fun left leftMember right rightMember same => ?_
    obtain ⟨ids, generations⟩ :=
      timerText_injective (collisionFree left leftMember right rightMember same)
    exact Prod.ext ids generations
  have once : ((sys.store.events.filter fun entry => entry.eventId = eventId).map
      EventJournalEntry.eventId).Nodup :=
    (distinct.sublist sound.events).sublist (List.filter_sublist.map _)
  have constant : (sys.store.events.filter fun entry => entry.eventId = eventId).map
      EventJournalEntry.eventId =
        List.replicate (sys.store.events.filter fun entry => entry.eventId = eventId).length
          eventId := by
    rw [List.eq_replicate_iff]
    refine ⟨List.length_map _, fun id member => ?_⟩
    obtain ⟨entry, selected, rfl⟩ := List.mem_map.mp member
    simpa using (List.mem_filter.mp selected).2
  rw [constant, List.nodup_replicate] at once
  exact once

/-- In every interleaving of the timer calls: each call keeps the stored
generation and schedule of a timer or schedules exactly the next generation; no
generation is fired twice, and its event is journalled at most once; and once a
cancellation was accepted for the stored generation, or a newer one is stored, a
generation is never fired by any claim handed out for it. -/
theorem timers_fire_once {sha256 : String → String} {calls : List TimerCall} {sys : TimerFleet}
    (ran : calls.foldlM (TimerFleet.act sha256) .initial = some sys)
    (collisionFree : ∀ left ∈ sys.fired, ∀ right ∈ sys.fired,
      stableId sha256 "evt" (timerText left.1 left.2) =
        stableId sha256 "evt" (timerText right.1 right.2) →
      timerText left.1 left.2 = timerText right.1 right.2) :
    (∀ call next, sys.act sha256 call = some next → ∀ id, KeepsOrAdvances sys.store next.store id) ∧
    sys.fired.Nodup ∧
    (∀ id generation, (sys.store.events.filter fun entry =>
      entry.eventId = timerEventId sha256 id generation).length ≤ 1) ∧
    (∀ id expected now timer, (cancelTimer sys.store id expected now).2 = true →
      sys.store.timers.get? id = some timer →
      ∀ (rest : List TimerCall) (later : TimerFleet), rest.foldlM (TimerFleet.act sha256)
          { sys with store := (cancelTimer sys.store id expected now).1 } = some later →
        ∀ claim ∈ later.issued, claim.timer.id = id →
          claim.timer.generation = timer.generation →
          ∀ fired event, ∃ error,
            fireTimer later.store claim fired event = some (later.store, .error error)) ∧
    (∀ id generation timer, sys.store.timers.get? id = some timer →
      generation < timer.generation →
      ∀ (rest : List TimerCall) (later : TimerFleet),
        rest.foldlM (TimerFleet.act sha256) sys = some later →
        ∀ claim ∈ later.issued, claim.timer.id = id → claim.timer.generation = generation →
          ∀ fired event, ∃ error,
            fireTimer later.store claim fired event = some (later.store, .error error)) := by
  obtain ⟨sound, _⟩ := TimerFleet.Sound.initial.run ran
  refine ⟨fun call next acts => (sound.act acts).2.1, sound.nodup,
    fun id generation => sound.journalled_once collisionFree _, ?_, ?_⟩
  · rintro id expected now timer accepted stored rest later onward claim _ rfl generation fired event
    have cancels : sys.act sha256 (.cancelTimer claim.timer.id expected now) =
        some { sys with store := (cancelTimer sys.store claim.timer.id expected now).1 } := rfl
    have retired : Retired (cancelTimer sys.store claim.timer.id expected now).1 claim.timer.id
        claim.timer.generation := by
      unfold cancelTimer at accepted ⊢
      simp only [stored] at accepted ⊢
      split at accepted
      next => cases accepted
      rename_i live
      rw [if_neg live]
      refine ⟨withdrawnTimer now timer, ?_, .inr ⟨generation.symm, rfl⟩⟩
      simp [withdrawTimer_timers_get?, stored]
    obtain ⟨ends, stays⟩ := (sound.act cancels).1.run onward
    exact ends.refuses (stays _ _ retired) fired event
  · rintro id generation timer stored newer rest later onward claim _ rfl rfl fired event
    obtain ⟨ends, stays⟩ := sound.run onward
    exact ends.refuses (stays _ _ ⟨timer, stored, .inl newer⟩) fired event

/-- A timer for the first instant, at its first generation. -/
def sampleTimer : TimerRecord := { (default : TimerRecord) with id := "t", sourceUri := "local" }

/-- The digest of the text of that generation. -/
def sampleDigest (text : String) : String :=
  if text = "timer:t:1" then "87efa7324f930764b9439a23006053c35a52e276f554dc21bc35980d4426c533"
  else ""

/-- The claim that a worker is handed for that timer. -/
def sampleTimerClaim : TimerClaim where
  timer := { sampleTimer with generation := 1, status := .firing, updatedAt := 5000000 }
  worker := "w"
  token := "k"
  expiresAt := 65000000

/-- Schedule, claim and fire that timer. -/
def sampleTimerCalls : List TimerCall :=
  [.upsertTimer sampleTimer, .claimDueTimer "w" 5000000 60000000 "k",
    .fireTimer sampleTimerClaim 6000000
      (sampleEvent (timerEventId sampleDigest "t" 1) 6000000 [])]

theorem timers_fire_once_after_firing :
    ∃ sys, sampleTimerCalls.foldlM (TimerFleet.act sampleDigest) .initial = some sys ∧
      sys.fired = [("t", 1)] ∧ sys.fired.Nodup ∧
      (sys.store.events.filter fun entry =>
        entry.eventId = timerEventId sampleDigest "t" 1).length ≤ 1 := by
  have passes : (sampleTimerCalls.foldlM (TimerFleet.act sampleDigest) .initial).any
      (fun sys => decide (sys.fired = [("t", 1)])) = true := by decide
  obtain ⟨sys, ran, holds⟩ := (Option.any_eq_true _ _).mp passes
  have fired : sys.fired = [("t", 1)] := by simpa using holds
  have once := timers_fire_once ran (by simp [fired])
  exact ⟨sys, ran, fired, once.2.1, once.2.2.1 "t" 1⟩

end Mdbase.Runtime
