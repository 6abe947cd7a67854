import Mathlib.Data.Set.Card
import Mathlib.Logic.Function.Basic
import Mdbase.Provider.Change

/-!
# The gate of a provider

Reads share the gate and a write has it alone; a write that waits keeps new reads out. Everything
that a call does between taking the lock and giving it back is one step, and a wait gives the lock
back. A wait ends when it is notified, when its time is up, or for no reason, so a step of a
waiting thread may come at any time. What an operation's context answers at a check is part of the
step: cancellation and deadlines are not under the lock.
-/

namespace Mdbase.Runtime.Gate

open Provider

/-- `usize::MAX`. -/
def usizeMax : Nat := 2 ^ 64 - 1

/-- `GateState`. -/
structure GateState where
  activeReaders : Nat := 0
  writerActive : Bool := false
  waitingWriters : Nat := 0
  deriving DecidableEq

/-- A `ProviderError`, as far as the gate reports one. -/
inductive GateError where
  | operationCancelled
  | operationDeadline
  | lockPoisoned
  deriving DecidableEq

/-- A live guard: `RuntimeReadGuard` or `RuntimeWriteGuard`. -/
inductive Guard where
  | read
  | write
  deriving DecidableEq

/-- `context.check()`, and the check in `context.next_wait()`, by the reason to stop that is found
at this moment. -/
def check : Option OperationStopReason → Except GateError Unit
  | some .cancelled => .error .operationCancelled
  | some .deadline => .error .operationDeadline
  | none => .ok ()

/-- How a turn under the lock ends. -/
inductive Turn where
  /-- The call returns. -/
  | returned (result : Except GateError Guard)
  /-- The call sleeps until `changed` is notified or its time is up. -/
  | waits
  /-- The wait failed, and the lock went with it. -/
  | lost (error : GateError)
  /-- An arithmetic panic under the lock. -/
  | panicked

/-- `state.waiting_writers -= 1`, which panics at 0. -/
def GateState.stopWaiting (state : GateState) : Option GateState :=
  if 0 < state.waitingWriters then
    some { state with waitingWriters := state.waitingWriters - 1 }
  else none

/-- A round of the loop in `RuntimeGate::read`. The context is asked once by the loop, and once
more before it waits. -/
def readTurn (atCheck atWait : Option OperationStopReason) (state : GateState) :
    GateState × Turn :=
  match check atCheck with
  | .error error => (state, .returned (.error error))
  | .ok () =>
    if !state.writerActive && state.waitingWriters == 0 then
      if state.activeReaders < usizeMax then
        ({ state with activeReaders := state.activeReaders + 1 }, .returned (.ok .read))
      else (state, .returned (.error .lockPoisoned))
    else
      match check atWait with
      | .error error => (state, .returned (.error error))
      | .ok () => (state, .waits)

/-- A round of the loop in `RuntimeGate::write`. -/
def writeTurn (atCheck atWait : Option OperationStopReason) (state : GateState) :
    GateState × Turn :=
  match check atCheck with
  | .error error =>
    match state.stopWaiting with
    | some state => (state, .returned (.error error))
    | none => (state, .panicked)
  | .ok () =>
    if !state.writerActive && state.activeReaders == 0 then
      match state.stopWaiting with
      | some state => ({ state with writerActive := true }, .returned (.ok .write))
      | none => (state, .panicked)
    else
      match check atWait with
      | .error error => (state, .lost error)
      | .ok () => (state, .waits)

/-- What `RuntimeGate::write` does before its loop, and the first round. -/
def enterWrite (atCheck atWait : Option OperationStopReason) (state : GateState) :
    GateState × Turn :=
  if state.waitingWriters < usizeMax then
    writeTurn atCheck atWait { state with waitingWriters := state.waitingWriters + 1 }
  else (state, .returned (.error .lockPoisoned))

/-- `release_read`, `release_write`. -/
def release : Guard → GateState → GateState
  | .read, state => { state with activeReaders := state.activeReaders - 1 }
  | .write, state => { state with writerActive := false }

/-- A round of `read` leaves the state alone, or it finds no writer, neither active nor waiting, and
adds a reader. -/
theorem readTurn_cases (atCheck atWait : Option OperationStopReason) (state : GateState) :
    (∃ error, readTurn atCheck atWait state = (state, .returned (.error error))) ∨
    readTurn atCheck atWait state = (state, .waits) ∨
    (state.writerActive = false ∧ state.waitingWriters = 0 ∧
      readTurn atCheck atWait state =
        ({ state with activeReaders := state.activeReaders + 1 }, .returned (.ok .read))) := by
  unfold readTurn
  split
  next error _ => exact .inl ⟨error, rfl⟩
  · split_ifs with free room
    · simp only [Bool.and_eq_true, Bool.not_eq_true', beq_iff_eq] at free
      exact .inr (.inr ⟨free.1, free.2, rfl⟩)
    · exact .inl ⟨_, rfl⟩
    · split
      next error _ => exact .inl ⟨error, rfl⟩
      · exact .inr (.inl rfl)

variable {state : GateState}

theorem GateState.stopWaiting_of_pos (counted : 0 < state.waitingWriters) :
    state.stopWaiting = some { state with waitingWriters := state.waitingWriters - 1 } :=
  if_pos counted

/-- A round of `write` by a thread that is on the count: the call returns and takes the thread off
the count, with the gate when nobody has it, or it goes on and leaves the state alone. -/
theorem writeTurn_cases (atCheck atWait : Option OperationStopReason)
    (counted : 0 < state.waitingWriters) :
    (∃ error, writeTurn atCheck atWait state =
      ({ state with waitingWriters := state.waitingWriters - 1 }, .returned (.error error))) ∨
    (state.writerActive = false ∧ state.activeReaders = 0 ∧
      writeTurn atCheck atWait state =
        ({ state with writerActive := true, waitingWriters := state.waitingWriters - 1 },
          .returned (.ok .write))) ∨
    (∃ error, writeTurn atCheck atWait state = (state, .lost error)) ∨
    writeTurn atCheck atWait state = (state, .waits) := by
  unfold writeTurn
  rw [GateState.stopWaiting_of_pos counted]
  split
  next error _ => exact .inl ⟨error, rfl⟩
  · split_ifs with free
    · simp only [Bool.and_eq_true, Bool.not_eq_true', beq_iff_eq] at free
      exact .inr (.inl ⟨free.1, free.2, rfl⟩)
    · split
      next error _ => exact .inr (.inr (.inl ⟨error, rfl⟩))
      · exact .inr (.inr (.inr rfl))

/-- Where a thread stands in the code of the gate when it does not hold the lock. -/
inductive Place where
  | outside
  /-- It sleeps in `read`. -/
  | reading
  /-- It sleeps in `write`. -/
  | writing
  /-- Its wait in `write` has failed; it has yet to take itself off the count. -/
  | leaving (error : GateError)
  deriving DecidableEq

/-- The thread has called `write`, and the call has not returned. -/
def Place.InWrite : Place → Prop
  | .writing | .leaving _ => True
  | .outside | .reading => False

/-- The gate, the threads that use it and the guards that are alive, whoever holds them. -/
structure System (Thread : Type) where
  state : GateState
  poisoned : Bool
  place : Thread → Place
  guards : List Guard

variable {Thread : Type}

/-- `RuntimeGate::new`. -/
def System.new : System Thread := ⟨{}, false, fun _ => .outside, []⟩

/-- The threads inside `write`. -/
def System.writers (system : System Thread) : Set Thread := {thread | (system.place thread).InWrite}

/-- The state counts what there is: the guards that are alive and the threads inside `write`. -/
structure Counts (system : System Thread) : Prop where
  healthy : system.poisoned = false
  readers : system.state.activeReaders = system.guards.count .read
  writer : system.state.writerActive.toNat = system.guards.count .write
  exclusive : system.state.writerActive = true → system.state.activeReaders = 0
  waiting : system.writers.encard = system.state.waitingWriters

namespace Counts

theorem new : Counts (.new : System Thread) where
  healthy := rfl
  readers := rfl
  writer := rfl
  exclusive := fun active => nomatch active
  waiting := by simp [System.writers, System.new, Place.InWrite]

variable {system : System Thread}

theorem counted (counts : Counts system) {thread : Thread} (inside : thread ∈ system.writers) :
    0 < system.state.waitingWriters := by
  have some_ : system.writers.encard ≠ 0 := Set.encard_ne_zero.mpr ⟨thread, inside⟩
  rw [counts.waiting] at some_
  exact Nat.pos_of_ne_zero fun none_ => some_ (by rw [none_]; rfl)

theorem waiting_eq_zero (counts : Counts system) (nobody : system.writers = ∅) :
    system.state.waitingWriters = 0 := by
  have empty := counts.waiting
  rw [nobody, Set.encard_empty] at empty
  exact_mod_cast empty.symm

theorem writerActive_eq_false (counts : Counts system) (free : Guard.write ∉ system.guards) :
    system.state.writerActive = false := by
  have none_ := counts.writer
  rw [List.count_eq_zero.mpr free] at none_
  exact Bool.toNat_eq_zero.mp none_

theorem drop (counts : Counts system) {guard : Guard} (alive : guard ∈ system.guards) :
    Counts { system with
      state := release guard system.state
      guards := system.guards.erase guard } := by
  cases guard with
  | read =>
    refine ⟨counts.healthy, ?_, ?_, fun active => ?_, counts.waiting⟩
    · simp [release, counts.readers]
    · simpa [release] using counts.writer
    · exact Nat.sub_eq_zero_of_le ((counts.exclusive active).le.trans (Nat.zero_le 1))
  | write =>
    refine ⟨counts.healthy, ?_, ?_, (fun active => nomatch active), counts.waiting⟩
    · simpa [release] using counts.readers
    · have one : system.guards.count .write ≤ 1 := counts.writer ▸ Bool.toNat_le _
      simp only [release, Bool.toNat_false, List.count_erase_self]
      omega

end Counts

/-- What happens next. -/
inductive Event (Thread : Type) where
  /-- A thread calls `read` and gets the lock. -/
  | read (thread : Thread) (atCheck atWait : Option OperationStopReason)
  /-- A thread calls `write` and gets the lock. -/
  | write (thread : Thread) (atCheck atWait : Option OperationStopReason)
  /-- The wait of a thread is over and it has the lock again. -/
  | wake (thread : Thread) (atCheck atWait : Option OperationStopReason)
  /-- A thread whose wait has failed gets the lock again. -/
  | recover (thread : Thread)
  /-- A guard is dropped. -/
  | drop (guard : Guard)

/-- What a call returned in a step, if it did. -/
abbrev Returned := Option (Except GateError Guard)

variable [DecidableEq Thread]

/-- The thread goes to a place. -/
def System.move (system : System Thread) (thread : Thread) (place : Place) : System Thread :=
  { system with place := Function.update system.place thread place }

/-- The end of a turn, where the call sleeps at `asleep` if it waits. -/
def System.finish (system : System Thread) (thread : Thread) (asleep : Place) :
    GateState × Turn → System Thread × Returned
  | (state, .returned (.ok guard)) =>
    ({ system.move thread .outside with state, guards := guard :: system.guards }, some (.ok guard))
  | (state, .returned (.error error)) =>
    ({ system.move thread .outside with state }, some (.error error))
  | (state, .waits) => ({ system.move thread asleep with state }, none)
  | (state, .lost error) => ({ system.move thread (.leaving error) with state }, none)
  | (state, .panicked) => ({ system.move thread .outside with state, poisoned := true }, none)

/-- One step, if it can be taken. -/
def System.step (system : System Thread) : Event Thread → Option (System Thread × Returned)
  | .read thread atCheck atWait =>
    if system.place thread = .outside then
      if system.poisoned then some (system, some (.error .lockPoisoned))
      else some (system.finish thread .reading (readTurn atCheck atWait system.state))
    else none
  | .write thread atCheck atWait =>
    if system.place thread = .outside then
      if system.poisoned then some (system, some (.error .lockPoisoned))
      else some (system.finish thread .writing (enterWrite atCheck atWait system.state))
    else none
  | .wake thread atCheck atWait =>
    match system.place thread with
    | .reading =>
      if system.poisoned then
        some (system.move thread .outside, some (.error .lockPoisoned))
      else some (system.finish thread .reading (readTurn atCheck atWait system.state))
    | .writing =>
      if system.poisoned then some (system.move thread (.leaving .lockPoisoned), none)
      else some (system.finish thread .writing (writeTurn atCheck atWait system.state))
    | .outside | .leaving _ => none
  | .recover thread =>
    match system.place thread with
    | .leaving error =>
      -- A poisoned lock is not taken: the count stays as it is.
      if system.poisoned then some (system.move thread .outside, some (.error error))
      else
        some
          ({ system.move thread .outside with
              state := { system.state with waitingWriters := system.state.waitingWriters - 1 } },
            some (.error error))
    | .outside | .reading | .writing => none
  | .drop guard =>
    if guard ∈ system.guards then
      some
        ({ system with state := release guard system.state, guards := system.guards.erase guard },
          none)
    else none

/-- The states that some order of steps leads to. -/
inductive Reachable : System Thread → Prop where
  | new : Reachable .new
  | step {system next : System Thread} {event : Event Thread} {returned : Returned} :
      Reachable system → system.step event = some (next, returned) → Reachable next

theorem writers_move_inside (system : System Thread) (thread : Thread) (place : Place)
    (inside : place.InWrite) :
    (system.move thread place).writers = insert thread system.writers := by
  ext other
  by_cases same : other = thread
  · subst same
    simp [System.writers, System.move, inside]
  · simp [System.writers, System.move, same]

theorem writers_move_outside (system : System Thread) (thread : Thread) (place : Place)
    (outside : ¬place.InWrite) :
    (system.move thread place).writers = system.writers \ {thread} := by
  ext other
  by_cases same : other = thread
  · subst same
    simp [System.writers, System.move, outside]
  · simp [System.writers, System.move, same]

theorem finish_move (system : System Thread) (thread : Thread) (before asleep : Place)
    (state : GateState) (turn : GateState × Turn) :
    ({ system.move thread before with state } : System Thread).finish thread asleep turn =
      system.finish thread asleep turn := by
  obtain ⟨after, turn⟩ := turn
  rcases turn with (error | guard) | - | error | - <;> simp [System.finish, System.move]

namespace Counts

variable {system : System Thread} {thread : Thread}

theorem waiting_apart (counts : Counts system) (apart : thread ∉ system.writers) (place : Place)
    (outside : ¬place.InWrite) :
    (system.move thread place).writers.encard = system.state.waitingWriters := by
  rw [writers_move_outside system thread place outside, Set.sdiff_singleton_eq_self apart,
    counts.waiting]

theorem waiting_within (counts : Counts system) (within : thread ∈ system.writers) (place : Place)
    (inside : place.InWrite) :
    (system.move thread place).writers.encard = system.state.waitingWriters := by
  rw [writers_move_inside system thread place inside, Set.insert_eq_of_mem within, counts.waiting]

theorem finish_readTurn (counts : Counts system) (apart : thread ∉ system.writers)
    (atCheck atWait : Option OperationStopReason) :
    Counts (system.finish thread .reading (readTurn atCheck atWait system.state)).1 := by
  rcases readTurn_cases atCheck atWait system.state with
    ⟨error, refused⟩ | waits | ⟨free, nobody, enters⟩
  · rw [refused]
    exact ⟨counts.healthy, counts.readers, counts.writer, counts.exclusive,
      counts.waiting_apart apart .outside id⟩
  · rw [waits]
    exact ⟨counts.healthy, counts.readers, counts.writer, counts.exclusive,
      counts.waiting_apart apart .reading id⟩
  · rw [enters]
    refine ⟨counts.healthy, ?_, ?_, fun active => ?_, counts.waiting_apart apart .outside id⟩
    · simp [System.finish, counts.readers]
    · simpa [System.finish] using counts.writer
    · exact absurd (free.symm.trans active) Bool.false_ne_true

theorem waiting_leave (counts : Counts system) (inside : thread ∈ system.writers) :
    (system.move thread .outside).writers.encard =
      ((system.state.waitingWriters - 1 : Nat) : ℕ∞) := by
  rw [writers_move_outside system thread .outside id, Set.encard_sdiff_singleton_of_mem inside,
    counts.waiting]
  push_cast
  rfl

theorem finish_writeTurn (counts : Counts system) (inside : thread ∈ system.writers)
    (atCheck atWait : Option OperationStopReason) :
    Counts (system.finish thread .writing (writeTurn atCheck atWait system.state)).1 := by
  rcases writeTurn_cases atCheck atWait (counts.counted inside) with
    ⟨error, refused⟩ | ⟨free, nobody, enters⟩ | ⟨error, lost⟩ | waits
  · rw [refused]
    exact ⟨counts.healthy, counts.readers, counts.writer, counts.exclusive,
      counts.waiting_leave inside⟩
  · rw [enters]
    refine ⟨counts.healthy, ?_, ?_, fun _ => nobody, counts.waiting_leave inside⟩
    · simpa [System.finish] using counts.readers
    · have none_ := counts.writer
      rw [free] at none_
      simp [System.finish, ← none_]
  · rw [lost]
    exact ⟨counts.healthy, counts.readers, counts.writer, counts.exclusive,
      counts.waiting_within inside _ trivial⟩
  · rw [waits]
    exact ⟨counts.healthy, counts.readers, counts.writer, counts.exclusive,
      counts.waiting_within inside _ trivial⟩

theorem finish_enterWrite (counts : Counts system) (apart : thread ∉ system.writers)
    (atCheck atWait : Option OperationStopReason) :
    Counts (system.finish thread .writing (enterWrite atCheck atWait system.state)).1 := by
  unfold enterWrite
  split_ifs
  · let entered : System Thread :=
      { system.move thread .writing with
          state := { system.state with waitingWriters := system.state.waitingWriters + 1 } }
    have inside : thread ∈ entered.writers := by
      simp [entered, System.writers, System.move, Place.InWrite]
    have counted : Counts entered :=
      { healthy := counts.healthy
        readers := counts.readers
        writer := counts.writer
        exclusive := counts.exclusive
        waiting := by
          change (system.move thread .writing).writers.encard = _
          rw [writers_move_inside system thread .writing trivial, Set.encard_insert_of_notMem apart,
            counts.waiting]
          simp [entered] }
    rw [← finish_move system thread .writing .writing entered.state]
    exact counted.finish_writeTurn inside atCheck atWait
  · exact ⟨counts.healthy, counts.readers, counts.writer, counts.exclusive,
      counts.waiting_apart apart .outside id⟩

/-- The counters of the gate count the threads that wait and hold, after every step. -/
theorem step (counts : Counts system) {next : System Thread} {event : Event Thread}
    {returned : Returned} (taken : system.step event = some (next, returned)) : Counts next := by
  have healthy : ¬system.poisoned = true := by simp [counts.healthy]
  cases event with
  | read thread atCheck atWait =>
    simp only [System.step, if_neg healthy] at taken
    split_ifs at taken with outside
    have apart : thread ∉ system.writers := by simp [System.writers, outside, Place.InWrite]
    rw [← (Prod.mk.inj (Option.some.inj taken)).1]
    exact counts.finish_readTurn apart atCheck atWait
  | write thread atCheck atWait =>
    simp only [System.step, if_neg healthy] at taken
    split_ifs at taken with outside
    have apart : thread ∉ system.writers := by simp [System.writers, outside, Place.InWrite]
    rw [← (Prod.mk.inj (Option.some.inj taken)).1]
    exact counts.finish_enterWrite apart atCheck atWait
  | wake thread atCheck atWait =>
    simp only [System.step, if_neg healthy] at taken
    split at taken
    next asleep =>
        have apart : thread ∉ system.writers := by simp [System.writers, asleep, Place.InWrite]
        rw [← (Prod.mk.inj (Option.some.inj taken)).1]
        exact counts.finish_readTurn apart atCheck atWait
    next asleep =>
        have inside : thread ∈ system.writers := by simp [System.writers, asleep, Place.InWrite]
        rw [← (Prod.mk.inj (Option.some.inj taken)).1]
        exact counts.finish_writeTurn inside atCheck atWait
    all_goals cases taken
  | recover thread =>
    simp only [System.step, if_neg healthy] at taken
    split at taken
    next error lost =>
        have inside : thread ∈ system.writers := by simp [System.writers, lost, Place.InWrite]
        rw [← (Prod.mk.inj (Option.some.inj taken)).1]
        exact ⟨counts.healthy, counts.readers, counts.writer, counts.exclusive,
          counts.waiting_leave inside⟩
    all_goals cases taken
  | drop guard =>
    simp only [System.step] at taken
    split_ifs at taken with alive
    rw [← (Prod.mk.inj (Option.some.inj taken)).1]
    exact counts.drop alive

end Counts

variable {system : System Thread}

theorem Reachable.counts (reached : Reachable system) : Counts system := by
  induction reached with
  | new => exact .new
  | step _ taken ih => exact ih.step taken

/-- A round of `read` with a live context, with no writer about, takes the gate while there is room
for a reader. -/
theorem readTurn_of_free (free : state.writerActive = false)
    (nobody : state.waitingWriters = 0) (atWait : Option OperationStopReason) :
    readTurn none atWait state =
      if state.activeReaders < usizeMax then
        ({ state with activeReaders := state.activeReaders + 1 }, .returned (.ok .read))
      else (state, .returned (.error .lockPoisoned)) := by
  simp [readTurn, check, free, nobody]

/-- The next step of a thread that is about to read or sleeps in `read`. -/
def nextRead (thread : Thread) (atWait : Option OperationStopReason) : Place → Event Thread
  | .reading => .wake thread none atWait
  | .outside | .writing | .leaving _ => .read thread none atWait

/-- With no thread inside `write` and no guard of a writer alive, the next step of a read with a
live context lets it in. -/
theorem step_nextRead (counts : Counts system) (nobody : system.writers = ∅)
    (free : .write ∉ system.guards) (thread : Thread) (atWait : Option OperationStopReason) :
    system.step (nextRead thread atWait (system.place thread)) =
      some (system.finish thread .reading (if system.state.activeReaders < usizeMax then
          ({ system.state with activeReaders := system.state.activeReaders + 1 },
            .returned (.ok .read))
        else (system.state, .returned (.error .lockPoisoned)))) := by
  rw [← readTurn_of_free (counts.writerActive_eq_false free) (counts.waiting_eq_zero nobody) atWait]
  have apart : ¬(system.place thread).InWrite := fun inside => by
    have member : thread ∈ system.writers := inside
    rw [nobody] at member
    exact member
  cases place : system.place thread with
  | outside | reading => simp [nextRead, System.step, place, counts.healthy]
  | writing | leaving error => exact absurd (by rw [place]; trivial) apart

/-- The gate is exclusive in every state that can be reached: at most one writer, and no reader
beside it. The state counts the live guards, and exactly the threads inside `write` wait. So when
all writers have returned and dropped their guards, a read with a live context succeeds at its next
step, unless `usize::MAX` guards of readers are alive, and then it is refused. -/
theorem gate_exclusive {system : System Thread} (reached : Reachable system) :
    system.guards.count .write ≤ 1 ∧
    (.write ∈ system.guards → .read ∉ system.guards) ∧
    system.state.activeReaders = system.guards.count .read ∧
    system.state.writerActive.toNat = system.guards.count .write ∧
    system.writers.encard = system.state.waitingWriters ∧
    (system.writers = ∅ → .write ∉ system.guards → ∀ thread atWait,
      ∃ next returned,
        system.step (nextRead thread atWait (system.place thread)) = some (next, returned) ∧
        next.place thread = .outside ∧
        (system.guards.count .read < usizeMax →
          returned = some (.ok .read) ∧ next.guards = .read :: system.guards) ∧
        (usizeMax ≤ system.guards.count .read →
          returned = some (.error .lockPoisoned) ∧ next.guards = system.guards)) := by
  have counts := reached.counts
  refine ⟨counts.writer ▸ Bool.toNat_le _, fun writes reads => ?_, counts.readers, counts.writer,
    counts.waiting, fun nobody free thread atWait => ?_⟩
  · have active : system.state.writerActive = true := by
      by_contra inactive
      rw [Bool.not_eq_true] at inactive
      have none_ := counts.writer
      rw [inactive] at none_
      exact List.count_eq_zero.mp none_.symm writes
    have none_ := counts.exclusive active
    rw [counts.readers] at none_
    exact List.count_eq_zero.mp none_ reads
  · rw [step_nextRead counts nobody free, counts.readers]
    by_cases room : system.guards.count .read < usizeMax
    · rw [if_pos room]
      exact ⟨_, _, rfl, by simp [System.move], fun _ => ⟨rfl, rfl⟩,
        fun full => absurd room (Nat.not_lt.mpr full)⟩
    · rw [if_neg room]
      exact ⟨_, _, rfl, by simp [System.move], fun less => absurd less room, fun _ => ⟨rfl, rfl⟩⟩

theorem gate_exclusive_reading :
    ∃ next returned,
      System.step (⟨⟨1, false, 0⟩, false, fun _ => .outside, [.read]⟩ : System Unit)
        (.read () none none) = some (next, returned) ∧ returned = some (.ok .read) := by
  have reached : Reachable (⟨⟨1, false, 0⟩, false, fun _ => .outside, [.read]⟩ : System Unit) := by
    have step := @Reachable.step Unit _ _ _ (.read () none none) _ .new rfl
    simpa [System.finish, System.move, System.new] using step
  obtain ⟨next, returned, taken, -, let_in, -⟩ :=
    (gate_exclusive reached).2.2.2.2.2 (by ext thread; simp [System.writers, Place.InWrite])
      (by decide) () none
  exact ⟨next, returned, taken, (let_in (by decide)).1⟩

/-- A gate with some readers. -/
def readers (number : Nat) : System Unit :=
  ⟨⟨number, false, 0⟩, false, fun _ => .outside, List.replicate number .read⟩

theorem reachable_readers {number : Nat} (room : number ≤ usizeMax) :
    Reachable (readers number) := by
  induction number with
  | zero => exact .new
  | succ number ih =>
    refine @Reachable.step Unit _ _ _ (.read () none none) (some (.ok .read))
      (ih (Nat.le_of_succ_le room)) ?_
    have less : number < usizeMax := room
    simp [System.step, readers, readTurn, check, less, System.finish, System.move,
      List.replicate_succ]

/-- With `usize::MAX` readers in the gate and no writer about, a read with a live context is
refused. -/
theorem gate_refuses_reader :
    ¬∀ system : System Unit, Reachable system → system.writers = ∅ → .write ∉ system.guards →
      ∀ thread atWait, ∃ next,
        system.step (nextRead thread atWait (system.place thread)) =
          some (next, some (.ok .read)) := by
  intro lets_in
  obtain ⟨next, taken⟩ := lets_in (readers usizeMax) (reachable_readers le_rfl)
    (by ext thread; simp [System.writers, readers, Place.InWrite])
    (by simp [readers, List.mem_replicate]) () none
  have full : ¬usizeMax < usizeMax := lt_irrefl _
  simp [nextRead, System.step, readers, readTurn, check, System.finish] at taken

end Mdbase.Runtime.Gate
