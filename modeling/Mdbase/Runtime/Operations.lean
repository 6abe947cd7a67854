import Mdbase.Runtime.Clients

/-!
# The operations of a store

Every call of the store contract that changes the in-memory store, as one
labelled step, and what the timer calls do. Unlike in `Clients`, the caller of
an operation passes arbitrary arguments.
-/

namespace Mdbase.Runtime

open Library Memory

/-- A call that may change the store. -/
inductive Operation where
  | admitEvent (event : PreparedEvent)
  | claimRun (executor worker : String) (now : DateTime) (leaseFor : Duration) (token : String)
  | commitRun (claim : Claim) (emitted : List PreparedEvent)
  | requestCancel (id : String) (now : DateTime)
  | upsertTimer (timer : TimerRecord)
  | reconcileTimerExact (desired : TimerRecord) (now : DateTime)
  | reconcileTimers (idPrefix : String) (desired : List TimerRecord) (now : DateTime)
  | cancelTimer (id : String) (generation : Option Nat) (now : DateTime)
  | claimDueTimer (worker : String) (now : DateTime) (leaseFor : Duration) (token : String)
  | fireTimer (claim : TimerClaim) (fired : TimerRecord) (event : PreparedEvent)
  | pruneEventsThrough (cursor : Nat)

/-- The store after an operation, `none` when it panics. -/
def Operation.run (state : MemoryState) : Operation → Option MemoryState
  | .admitEvent event => (admit_ state event).map Prod.fst
  | .claimRun executor worker now leaseFor token =>
    (Memory.claimRun state executor worker now leaseFor token).map Prod.fst
  | .commitRun claim emitted => (Memory.commitRun state claim emitted).map Prod.fst
  | .requestCancel id now => some (Memory.requestCancel state id now).1
  | .upsertTimer timer => some (Memory.upsertTimer state timer).1
  | .reconcileTimerExact desired now => some (Memory.reconcileTimerExact state desired now).1
  | .reconcileTimers idPrefix desired now =>
    some (Memory.reconcileTimers state idPrefix desired now).1
  | .cancelTimer id generation now => some (Memory.cancelTimer state id generation now).1
  | .claimDueTimer worker now leaseFor token =>
    (Memory.claimDueTimer state worker now leaseFor token).map Prod.fst
  | .fireTimer claim fired event => (Memory.fireTimer state claim fired event).map Prod.fst
  | .pruneEventsThrough cursor => some (Memory.pruneEventsThrough state cursor).1

namespace Memory

variable {state next : MemoryState}

/-- A timer claim leaves out expired leases and, when it is granted, marks the
timer as firing under a new lease. -/
theorem claimDueTimer_cases {worker token : String} {now : DateTime}
    {leaseFor : Duration} {reply : Except RuntimeError (Option TimerClaim)}
    (result : claimDueTimer state worker now leaseFor token = some (next, reply)) :
    (next = releaseExpiredTimers state now ∧ ∀ claim, reply ≠ .ok (some claim)) ∨
    ∃ timer ∈ state.timers, ∃ expiresAt, timer.status.active = true ∧
      (releaseExpiredTimers state now).timerLeases.get? timer.id = none ∧
      reply = .ok (some {
        timer := { timer with status := .firing, updatedAt := now }
        worker := worker
        token := token
        expiresAt := expiresAt }) ∧
      next = { releaseExpiredTimers state now with
        timers := state.timers.insert { timer with status := .firing, updatedAt := now }
        timerLeases := (releaseExpiredTimers state now).timerLeases.insert
          (timer.id, { worker := worker, token := token, expiresAt := expiresAt }) } := by
  unfold claimDueTimer at result
  dsimp only at result
  split at result
  next =>
    cases result
    exact .inl ⟨rfl, by simp⟩
  rename_i timer selected
  have member := List.argmin_mem (Option.mem_def.mpr selected)
  obtain ⟨stored, isDue⟩ := List.mem_filter.mp member
  simp only [decide_eq_true_eq, Option.isNone_iff_eq_none] at isDue
  obtain ⟨active, _, unleased⟩ := isDue
  split at result
  next => cases result
  next =>
    cases result
    exact .inl ⟨rfl, by simp⟩
  next expiresAt _ =>
    cases result
    exact .inr ⟨timer, stored, expiresAt, active, unleased, rfl, rfl⟩

/-- Firing is refused and changes nothing, or the claim holds the lease on the
stored generation and the event is admitted. -/
theorem fireTimer_cases {claim : TimerClaim} {fired : TimerRecord}
    {event : PreparedEvent} {reply : Except RuntimeError AdmitOutcome}
    (result : fireTimer state claim fired event = some (next, reply)) :
    (next = state ∧ ∃ error, reply = .error error) ∨
    ∃ entry timer outcome, state.timerLeases.get? claim.timer.id = some entry ∧
      entry.2.token = claim.token ∧ state.timers.get? claim.timer.id = some timer ∧
      timer.generation = claim.timer.generation ∧ reply = .ok outcome ∧
      admit_ { state with
          timers := state.timers.insert fired
          timerLeases := state.timerLeases.erase claim.timer.id } event =
        some (next, outcome) := by
  cases leased : state.timerLeases.get? claim.timer.id with
  | none =>
    simp only [fireTimer, leased] at result
    cases result
    exact .inl ⟨rfl, _, rfl⟩
  | some entry =>
    by_cases stale : entry.2.token ≠ claim.token ∨ entry.2.worker ≠ claim.worker ∨
        (state.timers.get? claim.timer.id).all
          (fun timer => timer.generation ≠ claim.timer.generation)
    · simp only [fireTimer, leased, if_pos stale] at result
      cases result
      exact .inl ⟨rfl, _, rfl⟩
    · simp only [fireTimer, leased, if_neg stale] at result
      obtain ⟨⟨admitted, outcome⟩, fires, same⟩ := Option.map_eq_some_iff.mp result
      cases same
      simp only [ne_eq, not_or, not_not] at stale
      obtain ⟨token, _, generation⟩ := stale
      cases found : state.timers.get? claim.timer.id with
      | none => simp [found] at generation
      | some timer =>
        refine .inr ⟨entry, timer, outcome, rfl, token, rfl, ?_, rfl, fires⟩
        simpa [found] using generation

theorem fireTimer_refused {state : MemoryState} {claim : TimerClaim} (fired : TimerRecord)
    (event : PreparedEvent)
    (unheld : ∀ entry timer, state.timerLeases.get? claim.timer.id = some entry →
      state.timers.get? claim.timer.id = some timer →
      timer.generation ≠ claim.timer.generation) :
    ∃ error, fireTimer state claim fired event = some (state, .error error) := by
  cases leased : state.timerLeases.get? claim.timer.id with
  | none =>
    simp only [fireTimer, leased]
    exact ⟨_, rfl⟩
  | some entry =>
    have stale : entry.2.token ≠ claim.token ∨ entry.2.worker ≠ claim.worker ∨
        (state.timers.get? claim.timer.id).all
          (fun timer => timer.generation ≠ claim.timer.generation) = true := by
      refine .inr (.inr ?_)
      cases found : state.timers.get? claim.timer.id with
      | none => rfl
      | some timer => simpa using unheld entry timer leased found
    simp only [fireTimer, leased, if_pos stale]
    exact ⟨_, rfl⟩

/-- Two stores have the same journal. -/
structure SameJournal (state next : MemoryState) : Prop where
  nextCursor : next.nextCursor = state.nextCursor
  retainedAfter : next.retainedAfter = state.retainedAfter
  events : next.events = state.events
  eventIndex : next.eventIndex = state.eventIndex

namespace SameJournal

theorem refl (state : MemoryState) : SameJournal state state := ⟨rfl, rfl, rfl, rfl⟩

theorem trans {first second third : MemoryState} (left : SameJournal first second)
    (right : SameJournal second third) : SameJournal first third :=
  ⟨right.nextCursor.trans left.nextCursor, right.retainedAfter.trans left.retainedAfter,
    right.events.trans left.events, right.eventIndex.trans left.eventIndex⟩

theorem foldl {α : Type*} {step : MemoryState → α → MemoryState}
    (each : ∀ state item, SameJournal state (step state item)) (items : List α)
    (state : MemoryState) : SameJournal state (items.foldl step state) := by
  induction items generalizing state with
  | nil => exact refl state
  | cons item rest ih => exact (each state item).trans (ih (step state item))

variable {state next : MemoryState}

theorem changes {event : PreparedEvent} {cursor : Nat}
    (changes : Changes event cursor state next) : SameJournal state next := by
  induction changes with
  | refl => exact refl state
  | tail _ last ih =>
    obtain ⟨nextCursor, events, eventIndex, retainedAfter⟩ := last.journal
    exact ih.trans ⟨nextCursor, retainedAfter, events, eventIndex⟩

theorem claimRun {executor worker token : String} {now : DateTime}
    {leaseFor : Duration} {reply : Except RuntimeError (Option Claim)}
    (result : Memory.claimRun state executor worker now leaseFor token = some (next, reply)) :
    SameJournal state next := by
  by_cases granted : ∃ claim, reply = .ok (some claim)
  · obtain ⟨claim, rfl⟩ := granted
    obtain ⟨run, granted⟩ := claimRun_granted result
    rw [granted.next_eq]
    exact ⟨rfl, rfl, rfl, rfl⟩
  · rw [claimRun_not_granted result fun claim same => granted ⟨claim, same⟩]
    exact ⟨rfl, rfl, rfl, rfl⟩

theorem requestCancel (state : MemoryState) (id : String) (now : DateTime) :
    SameJournal state (Memory.requestCancel state id now).1 := by
  unfold Memory.requestCancel
  split
  next => exact refl state
  split
  next => exact refl state
  next => exact ⟨rfl, rfl, rfl, rfl⟩

theorem upsertTimer (state : MemoryState) (timer : TimerRecord) :
    SameJournal state (Memory.upsertTimer state timer).1 := by
  unfold Memory.upsertTimer
  split
  next => exact refl state
  next => exact ⟨rfl, rfl, rfl, rfl⟩

theorem reconcileTimerExact (state : MemoryState) (desired : TimerRecord) (now : DateTime) :
    SameJournal state (Memory.reconcileTimerExact state desired now).1 := by
  unfold Memory.reconcileTimerExact
  split
  next => exact refl state
  next => exact refl state
  next => exact ⟨rfl, rfl, rfl, rfl⟩

theorem reconcileTimers (state : MemoryState) (idPrefix : String) (desired : List TimerRecord)
    (now : DateTime) : SameJournal state (Memory.reconcileTimers state idPrefix desired now).1 := by
  unfold Memory.reconcileTimers
  split
  next => exact refl state
  have withdraws : ∀ (state : MemoryState) (id : String),
      SameJournal state (withdrawTimer now state id) := fun _ _ => ⟨rfl, rfl, rfl, rfl⟩
  have applies : ∀ (state : MemoryState) (planned : TimerRecord × Bool),
      SameJournal state (applyPlannedTimer state planned) := by
    intro state planned
    unfold applyPlannedTimer
    split
    next => exact ⟨rfl, rfl, rfl, rfl⟩
    next => exact refl state
  exact (foldl withdraws _ _).trans (foldl applies _ _)

theorem cancelTimer (state : MemoryState) (id : String) (generation : Option Nat)
    (now : DateTime) : SameJournal state (Memory.cancelTimer state id generation now).1 := by
  unfold Memory.cancelTimer
  split
  next => exact refl state
  split
  next => exact refl state
  next => exact ⟨rfl, rfl, rfl, rfl⟩

theorem claimDueTimer {worker token : String} {now : DateTime}
    {leaseFor : Duration} {reply : Except RuntimeError (Option TimerClaim)}
    (result : Memory.claimDueTimer state worker now leaseFor token = some (next, reply)) :
    SameJournal state next := by
  rcases claimDueTimer_cases result with ⟨rfl, _⟩ | ⟨_, _, _, _, _, _, rfl⟩
  · exact ⟨rfl, rfl, rfl, rfl⟩
  · exact ⟨rfl, rfl, rfl, rfl⟩

end SameJournal

end Memory

end Mdbase.Runtime
