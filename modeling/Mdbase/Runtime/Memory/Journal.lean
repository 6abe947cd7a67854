import Mdbase.Runtime.Memory.Timers

/-!
# The event journal of the in-memory store
-/

namespace Mdbase.Runtime.Memory

/-- The number of entries a page holds at most, `limit.clamp(1, 10_000)`. -/
def pageLimit (limit : Nat) : Nat := max 1 (min limit 10000)

/-- `events_after`: one page of the journal. -/
def eventsAfter (state : MemoryState) (after limit : Nat) : EventPage :=
  let limit := pageLimit limit
  let resetRequired : Bool := after < state.retainedAfter
  let events :=
    if resetRequired then []
    else (state.events.filter fun event => event.cursor > after).take (limit + 1)
  { events := events.take limit
    retainedAfter := state.retainedAfter
    head := state.nextCursor
    hasMore := events.length > limit
    resetRequired := resetRequired }

/-- `prune_events_through`: forget envelopes, keep the index of their cursors. -/
def pruneEventsThrough (state : MemoryState) (cursor : Nat) : MemoryState × Nat :=
  let prunedThrough := max (min cursor state.nextCursor) state.retainedAfter
  ({ state with
      events := state.events.filter fun event => event.cursor > prunedThrough
      retainedAfter := prunedThrough },
    prunedThrough)

end Mdbase.Runtime.Memory
