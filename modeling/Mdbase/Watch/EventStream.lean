import Mdbase.Watch.EventReplay
import Mdbase.Watch.RefreshAgreement

/-!
# Following the events of a watcher

A watcher refreshes its snapshot again and again, from a whole load or from the paths that it was
told of. It may discard what it has read, or fail. Whoever starts from the first snapshot and takes
over what the events say comes to the revisions of the last one, in whatever way they were read.
-/

namespace Mdbase.Watch

open Library

/-- How a refresh ends. -/
inductive Refresh where
  /-- With the snapshot of a whole load. -/
  | whole (next : TreeSnapshot)
  /-- With the records at some paths. -/
  | paths (opened : FullLoad Observation) (tree : Tree) (paths : List Text)
  /-- It is discarded, or it fails, with or without a diagnostic. -/
  | unchanged (diagnosed : Bool)

/-- The snapshot of the worker, and what it has sent. -/
structure WatchLoop where
  snapshot : TreeSnapshot
  emission : Emission := {}

/-- The refresh in the loop of the worker. -/
def WatchLoop.refresh (reading : Reading Observation) (loop : WatchLoop) : Refresh → WatchLoop
  | .whole next => ⟨next, loop.emission.round ((loop.snapshot.diff next).map some)⟩
  | .paths opened tree paths =>
    let (next, events) := loop.snapshot.refreshPaths reading opened tree paths
    ⟨next, loop.emission.round (events.map some)⟩
  | .unchanged diagnosed =>
    { loop with emission := loop.emission.round (if diagnosed then [none] else []) }

/-- The events among what was sent. -/
def Emission.events (emission : Emission) : List PendingEvent := emission.sent.filterMap Prod.snd

theorem Emission.events_round (emission : Emission) (events : List (Option PendingEvent)) :
    (emission.round events).events = emission.events ++ events.filterMap id := by
  induction events generalizing emission with
  | nil => exact (List.append_nil _).symm
  | cons event rest ih =>
    refine (ih (emission.send event)).trans ?_
    cases event <;> simp [Emission.events, Emission.send]

theorem replay_append (updates later : List (Text × Option String))
    (revisions : Text → Option String) :
    replay (updates ++ later) revisions = replay later (replay updates revisions) :=
  List.foldl_append

theorem replay_congr {updates : List (Text × Option String)} {path : Text}
    {revisions others : Text → Option String} (same : revisions path = others path) :
    replay updates revisions path = replay updates others path := by
  induction updates generalizing revisions others with
  | nil => exact same
  | cons update rest ih =>
    refine ih ?_
    dsimp only
    by_cases here : path = update.1
    · rw [here, Function.update_self, Function.update_self]
    · rw [Function.update_of_ne here, Function.update_of_ne here, same]

theorem resourceUpdates_recordEvents (before after : KeyedMap Text RecordState) :
    (recordEvents before after).flatMap PendingEvent.resourceUpdates = [] := by
  refine List.flatMap_eq_nil_iff.mpr fun event member => ?_
  simp only [recordEvents, List.mem_append, List.mem_filterMap, List.mem_map,
    Option.map_eq_some_iff] at member
  rcases member with ((⟨_, _, _, _, rfl⟩ | ⟨_, _, rfl⟩) | ⟨_, _, rfl⟩) | ⟨_, _, _, _, rfl⟩ <;> rfl

theorem recordUpdates_resourceEvents (before after : KeyedMap Text ResourceState) :
    (TreeSnapshot.resourceEvents before after).flatMap PendingEvent.recordUpdates = [] := by
  refine List.flatMap_eq_nil_iff.mpr fun event member => ?_
  obtain ⟨path, _, made⟩ := List.mem_filterMap.mp member
  split at made
  · cases made
  · obtain ⟨state, -, rfl⟩ := Option.map_eq_some_iff.mp made
    rfl

theorem replay_restricted {before after : KeyedMap Text RecordState} {paths : List Text}
    (outside : ∀ path, path ∉ paths → after.lookup path = before.lookup path) :
    replay ((recordEvents (before.restrict (· ∈ paths)) (after.restrict (· ∈ paths))).flatMap
      PendingEvent.recordUpdates) (recordRevisions before) = recordRevisions after := by
  funext path
  have whole := records_transform (before.restrict (· ∈ paths)) (after.restrict (· ∈ paths))
  have restricted (map : KeyedMap Text RecordState) :
      recordRevisions (map.restrict (· ∈ paths)) path =
        if path ∈ paths then recordRevisions map path else none := by
    rw [recordRevisions, KeyedMap.lookup_restrict]
    by_cases member : path ∈ paths <;> simp [member, recordRevisions]
  by_cases member : path ∈ paths
  · simp only [if_pos member] at restricted
    rw [replay_congr (restricted before).symm, whole.replays, restricted]
  · simp only [if_neg member] at restricted
    rw [replay_of_not_mem, recordRevisions, recordRevisions, outside path member]
    rw [whole.covers, restricted, restricted]
    exact (· rfl)

/-- Whoever has followed the events since the first snapshot knows the revisions of the last. -/
structure WatchLoop.Followed (first : TreeSnapshot) (loop : WatchLoop) : Prop where
  consecutive : loop.emission.Consecutive
  records : replay (loop.emission.events.flatMap PendingEvent.recordUpdates)
    (recordRevisions first.records) = recordRevisions loop.snapshot.records
  resources : replay (loop.emission.events.flatMap PendingEvent.resourceUpdates)
    (resourceRevisions first.resources) = resourceRevisions loop.snapshot.resources

theorem WatchLoop.Followed.refresh {first : TreeSnapshot} {loop : WatchLoop}
    (followed : loop.Followed first) (reading : Reading Observation) (refresh : Refresh) :
    (loop.refresh reading refresh).Followed first := by
  have adds (events : List (Option PendingEvent)) (next : TreeSnapshot)
      (records : replay ((events.filterMap id).flatMap PendingEvent.recordUpdates)
        (recordRevisions loop.snapshot.records) = recordRevisions next.records)
      (resources : replay ((events.filterMap id).flatMap PendingEvent.resourceUpdates)
        (resourceRevisions loop.snapshot.resources) = resourceRevisions next.resources) :
      (⟨next, loop.emission.round events⟩ : WatchLoop).Followed first := by
    refine ⟨followed.consecutive.round events, ?_, ?_⟩
    · rw [Emission.events_round, List.flatMap_append, replay_append, followed.records, records]
    · rw [Emission.events_round, List.flatMap_append, replay_append, followed.resources, resources]
  have sent (events : List PendingEvent) : (events.map some).filterMap id = events := by simp
  cases refresh with
  | whole next =>
    refine adds _ _ ?_ ?_
    · rw [sent, TreeSnapshot.diff, List.flatMap_append, recordUpdates_resourceEvents]
      exact (records_transform _ _).replays
    · rw [sent, TreeSnapshot.diff, List.flatMap_append, resourceUpdates_recordEvents,
        List.append_nil]
      exact (resources_transform _ _).replays
  | paths opened tree paths =>
    have known := @TreeSnapshot.known_refreshPaths reading opened tree loop.snapshot paths
    refine adds _ _ ?_ ?_
    · rw [sent]
      exact replay_restricted fun path outside =>
        congrArg Known.record ((known path).trans (if_neg outside))
    · rw [sent, resourceUpdates_recordEvents]
      funext path
      have resource := congrArg Known.resource (known path)
      rw [apply_ite Known.resource, Known.resource_replaced, ite_self] at resource
      exact congrArg (Option.map (·.revision)) resource.symm
  | unchanged diagnosed => refine adds _ _ ?_ ?_ <;> cases diagnosed <;> rfl

theorem followed_foldl_refresh (reading : Reading Observation) (first : TreeSnapshot)
    (refreshes : List Refresh) :
    (refreshes.foldl (WatchLoop.refresh reading) ⟨first, {}⟩).Followed first := by
  have all (loop : WatchLoop) (followed : loop.Followed first) :
      (refreshes.foldl (WatchLoop.refresh reading) loop).Followed first := by
    induction refreshes generalizing loop with
    | nil => exact followed
    | cons refresh rest ih => exact ih _ (followed.refresh reading refresh)
  exact all _ ⟨rfl, rfl, rfl⟩

end Mdbase.Watch
