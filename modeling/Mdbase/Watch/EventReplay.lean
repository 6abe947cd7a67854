import Mdbase.Watch.TreeSnapshot

/-!
# Replaying the events of a snapshot

The events between two snapshots say which revision each path has from then on. Every path that
has changed is covered once, so that they lead from the revisions before to those after. The
watcher numbers what it sends.
-/

namespace Mdbase.Watch

open Library

/-- The revisions that an event gives to paths of records. -/
def PendingEvent.recordUpdates : PendingEvent → List (Text × Option String)
  | .resourceChanged .. => []
  | .recordRenamed source target payload => [(source, none), (target, payload.revision)]
  | .recordDeleted path _ => [(path, none)]
  | .recordCreated path payload => [(path, payload.revision)]
  | .recordModified path payload => [(path, payload.revision)]

/-- The revision that an event gives to a path of a resource. -/
def PendingEvent.resourceUpdates : PendingEvent → List (Text × Option String)
  | .resourceChanged _ path _ revision => [(path, revision)]
  | _ => []

/-- What is known of the revisions after some updates. -/
def replay (updates : List (Text × Option String)) (revisions : Text → Option String) :
    Text → Option String :=
  updates.foldl (fun revisions update => Function.update revisions update.1 update.2) revisions

/-- The updates lead from the revisions before to those after, and cover each path that has changed
once. -/
structure Transforms (updates : List (Text × Option String)) (Changed : Text → Prop)
    (before after : Text → Option String) : Prop where
  replays : replay updates before = after
  once : (updates.map Prod.fst).Nodup
  covers : ∀ path, path ∈ updates.map Prod.fst ↔ Changed path

section Replay

variable {updates : List (Text × Option String)} {path : Text}

theorem replay_of_not_mem (outside : path ∉ updates.map Prod.fst)
    (revisions : Text → Option String) : replay updates revisions path = revisions path := by
  induction updates generalizing revisions with
  | nil => rfl
  | cons update rest ih =>
    rw [List.map_cons, List.mem_cons, not_or] at outside
    exact (ih outside.2 _).trans (Function.update_of_ne outside.1 _ _)

theorem replay_of_mem (once : (updates.map Prod.fst).Nodup) {revision : Option String}
    (member : (path, revision) ∈ updates) (revisions : Text → Option String) :
    replay updates revisions path = revision := by
  induction updates generalizing revisions with
  | nil => cases member
  | cons update rest ih =>
    rw [List.map_cons, List.nodup_cons] at once
    rcases List.mem_cons.mp member with rfl | later
    · exact (replay_of_not_mem once.1 _).trans (Function.update_self _ _ _)
    · exact ih once.2 later _

/-- Updates with the revisions after, of the paths that have changed. -/
theorem transforms {Changed : Text → Prop} {before after : Text → Option String}
    (once : (updates.map Prod.fst).Nodup)
    (members : ∀ path revision, (path, revision) ∈ updates ↔
      Changed path ∧ revision = after path)
    (kept : ∀ path, ¬Changed path → before path = after path) :
    Transforms updates Changed before after := by
  have covers : ∀ path, path ∈ updates.map Prod.fst ↔ Changed path := fun path => by
    rw [List.mem_map]
    constructor
    · rintro ⟨⟨_, revision⟩, member, rfl⟩
      exact ((members _ _).mp member).1
    · exact fun changed => ⟨(path, after path), (members _ _).mpr ⟨changed, rfl⟩, rfl⟩
  refine ⟨funext fun path => ?_, once, covers⟩
  by_cases changed : Changed path
  · exact replay_of_mem once ((members _ _).mpr ⟨changed, rfl⟩) _
  · rw [replay_of_not_mem (mt (covers path).mp changed), kept path changed]

end Replay

/-- The records that are paired: each is the only one of its side with its revision. -/
def isPaired (deleted created : List (Text × RecordState)) (binding : Text × RecordState) : Bool :=
  revisionCount deleted binding.2.revision = 1 && revisionCount created binding.2.revision = 1

/-- The created record with the revision of a deleted one. -/
def partner (created : List (Text × RecordState)) (binding : Text × RecordState) :
    Option (Text × RecordState) :=
  created.find? fun other => other.2.revision = binding.2.revision

/-- The revision that a created record brings. -/
def broughtUpdate (binding : Text × RecordState) : Text × Option String :=
  (binding.1, some binding.2.revision)

section Pairs

variable {deleted created records : List (Text × RecordState)}
  {binding left right : Text × RecordState}

theorem eq_of_revisionCount {revision : String} (single : revisionCount records revision = 1)
    (leftMember : left ∈ records) (rightMember : right ∈ records)
    (leftSame : left.2.revision = revision) (rightSame : right.2.revision = revision) :
    left = right := by
  rw [revisionCount, List.countP_eq_length_filter, List.length_eq_one_iff] at single
  obtain ⟨only, filtered⟩ := single
  have all : ∀ other ∈ records, other.2.revision = revision → other = only :=
    fun other member same => List.mem_singleton.mp
      (filtered ▸ List.mem_filter.mpr ⟨member, decide_eq_true same⟩)
  rw [all left leftMember leftSame, all right rightMember rightSame]

theorem exists_of_revisionCount {revision : String} (single : revisionCount records revision = 1) :
    ∃ other ∈ records, other.2.revision = revision := by
  obtain ⟨other, member, same⟩ :=
    List.countP_pos_iff.mp (Nat.lt_of_lt_of_eq Nat.one_pos single.symm)
  exact ⟨other, member, of_decide_eq_true same⟩

theorem partner_spec {other : Text × RecordState} (found : partner created binding = some other) :
    other ∈ created ∧ other.2.revision = binding.2.revision := by
  have same := List.find?_some found
  exact ⟨List.mem_of_find?_eq_some found, of_decide_eq_true same⟩

/-- Every paired record has a partner. -/
theorem isSome_partner (paired : isPaired deleted created binding = true) :
    ∃ other, partner created binding = some other := by
  simp only [isPaired, Bool.and_eq_true, decide_eq_true_eq] at paired
  obtain ⟨other, member, same⟩ := exists_of_revisionCount paired.2
  exact Option.isSome_iff_exists.mp (List.find?_isSome.mpr ⟨other, member, decide_eq_true same⟩)

/-- The partners are the created records that are paired. -/
theorem partners_perm (distinct : deleted.Nodup) (distinct' : created.Nodup) :
    ((deleted.filter (isPaired deleted created)).filterMap (partner created)).Perm
      (created.filter (isPaired deleted created)) := by
  refine (List.perm_ext_iff_of_nodup ?_ (distinct'.filter _)).mpr fun other => ?_
  · refine List.pairwise_filterMap.mpr ((distinct.filter _).imp_of_mem ?_)
    intro left right leftMember rightMember different leftOther leftFound rightOther rightFound same
    obtain ⟨leftInside, paired⟩ := List.mem_filter.mp leftMember
    simp only [isPaired, Bool.and_eq_true, decide_eq_true_eq] at paired
    refine different
      (eq_of_revisionCount paired.1 leftInside (List.mem_filter.mp rightMember).1 rfl ?_)
    rw [← (partner_spec leftFound).2, ← (partner_spec rightFound).2, same]
  · simp only [List.mem_filterMap, List.mem_filter]
    constructor
    · rintro ⟨binding, ⟨_, paired⟩, found⟩
      obtain ⟨member, same⟩ := partner_spec found
      refine ⟨member, ?_⟩
      rw [isPaired, same]
      exact paired
    · rintro ⟨member, paired⟩
      have counts := paired
      simp only [isPaired, Bool.and_eq_true, decide_eq_true_eq] at counts
      obtain ⟨binding, inside, same⟩ := exists_of_revisionCount counts.1
      have pair : isPaired deleted created binding = true := by
        rw [isPaired, same]
        exact paired
      obtain ⟨found, isFound⟩ := isSome_partner pair
      obtain ⟨inside', same'⟩ := partner_spec isFound
      exact ⟨binding, ⟨inside, pair⟩, isFound.trans (congrArg some
        (eq_of_revisionCount counts.2 inside' member (same'.trans same) rfl))⟩

/-- The renamings unbind the paired records before and bring the paired records after. -/
theorem renamed_perm (records : List (Text × RecordState))
    (partners : ∀ binding ∈ records, ∃ other, partner created binding = some other) :
    ((records.filterMap fun binding => (partner created binding).map fun other =>
        renamedEvent binding.1 other.1 binding.2 other.2).flatMap
          PendingEvent.recordUpdates).Perm
      (records.map (fun binding => (binding.1, none)) ++
        (records.filterMap (partner created)).map broughtUpdate) := by
  induction records with
  | nil => exact .nil
  | cons binding rest ih =>
    obtain ⟨⟨other, found⟩, later⟩ := List.forall_mem_cons.mp partners
    simp only [List.filterMap_cons, found, Option.map_some, List.flatMap_cons, List.map_cons]
    exact .cons _ (((ih later).cons _).trans List.perm_middle.symm)

/-- Renamings, deletions and creations unbind all records before and bring all records after. -/
theorem pairs_perm (distinct : deleted.Nodup) (distinct' : created.Nodup) :
    (((deleted.filter (isPaired deleted created)).filterMap (fun binding =>
        (partner created binding).map fun other =>
          renamedEvent binding.1 other.1 binding.2 other.2) ++
      (deleted.filter (!isPaired deleted created ·)).map (fun binding =>
        deletedEvent binding.1 binding.2) ++
      (created.filter (!isPaired deleted created ·)).map fun binding =>
        createdEvent binding.1 binding.2).flatMap PendingEvent.recordUpdates).Perm
      (deleted.map (fun binding => (binding.1, none)) ++ created.map broughtUpdate) := by
  have renamed := (renamed_perm (deleted.filter (isPaired deleted created))
    fun binding member => isSome_partner (List.mem_filter.mp member).2).trans
      (.append_left _ ((partners_perm distinct distinct').map broughtUpdate))
  have whole (records : List (Text × RecordState))
      (update : Text × RecordState → Text × Option String) :=
    (List.filter_append_perm (isPaired deleted created) records).map update
  simp only [List.map_append] at whole
  rw [List.flatMap_append, List.flatMap_append, List.flatMap_map, List.flatMap_map]
  refine ((renamed.append_right _).append_right _).trans ?_
  refine .trans ?_ ((whole deleted _).append (whole created _))
  simp only [List.append_assoc, List.map_eq_flatMap]
  refine .append_left _ ?_
  simp only [← List.append_assoc]
  exact List.perm_append_comm.append_right _

end Pairs

/-- The revisions of the records. -/
def recordRevisions (records : KeyedMap Text RecordState) (path : Text) : Option String :=
  (records.lookup path).map (·.revision)

/-- The updates of the records that are in both maps. -/
def modifiedUpdates (before after : KeyedMap Text RecordState) : List (Text × Option String) :=
  before.entries.filterMap fun binding =>
    ((after.lookup binding.1).filter fun current => binding.2.revision ≠ current.revision).map
      fun current => (binding.1, some current.revision)

theorem flatMap_modified (before after : KeyedMap Text RecordState) :
    (before.entries.filterMap fun binding =>
      ((after.lookup binding.1).filter fun current => binding.2.revision ≠ current.revision).map
        (modifiedEvent binding.1 binding.2)).flatMap PendingEvent.recordUpdates =
      modifiedUpdates before after := by
  unfold modifiedUpdates
  induction before.entries with
  | nil => rfl
  | cons binding rest ih =>
    rw [List.filterMap_cons, List.filterMap_cons]
    cases (after.lookup binding.1).filter fun current => binding.2.revision ≠ current.revision with
    | none => exact ih
    | some current => exact congrArg _ ih

theorem nodup_missingFrom (other map : KeyedMap Text RecordState) : (missingFrom other map).Nodup :=
  (map.sorted.imp fun below same => below.ne (congrArg Prod.fst same)).filter _

/-- All updates of `record_events`, by what they do. -/
theorem recordUpdates_perm (before after : KeyedMap Text RecordState) :
    ((recordEvents before after).flatMap PendingEvent.recordUpdates).Perm
      ((missingFrom after before).map (fun binding => (binding.1, none)) ++
        (missingFrom before after).map broughtUpdate ++ modifiedUpdates before after) := by
  have pairs := pairs_perm (nodup_missingFrom after before) (nodup_missingFrom before after)
  rw [← flatMap_modified]
  exact (List.Perm.of_eq (List.flatMap_append ..)).trans (pairs.append_right _)

variable {before after : KeyedMap Text RecordState} {path : Text} {revision : Option String}

theorem mem_entries {map : KeyedMap Text RecordState} {state : RecordState} :
    (path, state) ∈ map.entries ↔ map.lookup path = some state := by
  refine ⟨KeyedMap.lookup_of_mem, fun found => ?_⟩
  obtain ⟨binding, isFound, rfl⟩ := Option.map_eq_some_iff.mp found
  exact Table.key_of_get? isFound ▸ Table.mem_of_get? isFound

theorem mem_missingFrom {other map : KeyedMap Text RecordState} {state : RecordState} :
    (path, state) ∈ missingFrom other map ↔
      map.lookup path = some state ∧ other.lookup path = none := by
  rw [missingFrom, List.mem_filter, mem_entries, Option.isNone_iff_eq_none]

theorem mem_modifiedUpdates : (path, revision) ∈ modifiedUpdates before after ↔
    ∃ previous current, before.lookup path = some previous ∧ after.lookup path = some current ∧
      previous.revision ≠ current.revision ∧ revision = some current.revision := by
  simp only [modifiedUpdates, List.mem_filterMap, Prod.exists, mem_entries, Option.map_eq_some_iff,
    Option.filter_eq_some_iff, decide_eq_true_eq, Prod.mk.injEq]
  constructor
  · rintro ⟨_, previous, held, current, ⟨kept, differ⟩, rfl, rfl⟩
    exact ⟨previous, current, held, kept, differ, rfl⟩
  · rintro ⟨previous, current, held, kept, differ, rfl⟩
    exact ⟨path, previous, held, current, ⟨kept, differ⟩, rfl, rfl⟩

/-- The updates of the records give the revisions after to the paths that have changed. -/
theorem mem_recordUpdates :
    (path, revision) ∈ (recordEvents before after).flatMap PendingEvent.recordUpdates ↔
      recordRevisions before path ≠ recordRevisions after path ∧
        revision = recordRevisions after path := by
  rw [(recordUpdates_perm before after).mem_iff]
  simp only [List.mem_append, List.mem_map, Prod.exists, mem_missingFrom, mem_modifiedUpdates,
    broughtUpdate, Prod.mk.injEq, recordRevisions]
  constructor
  · rintro ((⟨_, state, ⟨held, gone⟩, rfl, rfl⟩ | ⟨_, state, ⟨held, gone⟩, rfl, rfl⟩) |
      ⟨previous, current, held, kept, differ, rfl⟩)
    · simp [held, gone]
    · simp [held, gone]
    · simp [held, kept, differ]
  · rintro ⟨differ, rfl⟩
    cases held : before.lookup path <;> cases kept : after.lookup path <;> simp_all

/-- No path is covered twice. -/
theorem nodup_recordUpdates : (((recordEvents before after).flatMap
    PendingEvent.recordUpdates).map Prod.fst).Nodup := by
  have distinct (other map : KeyedMap Text RecordState) :
      ((missingFrom other map).map Prod.fst).Nodup :=
    List.pairwise_map.mpr ((map.sorted.imp fun below => below.ne).filter _)
  have modified : ((modifiedUpdates before after).map Prod.fst).Nodup := by
    refine List.pairwise_map.mpr (before.sorted.filterMap _ ?_)
    intro left right below _ first _ second
    obtain ⟨_, -, rfl⟩ := Option.map_eq_some_iff.mp first
    obtain ⟨_, -, rfl⟩ := Option.map_eq_some_iff.mp second
    exact below.ne
  rw [((recordUpdates_perm before after).map Prod.fst).nodup_iff, List.map_append, List.map_append,
    List.map_map, List.map_map]
  refine List.nodup_append'.mpr ⟨List.nodup_append'.mpr ⟨distinct _ _, distinct _ _, ?_⟩, modified,
    ?_⟩
  · intro path first second
    obtain ⟨⟨_, left⟩, leftMember, rfl⟩ := List.mem_map.mp first
    obtain ⟨⟨_, right⟩, rightMember, rfl⟩ := List.mem_map.mp second
    have held := (mem_missingFrom.mp leftMember).1
    have gone := (mem_missingFrom.mp rightMember).2
    exact nomatch held.symm.trans gone
  · intro path first second
    obtain ⟨⟨_, update⟩, updated, rfl⟩ := List.mem_map.mp second
    obtain ⟨previous, current, held, kept, -⟩ := mem_modifiedUpdates.mp updated
    rcases List.mem_append.mp first with first | first
    · obtain ⟨⟨_, state⟩, member, rfl⟩ := List.mem_map.mp first
      exact nomatch kept.symm.trans (mem_missingFrom.mp member).2
    · obtain ⟨⟨_, state⟩, member, rfl⟩ := List.mem_map.mp first
      exact nomatch held.symm.trans (mem_missingFrom.mp member).2

/-- The revisions of the resources. -/
def resourceRevisions (resources : KeyedMap Text ResourceState) (path : Text) : Option String :=
  (resources.lookup path).map (·.revision)

/-- The updates of the resources are those of the paths whose state has changed. -/
theorem resourceUpdates_eq (before after : KeyedMap Text ResourceState) :
    (TreeSnapshot.resourceEvents before after).flatMap PendingEvent.resourceUpdates =
      (((before.keys ++ after.keys).dedup.insertionSort (· ≤ ·)).filter fun path =>
        before.lookup path ≠ after.lookup path).map fun path =>
          (path, resourceRevisions after path) := by
  unfold TreeSnapshot.resourceEvents resourceRevisions
  induction (before.keys ++ after.keys).dedup.insertionSort (· ≤ ·) with
  | nil => rfl
  | cons path rest ih =>
    rw [List.filterMap_cons, List.filter_cons]
    cases held : before.lookup path <;> cases kept : after.lookup path
    · simpa using ih
    · simp [ih, PendingEvent.resourceUpdates, kept]
    · simp [ih, PendingEvent.resourceUpdates, kept]
    · next previous current =>
      by_cases same : previous = current
      · simpa [same] using ih
      · simp [same, ih, PendingEvent.resourceUpdates, kept]

theorem resources_transform (before after : KeyedMap Text ResourceState) :
    Transforms ((TreeSnapshot.resourceEvents before after).flatMap PendingEvent.resourceUpdates)
      (fun path => before.lookup path ≠ after.lookup path) (resourceRevisions before)
      (resourceRevisions after) := by
  rw [resourceUpdates_eq]
  refine transforms ?_ (fun path revision => ?_) fun path same => ?_
  · rw [List.map_map]
    refine ((List.Perm.nodup_iff (List.perm_insertionSort _ _)).mpr
      (List.nodup_dedup _)).filter _ |>.map_on ?_
    exact fun _ _ _ _ same => same
  · simp only [List.mem_map, List.mem_filter, List.mem_insertionSort, List.mem_dedup,
      List.mem_append, KeyedMap.mem_keys, decide_eq_true_eq, Prod.mk.injEq]
    constructor
    · rintro ⟨_, ⟨_, differ⟩, rfl, rfl⟩
      exact ⟨differ, rfl⟩
    · rintro ⟨differ, rfl⟩
      refine ⟨path, ⟨?_, differ⟩, rfl, rfl⟩
      by_contra neither
      simp only [not_or, not_not] at neither
      exact differ (neither.1.trans neither.2.symm)
  · rw [resourceRevisions, not_not.mp same, resourceRevisions]

theorem records_transform (before after : KeyedMap Text RecordState) :
    Transforms ((recordEvents before after).flatMap PendingEvent.recordUpdates)
      (fun path => recordRevisions before path ≠ recordRevisions after path)
      (recordRevisions before) (recordRevisions after) :=
  transforms nodup_recordUpdates (fun _ _ => mem_recordUpdates) fun _ => not_not.mp

/-- A deleted and a created path are the only ones of their sides with their revision. -/
def Renames (before after : KeyedMap Text RecordState) (source target : Text) : Prop :=
  ∃ previous current, (source, previous) ∈ missingFrom after before ∧
    (target, current) ∈ missingFrom before after ∧ current.revision = previous.revision ∧
    revisionCount (missingFrom after before) previous.revision = 1 ∧
    revisionCount (missingFrom before after) previous.revision = 1

theorem mem_renamed {before after : TreeSnapshot} {source target : Text} :
    (∃ payload, .recordRenamed source target payload ∈ before.diff after) ↔
      Renames before.records after.records source target := by
  simp only [TreeSnapshot.diff, TreeSnapshot.resourceEvents, recordEvents, List.mem_append,
    List.mem_filterMap, List.mem_map, List.mem_filter, Option.map_eq_some_iff, deletedEvent,
    createdEvent, modifiedEvent, renamedEvent, reduceCtorEq, and_false, exists_false, false_or,
    or_false, Option.ite_none_left_eq_some, Bool.and_eq_true, decide_eq_true_eq]
  constructor
  · rintro ⟨_, ⟨_, previous⟩, ⟨held, single, single'⟩, ⟨_, current⟩, found, ⟨⟩⟩
    obtain ⟨kept, same⟩ := partner_spec found
    exact ⟨previous, current, held, kept, same, single, single'⟩
  · rintro ⟨previous, current, held, kept, same, single, single'⟩
    obtain ⟨other, found⟩ := @isSome_partner _ _ (source, previous)
      (by simpa [isPaired] using ⟨single, single'⟩)
    obtain ⟨inside, equal⟩ := partner_spec found
    obtain rfl := eq_of_revisionCount single' inside kept equal same
    exact ⟨_, (source, previous), ⟨held, single, single'⟩, _, found, rfl⟩

/-- What the loop of the watcher has sent, and the number of the last. -/
structure Emission where
  sequence : Nat := 0
  sent : List (Nat × Option PendingEvent) := []

/-- An event is sent with the next number, or a diagnostic, which is no event of a snapshot. -/
def Emission.send (emission : Emission) (event : Option PendingEvent) : Emission where
  sequence := emission.sequence + 1
  sent := emission.sent ++ [(emission.sequence + 1, event)]

/-- A refresh sends all its events, or a diagnostic. -/
def Emission.round (emission : Emission) (events : List (Option PendingEvent)) : Emission :=
  events.foldl Emission.send emission

/-- The numbers of what is sent are consecutive. -/
def Emission.Consecutive (emission : Emission) : Prop :=
  emission.sent.map Prod.fst = List.range' 1 emission.sequence

theorem Emission.Consecutive.round {emission : Emission} (consecutive : emission.Consecutive)
    (events : List (Option PendingEvent)) : (emission.round events).Consecutive := by
  induction events generalizing emission with
  | nil => exact consecutive
  | cons event rest ih =>
    refine @ih (emission.send event) ?_
    unfold Emission.Consecutive at *
    simp [Emission.send, consecutive, List.range'_concat, Nat.add_comm]

/-- The events between two snapshots replay them, and what the watcher sends is numbered without
gaps. -/
theorem diff_replays (before after : TreeSnapshot) :
    Transforms ((before.diff after).flatMap PendingEvent.recordUpdates)
        (fun path => recordRevisions before.records path ≠ recordRevisions after.records path)
        (recordRevisions before.records) (recordRevisions after.records) ∧
      Transforms ((before.diff after).flatMap PendingEvent.resourceUpdates)
        (fun path => before.resources.lookup path ≠ after.resources.lookup path)
        (resourceRevisions before.resources) (resourceRevisions after.resources) ∧
      (∀ source target, (∃ payload, .recordRenamed source target payload ∈ before.diff after) ↔
        Renames before.records after.records source target) ∧
      (∀ binding, isPaired (missingFrom after.records before.records)
          (missingFrom before.records after.records) binding = true →
        ∃ other, partner (missingFrom before.records after.records) binding = some other) ∧
      ∀ rounds : List (List (Option PendingEvent)),
        (rounds.foldl Emission.round {}).Consecutive := by
  have none : (TreeSnapshot.resourceEvents before.resources after.resources).flatMap
      PendingEvent.recordUpdates = [] := by
    refine List.flatMap_eq_nil_iff.mpr fun event member => ?_
    obtain ⟨path, _, made⟩ := List.mem_filterMap.mp member
    split at made
    · cases made
    · obtain ⟨state, -, rfl⟩ := Option.map_eq_some_iff.mp made
      rfl
  have none' : (recordEvents before.records after.records).flatMap
      PendingEvent.resourceUpdates = [] := by
    refine List.flatMap_eq_nil_iff.mpr fun event member => ?_
    simp only [recordEvents, List.mem_append, List.mem_filterMap, List.mem_map,
      Option.map_eq_some_iff] at member
    rcases member with ((⟨_, _, _, _, rfl⟩ | ⟨_, _, rfl⟩) | ⟨_, _, rfl⟩) | ⟨_, _, _, _, rfl⟩ <;> rfl
  rw [TreeSnapshot.diff, List.flatMap_append, List.flatMap_append, none, none', List.nil_append,
    List.append_nil]
  refine ⟨records_transform _ _, resources_transform _ _, fun _ _ => mem_renamed,
    fun _ => isSome_partner, fun rounds => ?_⟩
  have all : ∀ emission : Emission, emission.Consecutive →
      (rounds.foldl Emission.round emission).Consecutive := by
    induction rounds with
    | nil => exact fun _ consecutive => consecutive
    | cons events rest ih => exact fun emission consecutive => ih _ (consecutive.round events)
  exact all _ rfl

/-- A contract, with the same bytes, becomes a type when the settings name its folder as that of the
types: it is reported though its revision is what it was. -/
theorem kind_reported : ¬∀ before after : TreeSnapshot,
    Transforms ((before.diff after).flatMap PendingEvent.resourceUpdates)
      (fun path => resourceRevisions before.resources path ≠ resourceRevisions after.resources path)
      (resourceRevisions before.resources) (resourceRevisions after.resources) := by
  intro covers
  let definition := "definitions/task.md".toList
  let snapshot (typesFolder contractsFolder : String) : TreeSnapshot :=
    let settings : PathSettings := ⟨true, [], [], true, typesFolder.toList, contractsFolder.toList,
      "_migrations".toList, ".mdbase".toList⟩
    ⟨settings, .store .empty definition ⟨resourceKind settings definition, "r"⟩, .empty, .empty⟩
  have covered := ((covers (snapshot "_types" "definitions")
    (snapshot "definitions" "_contracts")).covers definition).mp (by decide +kernel)
  exact covered rfl

end Mdbase.Watch
