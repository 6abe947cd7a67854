import Mdbase.Provider.SnapshotDiff

/-!
# The changes between two snapshots are exact

The revisions of a snapshot are those of its records and of its resources. A batch of changes is
applied to the revisions target by target. The batch of a comparison turns the revisions before into
those after, has one change for every target that differs and none for the others.
-/

namespace Mdbase.Provider.Diff

open Library Links Transactions
open Mdbase.Runtime (Value)

/-- What has a revision in a collection. -/
inductive Target where
  | record (path : String)
  | resource (path : String)
  deriving DecidableEq

/-- The revisions of the records and the resources of a collection. -/
abbrev Revisions := Target → Option String

/-- The revisions in a snapshot. -/
def CollectionSnapshot.revisions (snapshot : CollectionSnapshot) : Revisions
  | .record path => ((.collect snapshot.records : Records).get? path).map (·.revision)
  | .resource path => ((.collect snapshot.resources : Resources).get? path).map (·.revision)

/-- The paths of a snapshot are paths of a collection. -/
structure CollectionSnapshot.Valid (snapshot : CollectionSnapshot) : Prop where
  records : ∀ record ∈ snapshot.records, collectionPath record.path = .ok record.path
  resources : ∀ resource ∈ snapshot.resources, collectionPath resource.path = .ok resource.path

/-- The effect of a change on the revisions. -/
def applyChange : CanonicalChange → Revisions → Revisions
  | .record change, revisions =>
    match change.kind with
    | .created | .updated => Function.update revisions (.record change.path) change.afterRevision
    | .deleted => Function.update revisions (.record change.path) none
    | .renamed =>
      Function.update
        (change.source.elim revisions fun source =>
          Function.update revisions (.record source) none)
        (.record change.path) change.afterRevision
  | .resource change, revisions =>
    Function.update revisions (.resource change.path) change.afterRevision

/-- What a change is about. -/
def targets : CanonicalChange → List Target
  | .record change => .record change.path :: change.source.toList.map .record
  | .resource change => [.resource change.path]

/-- A batch tells exactly how the revisions of two snapshots differ. -/
structure ExactDiff (before after : CollectionSnapshot) (request : Option OperationRequest)
    (batch : ChangeBatch) : Prop where
  applies : batch.items.foldl (fun revisions change => applyChange change revisions)
    before.revisions = after.revisions
  accounted : ∀ target, before.revisions target ≠ after.revisions target →
    ∃! change, change ∈ batch.items ∧ target ∈ targets change
  others : ∀ change ∈ batch.items, ∀ target ∈ targets change,
    before.revisions target ≠ after.revisions target
  empty_iff : batch.items = [] ↔ before.revisions = after.revisions
  tells : ∀ change, .record change ∈ batch.items →
    change.beforeRevision = before.revisions (.record (change.source.getD change.path)) ∧
      change.afterRevision = after.revisions (.record change.path)
  renames : ∀ change, .record change ∈ batch.items → change.kind = .renamed →
    ∃ source, change.source = some source ∧ (source, change.path) ∈ requestedRenames request ∧
      (before.revisions (.record source) ≠ none ∧ after.revisions (.record source) = none) ∧
        before.revisions (.record change.path) = none ∧ after.revisions (.record change.path) ≠ none

theorem of_mapM_returns {α β : Type} {step : α → Diffing β} {items : List α} {results : List β}
    (returned : (items.mapM step).run = some (.ok results)) :
    (∀ item ∈ items, ∃ result ∈ results, (step item).run = some (.ok result)) ∧
      ∀ result ∈ results, ∃ item ∈ items, (step item).run = some (.ok result) := by
  induction items generalizing results with
  | nil =>
    obtain rfl := pure_returns.mp returned
    exact ⟨nofun, nofun⟩
  | cons item items ih =>
    rw [List.mapM_cons] at returned
    obtain ⟨first, stepped, returned⟩ := bind_returns.mp returned
    obtain ⟨rest, later, returned⟩ := bind_returns.mp returned
    obtain rfl := pure_returns.mp returned
    obtain ⟨images, sources⟩ := ih later
    refine ⟨List.forall_mem_cons.mpr ⟨⟨first, List.mem_cons_self, stepped⟩, fun other member => ?_⟩,
      List.forall_mem_cons.mpr ⟨⟨item, List.mem_cons_self, stepped⟩, fun other member => ?_⟩⟩
    · exact (images other member).imp fun _ facts => ⟨List.mem_cons_of_mem _ facts.1, facts.2⟩
    · exact (sources other member).imp fun _ facts => ⟨List.mem_cons_of_mem _ facts.1, facts.2⟩

/-- The change of a consumed rename. -/
def renamedChange (before after : Records) (pair : String × String) : RecordChange :=
  changeOf .renamed pair.2 (some pair.1) (before.get? pair.1) (after.get? pair.2)

/-- What the loop over the proven renames returns: they are different, and their records are gone
from the maps. -/
structure Consumed (pairs : List (String × String)) (before after : Records)
    (changes : List RecordChange) (restBefore restAfter : Records) : Prop where
  changes : changes = pairs.map (renamedChange before after)
  present : ∀ pair ∈ pairs, before.get? pair.1 ≠ none ∧ after.get? pair.2 ≠ none
  distinctSources : (pairs.map (·.1)).Nodup
  distinctTargets : (pairs.map (·.2)).Nodup
  before_ : ∀ path, restBefore.get? path = if path ∈ pairs.map (·.1) then none else before.get? path
  after_ : ∀ path, restAfter.get? path = if path ∈ pairs.map (·.2) then none else after.get? path

theorem get?_erase_ite {row : Type} {path : row → String} {table rest : Table path}
    {erased : String} {paths : List String}
    (same : ∀ at_, rest.get? at_ = if at_ ∈ paths then none else (table.erase erased).get? at_)
    (at_ : String) : rest.get? at_ = if at_ ∈ erased :: paths then none else table.get? at_ := by
  rw [same, Table.get?_erase]
  by_cases here : at_ = erased
  · simp [here]
  · simp [here]

variable {changes : List RecordChange}

/-- What the consumed renames leave of both snapshots. -/
theorem consumeRenames_returns {pairs : List (String × String)}
    {before after restBefore restAfter : Records}
    (canonical : ∀ pair ∈ pairs, collectionPath pair.2 = .ok pair.2)
    (returned : (consumeRenames pairs before after).run =
      some (.ok (changes, restBefore, restAfter))) :
    Consumed pairs before after changes restBefore restAfter := by
  induction pairs generalizing before after changes with
  | nil =>
    cases pure_returns.mp returned
    exact ⟨rfl, nofun, .nil, .nil, fun _ => rfl, fun _ => rfl⟩
  | cons pair pairs ih =>
    obtain ⟨source, target⟩ := pair
    obtain ⟨previous, there, returned⟩ := bind_returns.mp returned
    obtain ⟨current, appeared, returned⟩ := bind_returns.mp returned
    obtain ⟨change, recorded, returned⟩ := bind_returns.mp returned
    obtain ⟨⟨rest, leftBefore, leftAfter⟩, later, returned⟩ := bind_returns.mp returned
    cases pure_returns.mp returned
    rw [expect_returns] at there appeared
    have consumed := ih (fun pair member => canonical pair (List.mem_cons_of_mem _ member)) later
    have apart : ∀ pair ∈ pairs, (pair.1 ≠ source ∧ before.get? pair.1 ≠ none) ∧
        pair.2 ≠ target ∧ after.get? pair.2 ≠ none := by
      intro pair member
      have present := consumed.present pair member
      rw [Table.get?_erase, Table.get?_erase] at present
      split_ifs at present with sameSource sameTarget sameTarget
      · exact absurd rfl present.1
      · exact absurd rfl present.1
      · exact absurd rfl present.2
      · exact ⟨⟨sameSource, present.1⟩, sameTarget, present.2⟩
    obtain ⟨path, valid, -, -, rfl⟩ := recordChange_eq_ok_iff.mp (checked_returns.mp recorded)
    have here : current.path = target := Table.key_of_get? appeared
    rw [here, canonical _ List.mem_cons_self] at valid
    cases valid
    refine ⟨?_, ?_, ?_, ?_, get?_erase_ite consumed.before_, get?_erase_ite consumed.after_⟩
    · rw [List.map_cons, renamedChange, there, appeared, consumed.changes]
      refine congrArg _ (List.map_congr_left fun pair member => ?_)
      have away := apart pair member
      rw [renamedChange, Table.get?_erase_of_ne _ away.1.1, Table.get?_erase_of_ne _ away.2.1]
      rfl
    · intro pair member
      rcases List.mem_cons.mp member with rfl | member
      · exact ⟨by rw [there]; nofun, by rw [appeared]; nofun⟩
      · exact ⟨(apart pair member).1.2, (apart pair member).2.2⟩
    · refine List.nodup_cons.mpr ⟨fun member => ?_, consumed.distinctSources⟩
      obtain ⟨pair, inside, same⟩ := List.mem_map.mp member
      exact (apart pair inside).1.1 same
    · refine List.nodup_cons.mpr ⟨fun member => ?_, consumed.distinctTargets⟩
      obtain ⟨pair, inside, same⟩ := List.mem_map.mp member
      exact (apart pair inside).2.1 same

theorem mem_unitedPaths {row : Type} {path : row → String} {before after : Table path}
    {at_ : String} :
    at_ ∈ unitedPaths before after ↔ before.get? at_ ≠ none ∨ after.get? at_ ≠ none := by
  simp only [unitedPaths, List.mem_insertionSort, List.mem_dedup, List.mem_append, List.mem_map,
    ne_eq, Table.get?_eq_none_iff, not_forall, not_not, exists_prop]
  rfl

theorem mem_unitedPaths_of_differ {row : Type} {path : row → String} {before after : Table path}
    {at_ : String} {revision : row → String}
    (different : (before.get? at_).map revision ≠ (after.get? at_).map revision) :
    at_ ∈ unitedPaths before after := by
  rw [mem_unitedPaths]
  by_contra neither
  rw [not_or, not_not, not_not] at neither
  exact different (by rw [neither.1, neither.2])

/-- The kind of a change that is not a rename. -/
def unrenamedKind : Option SnapshotRecord → Option SnapshotRecord → RecordChangeKind
  | some _, some _ => .updated
  | some _, none => .deleted
  | none, _ => .created

variable {path : String}

theorem unrenamedChange_eq_ok {before after : Option SnapshotRecord}
    {found : Option RecordChange} (canonical : collectionPath path = .ok path)
    (compared : unrenamedChange path before after = .ok found) :
    found = if before.map (·.revision) = after.map (·.revision) then none
      else some (changeOf (unrenamedKind before after) path none before after) := by
  have recorded : ∀ kind, (recordChange kind path none before after).map some = .ok found →
      found = some (changeOf kind path none before after) := by
    intro kind mapped
    cases change : recordChange kind path none before after with
    | error error => rw [change] at mapped; cases mapped
    | ok made =>
      rw [change] at mapped
      obtain ⟨valid, same, -, -, rfl⟩ := recordChange_eq_ok_iff.mp change
      rw [canonical] at same
      cases same
      cases mapped
      rfl
  match before, after with
  | some before, some after =>
    by_cases same : before.revision = after.revision
    · rw [unrenamedChange, if_pos same] at compared
      rw [Option.map_some, Option.map_some, if_pos (congrArg some same)]
      exact (Except.ok.inj compared).symm
    · rw [unrenamedChange, if_neg same] at compared
      rw [Option.map_some, Option.map_some,
        if_neg fun revisions => same (Option.some.inj revisions)]
      exact recorded .updated compared
  | some before, none => exact recorded .deleted compared
  | none, some after => exact recorded .created compared
  | none, none => cases compared; rfl

/-- The change of a resource whose revisions differ. -/
def resourceChangeOf (path : String) (before after : Option SnapshotResource) : ResourceChange where
  kind := (after.or before).elim .file (·.kind.changeKind)
  path := path
  beforeRevision := before.map (·.revision)
  afterRevision := after.map (·.revision)

theorem resourceChange_returns {before after : Option SnapshotResource}
    {found : Option ResourceChange} (canonical : collectionPath path = .ok path)
    (compared : (resourceChange path before after).run = some (.ok found)) :
    found = if before.map (·.revision) = after.map (·.revision) then none
      else some (resourceChangeOf path before after) := by
  unfold resourceChange at compared
  split at compared
  next same => rw [if_pos same, pure_returns.mp compared]
  rename_i different
  rw [if_neg different]
  obtain ⟨resource, there, compared⟩ := bind_returns.mp compared
  obtain ⟨found, valid, compared⟩ := bind_returns.mp compared
  obtain ⟨beforeRevision, beforeValid, compared⟩ := bind_returns.mp compared
  obtain ⟨afterRevision, afterValid, compared⟩ := bind_returns.mp compared
  cases pure_returns.mp compared
  rw [expect_returns] at there
  rw [checked_returns, changePath_eq_ok_iff, canonical] at valid
  rw [checked_returns, optionalRevision_eq_ok_iff] at beforeValid afterValid
  cases valid
  obtain ⟨⟨rfl, -⟩, rfl, -⟩ := beforeValid, afterValid
  rw [resourceChangeOf, there]
  rfl

variable {before after : CollectionSnapshot} {request : Option OperationRequest}
  {batch : ChangeBatch}

/-- The records of a snapshot by their paths. -/
def CollectionSnapshot.recordsByPath (snapshot : CollectionSnapshot) : Records :=
  .collect snapshot.records

/-- The resources of a snapshot by their paths. -/
def CollectionSnapshot.resourcesByPath (snapshot : CollectionSnapshot) : Resources :=
  .collect snapshot.resources

/-- The renames that a comparison proves. -/
def provenPairs (before after : CollectionSnapshot) (request : Option OperationRequest) :
    List (String × String) :=
  provenRequestedRenames request before.recordsByPath after.recordsByPath

/-- The change of a record that is in no rename. -/
def keptChange (before after : CollectionSnapshot) (path : String) : RecordChange :=
  changeOf
    (unrenamedKind (before.recordsByPath.get? path) (after.recordsByPath.get? path)) path none
    (before.recordsByPath.get? path) (after.recordsByPath.get? path)

/-- The items of the batch of a comparison. -/
structure Listed (before after : CollectionSnapshot) (request : Option OperationRequest)
    (batch : ChangeBatch) : Prop where
  distinctSources : ((provenPairs before after request).map (·.1)).Nodup
  distinctTargets : ((provenPairs before after request).map (·.2)).Nodup
  record_iff : ∀ change, .record change ∈ batch.items ↔
    (∃ pair ∈ provenPairs before after request,
      change = renamedChange before.recordsByPath after.recordsByPath pair) ∨
    ∃ path, (path ∉ (provenPairs before after request).map (·.1) ∧
      path ∉ (provenPairs before after request).map (·.2)) ∧
      before.revisions (.record path) ≠ after.revisions (.record path) ∧
        change = keptChange before after path
  resource_iff : ∀ change, .resource change ∈ batch.items ↔
    ∃ path, before.revisions (.resource path) ≠ after.revisions (.resource path) ∧
      change = resourceChangeOf path (before.resourcesByPath.get? path)
        (after.resourcesByPath.get? path)

variable {change : CanonicalChange}

theorem mem_items_of_new {items : List CanonicalChange} (made : ChangeBatch.new items = .ok batch)
    : change ∈ batch.items ↔ change ∈ items := by
  unfold ChangeBatch.new at made
  dsimp only at made
  split at made
  next => cases made; exact List.mem_insertionSort _
  next => cases made

theorem canonical_of_get? {row : Type} {path : row → String} {rows : List row}
    (valid : ∀ item ∈ rows, collectionPath (path item) = .ok (path item)) {at_ : String}
    (there : (.collect rows : Table path).get? at_ ≠ none) : collectionPath at_ = .ok at_ := by
  obtain ⟨item, found⟩ := Option.ne_none_iff_exists'.mp there
  have here : path item = at_ := Table.key_of_get? found
  rw [Table.get?_collect] at found
  exact here ▸ valid item (List.mem_reverse.mp (List.mem_of_find?_eq_some found))

variable {restBefore restAfter : Records}

theorem rest_of_path (consumed : Consumed (provenPairs before after request) before.recordsByPath
      after.recordsByPath changes restBefore restAfter) (path : String) :
    if path ∈ (provenPairs before after request).map (·.1) ∨
        path ∈ (provenPairs before after request).map (·.2) then
      restBefore.get? path = none ∧ restAfter.get? path = none
    else restBefore.get? path = before.recordsByPath.get? path ∧
      restAfter.get? path = after.recordsByPath.get? path := by
  have source : path ∈ (provenPairs before after request).map (·.1) →
      after.recordsByPath.get? path = none := by
    intro member
    obtain ⟨pair, proven, rfl⟩ := List.mem_map.mp member
    exact (of_mem_provenRequestedRenames proven).2.2.1.2
  have target : path ∈ (provenPairs before after request).map (·.2) →
      before.recordsByPath.get? path = none := by
    intro member
    obtain ⟨pair, proven, rfl⟩ := List.mem_map.mp member
    exact (of_mem_provenRequestedRenames proven).2.2.2.1
  rw [consumed.before_, consumed.after_]
  by_cases isSource : path ∈ (provenPairs before after request).map (·.1)
  · simp [isSource, source isSource]
  · by_cases isTarget : path ∈ (provenPairs before after request).map (·.2)
    · simp [isTarget, target isTarget]
    · simp [isSource, isTarget]

/-- The result for a path that is left: the kept change, when the path is in no rename and has
different revisions. -/
theorem compared_eq_some_iff (beforeValid : before.Valid) (afterValid : after.Valid)
    (consumed : Consumed (provenPairs before after request) before.recordsByPath
      after.recordsByPath changes restBefore restAfter)
    (left : path ∈ unitedPaths restBefore restAfter) {found : Option RecordChange}
    (compared : unrenamedChange path (restBefore.get? path) (restAfter.get? path) = .ok found)
    {change : RecordChange} :
    found = some change ↔ (path ∉ (provenPairs before after request).map (·.1) ∧
      path ∉ (provenPairs before after request).map (·.2)) ∧
        before.revisions (.record path) ≠ after.revisions (.record path) ∧
          change = keptChange before after path := by
  have rest := rest_of_path consumed path
  rw [mem_unitedPaths] at left
  split_ifs at rest with renamed
  · rw [rest.1, rest.2] at left
    exact absurd left (by simp)
  · rw [rest.1, rest.2] at left compared
    have canonical : collectionPath path = .ok path :=
      left.elim (canonical_of_get? beforeValid.records) (canonical_of_get? afterValid.records)
    rw [unrenamedChange_eq_ok canonical compared, and_iff_right (not_or.mp renamed)]
    split_ifs with same
    · exact iff_of_false nofun fun facts => facts.1 same
    · exact ⟨fun made => ⟨same, (Option.some.inj made).symm⟩, fun facts => congrArg _ facts.2.symm⟩

theorem mem_compared (beforeValid : before.Valid) (afterValid : after.Valid)
    (consumed : Consumed (provenPairs before after request) before.recordsByPath
      after.recordsByPath changes restBefore restAfter)
    {compared : List (Option RecordChange)}
    (all : (unitedPaths restBefore restAfter).mapM (fun path =>
      unrenamedChange path (restBefore.get? path) (restAfter.get? path)) = .ok compared)
    {change : RecordChange} :
    some change ∈ compared ↔
      ∃ path, (path ∉ (provenPairs before after request).map (·.1) ∧
        path ∉ (provenPairs before after request).map (·.2)) ∧
        before.revisions (.record path) ≠ after.revisions (.record path) ∧
          change = keptChange before after path := by
  constructor
  · intro member
    obtain ⟨path, left, made⟩ := exists_item_of_mapM_ok all member
    exact ⟨path, (compared_eq_some_iff beforeValid afterValid consumed left made).mp rfl⟩
  · rintro ⟨path, unrenamed, different, rfl⟩
    have left : path ∈ unitedPaths restBefore restAfter := by
      have rest := rest_of_path consumed path
      rw [if_neg (not_or.mpr unrenamed)] at rest
      refine mem_unitedPaths_of_differ (?_ : Option.map SnapshotRecord.revision _ ≠ _)
      rw [rest.1, rest.2]
      exact different
    obtain ⟨found, member, made⟩ := exists_image_of_mapM_ok all left
    have same := (compared_eq_some_iff beforeValid afterValid consumed left made).mpr
      ⟨unrenamed, different, rfl⟩
    exact same ▸ member

theorem mem_resources (beforeValid : before.Valid) (afterValid : after.Valid)
    {compared : List (Option ResourceChange)}
    (all : ((unitedPaths before.resourcesByPath after.resourcesByPath).mapM fun path =>
      resourceChange path (before.resourcesByPath.get? path)
        (after.resourcesByPath.get? path)).run = some (.ok compared)) {change : ResourceChange} :
    some change ∈ compared ↔
      ∃ path, before.revisions (.resource path) ≠ after.revisions (.resource path) ∧
        change = resourceChangeOf path (before.resourcesByPath.get? path)
          (after.resourcesByPath.get? path) := by
  have step : ∀ path ∈ unitedPaths before.resourcesByPath after.resourcesByPath, ∀ found,
      (resourceChange path (before.resourcesByPath.get? path)
        (after.resourcesByPath.get? path)).run = some (.ok found) →
      found = if before.revisions (.resource path) = after.revisions (.resource path) then none
        else some (resourceChangeOf path (before.resourcesByPath.get? path)
          (after.resourcesByPath.get? path)) := by
    intro path left found made
    have canonical : collectionPath path = .ok path := (mem_unitedPaths.mp left).elim
      (canonical_of_get? beforeValid.resources) (canonical_of_get? afterValid.resources)
    exact resourceChange_returns canonical made
  constructor
  · intro member
    obtain ⟨path, left, made⟩ := (of_mapM_returns all).2 _ member
    have same := step path left _ made
    split_ifs at same with unchanged
    exact ⟨path, unchanged, Option.some.inj same⟩
  · rintro ⟨path, different, rfl⟩
    have left : path ∈ unitedPaths before.resourcesByPath after.resourcesByPath :=
      mem_unitedPaths_of_differ different
    obtain ⟨found, member, made⟩ := (of_mapM_returns all).1 _ left
    have same := step path left _ made
    rw [if_neg different] at same
    exact same ▸ member

theorem listed_of_returns (beforeValid : before.Valid) (afterValid : after.Valid)
    (returned : (canonicalChanges before after request).run = some (.ok batch)) :
    Listed before after request batch := by
  obtain ⟨⟨changes, restBefore, restAfter⟩, consumed, returned⟩ := bind_returns.mp returned
  obtain ⟨records, recordsCompared, returned⟩ := bind_returns.mp returned
  obtain ⟨resources, resourcesCompared, returned⟩ := bind_returns.mp returned
  have consumed : Consumed (provenPairs before after request) before.recordsByPath
      after.recordsByPath changes restBefore restAfter :=
    consumeRenames_returns (fun pair member => (of_mem_provenRequestedRenames member).2.1) consumed
  have items : ∀ change, change ∈ batch.items ↔ _ := fun change =>
    mem_items_of_new (checked_returns.mp returned)
  refine ⟨consumed.distinctSources, consumed.distinctTargets, fun change => ?_, fun change => ?_⟩
  · rw [items, ← mem_compared beforeValid afterValid consumed (checked_returns.mp recordsCompared),
      consumed.changes]
    simp [List.reduceOption_mem_iff, eq_comm]
  · rw [items, ← mem_resources beforeValid afterValid resourcesCompared]
    simp [List.reduceOption_mem_iff]

theorem differ_of_renamed {pair : String × String}
    (proven : pair ∈ provenPairs before after request) :
    (before.revisions (.record pair.1) ≠ none ∧ after.revisions (.record pair.1) = none) ∧
      before.revisions (.record pair.2) = none ∧ after.revisions (.record pair.2) ≠ none := by
  have facts := (of_mem_provenRequestedRenames proven).2.2
  simpa only [CollectionSnapshot.revisions, CollectionSnapshot.recordsByPath, ne_eq,
    Option.map_eq_none_iff] using facts

/-- A change writes the new revisions of its targets, which differ from the old ones. -/
structure Writes (before after : CollectionSnapshot) (change : CanonicalChange) : Prop where
  applied : ∀ revisions target, applyChange change revisions target =
    if target ∈ targets change then after.revisions target else revisions target
  differ : ∀ target ∈ targets change, before.revisions target ≠ after.revisions target

theorem writes_renamed {pair : String × String} (proven : pair ∈ provenPairs before after request) :
    Writes before after
      (.record (renamedChange before.recordsByPath after.recordsByPath pair)) := by
  have facts := differ_of_renamed proven
  have about : targets (.record (renamedChange before.recordsByPath after.recordsByPath pair)) =
      [.record pair.2, .record pair.1] := rfl
  have shape : ∀ revisions, applyChange
      (.record (renamedChange before.recordsByPath after.recordsByPath pair)) revisions =
        Function.update (Function.update revisions (.record pair.1) none) (.record pair.2)
          (after.revisions (.record pair.2)) := fun _ => rfl
  constructor
  · intro revisions target
    rw [shape, about, ← facts.1.2, Function.update_apply, Function.update_apply]
    by_cases isTarget : target = .record pair.2
    · simp [isTarget]
    · by_cases isSource : target = .record pair.1
      · rw [if_neg isTarget, if_pos isSource, if_pos (by simp [isSource]), isSource]
      · simp [isTarget, isSource]
  · rw [about]
    refine List.forall_mem_cons.mpr ⟨fun same => ?_, List.forall_mem_singleton.mpr fun same => ?_⟩
    · exact facts.2.2 (same ▸ facts.2.1)
    · exact facts.1.1 (same.trans facts.1.2)

theorem writes_of_update {target : Target} (about : targets change = [target])
    (shape : ∀ revisions, applyChange change revisions =
      Function.update revisions target (after.revisions target))
    (different : before.revisions target ≠ after.revisions target) :
    Writes before after change := by
  constructor
  · intro revisions other
    rw [shape, about, Function.update_apply]
    by_cases here : other = target
    · simp [here]
    · simp [here]
  · rw [about]
    exact List.forall_mem_singleton.mpr different

theorem writes_kept (different : before.revisions (.record path) ≠ after.revisions (.record path)) :
    Writes before after (.record (keptChange before after path)) := by
  have about : targets (.record (keptChange before after path)) = [.record path] := rfl
  refine writes_of_update about (fun revisions => ?_) different
  have revision : after.revisions (.record path) =
    (after.recordsByPath.get? path).map SnapshotRecord.revision := rfl
  rw [revision, keptChange]
  cases before.recordsByPath.get? path with
  | none | some _ => cases after.recordsByPath.get? path <;> rfl

theorem writes_resource
    (different : before.revisions (.resource path) ≠ after.revisions (.resource path)) :
    Writes before after (.resource (resourceChangeOf path (before.resourcesByPath.get? path)
      (after.resourcesByPath.get? path))) :=
  writes_of_update rfl (fun _ => rfl) different

theorem Listed.writes (listed : Listed before after request batch)
    (member : change ∈ batch.items) : Writes before after change := by
  cases change with
  | record change =>
    rcases (listed.record_iff change).mp member with
      ⟨pair, proven, rfl⟩ | ⟨path, -, different, rfl⟩
    · exact writes_renamed proven
    · exact writes_kept different
  | resource change =>
    obtain ⟨path, different, rfl⟩ := (listed.resource_iff change).mp member
    exact writes_resource different

theorem foldl_applyChange {changes : List CanonicalChange}
    (writes : ∀ change ∈ changes, Writes before after change) (revisions : Revisions)
    (target : Target) :
    changes.foldl (fun revisions change => applyChange change revisions) revisions target =
      if ∃ change ∈ changes, target ∈ targets change then after.revisions target
      else revisions target := by
  induction changes generalizing revisions with
  | nil => simp
  | cons change changes ih =>
    rw [List.foldl_cons, ih fun change member => writes change (List.mem_cons_of_mem _ member),
      (writes change List.mem_cons_self).applied]
    by_cases here : target ∈ targets change
    · simp [here]
    · simp [here]

theorem Listed.exists_change (listed : Listed before after request batch) {target : Target}
    (different : before.revisions target ≠ after.revisions target) :
    ∃ change ∈ batch.items, target ∈ targets change := by
  cases target with
  | resource path =>
    exact ⟨_, (listed.resource_iff _).mpr ⟨path, different, rfl⟩, List.mem_singleton.mpr rfl⟩
  | record path =>
    by_cases isSource : path ∈ (provenPairs before after request).map (·.1)
    · obtain ⟨pair, proven, rfl⟩ := List.mem_map.mp isSource
      exact ⟨_, (listed.record_iff _).mpr (.inl ⟨pair, proven, rfl⟩),
        List.mem_cons_of_mem _ (List.mem_singleton.mpr rfl)⟩
    · by_cases isTarget : path ∈ (provenPairs before after request).map (·.2)
      · obtain ⟨pair, proven, rfl⟩ := List.mem_map.mp isTarget
        exact ⟨_, (listed.record_iff _).mpr (.inl ⟨pair, proven, rfl⟩), List.mem_cons_self⟩
      · exact ⟨_, (listed.record_iff _).mpr (.inr ⟨path, ⟨isSource, isTarget⟩, different, rfl⟩),
          List.mem_cons_self⟩

/-- No record is the target of two changes. -/
theorem Listed.record_unique (listed : Listed before after request batch)
    {first second : RecordChange} (firstMember : .record first ∈ batch.items)
    (secondMember : .record second ∈ batch.items)
    (firstAbout : Target.record path ∈ targets (.record first))
    (secondAbout : Target.record path ∈ targets (.record second)) : first = second := by
  have ofRenamed : ∀ pair, Target.record path ∈
      targets (.record (renamedChange before.recordsByPath after.recordsByPath pair)) →
      path = pair.2 ∨ path = pair.1 := by
    intro pair about
    change Target.record path ∈ [.record pair.2, .record pair.1] at about
    simpa using about
  have ofKept : ∀ other, Target.record path ∈ targets (.record (keptChange before after other)) →
      path = other := by
    intro other about
    exact Target.record.inj (List.mem_singleton.mp about)
  -- a renamed path is in no kept change
  have apart : ∀ pair ∈ provenPairs before after request, path = pair.2 ∨ path = pair.1 →
      ¬(path ∉ (provenPairs before after request).map (·.1) ∧
        path ∉ (provenPairs before after request).map (·.2)) := by
    rintro pair proven (rfl | rfl) unrenamed
    · exact unrenamed.2 (List.mem_map_of_mem proven)
    · exact unrenamed.1 (List.mem_map_of_mem proven)
  rcases (listed.record_iff first).mp firstMember with
    ⟨pair, proven, rfl⟩ | ⟨path, unrenamed, -, rfl⟩
  · rcases (listed.record_iff second).mp secondMember with
      ⟨other, otherProven, rfl⟩ | ⟨path, unrenamed, -, rfl⟩
    · have facts := differ_of_renamed proven
      have otherFacts := differ_of_renamed otherProven
      rcases ofRenamed pair firstAbout with rfl | rfl
      · rcases ofRenamed other secondAbout with same | same
        · rw [List.inj_on_of_nodup_map listed.distinctTargets proven otherProven same]
        · exact absurd (same ▸ facts.2.1) otherFacts.1.1
      · rcases ofRenamed other secondAbout with same | same
        · exact absurd (same ▸ otherFacts.2.1) facts.1.1
        · rw [List.inj_on_of_nodup_map listed.distinctSources proven otherProven same]
    · obtain rfl := ofKept _ secondAbout
      exact absurd unrenamed (apart pair proven (ofRenamed pair firstAbout))
  · obtain rfl := ofKept _ firstAbout
    rcases (listed.record_iff second).mp secondMember with
      ⟨pair, proven, rfl⟩ | ⟨path, -, -, rfl⟩
    · exact absurd unrenamed (apart pair proven (ofRenamed pair secondAbout))
    · rw [ofKept _ secondAbout]

theorem Listed.unique (listed : Listed before after request batch)
    {first second : CanonicalChange} (firstMember : first ∈ batch.items)
    (secondMember : second ∈ batch.items) {target : Target} (firstAbout : target ∈ targets first)
    (secondAbout : target ∈ targets second) : first = second := by
  have records : ∀ change : RecordChange, ∀ path,
      Target.resource path ∉ targets (.record change) := by
    intro change path about
    simp [targets] at about
  cases first with
  | record first =>
    cases target with
    | resource path => exact absurd firstAbout (records first path)
    | record path =>
      cases second with
      | record second => rw [listed.record_unique firstMember secondMember firstAbout secondAbout]
      | resource second => cases List.mem_singleton.mp secondAbout
  | resource first =>
    obtain rfl := List.mem_singleton.mp firstAbout
    cases second with
    | record second => exact absurd secondAbout (records second _)
    | resource second =>
      have same := Target.resource.inj (List.mem_singleton.mp secondAbout)
      obtain ⟨path, -, rfl⟩ := (listed.resource_iff first).mp firstMember
      obtain ⟨other, -, rfl⟩ := (listed.resource_iff second).mp secondMember
      have paths : path = other := same
      rw [paths]

/-- The changes that are returned for two snapshots of valid paths are an exact difference. -/
theorem canonicalChanges_exact (beforeValid : before.Valid) (afterValid : after.Valid)
    (returned : (canonicalChanges before after request).run = some (.ok batch)) :
    ExactDiff before after request batch := by
  have listed := listed_of_returns beforeValid afterValid returned
  have writes := fun change (member : change ∈ batch.items) => listed.writes member
  refine ⟨?_, ?_, fun change member => (writes change member).differ, ?_, ?_, ?_⟩
  · funext target
    rw [foldl_applyChange writes]
    split_ifs with changed
    · rfl
    · by_contra different
      exact changed (listed.exists_change different)
  · intro target different
    obtain ⟨change, member, about⟩ := listed.exists_change different
    exact ⟨change, ⟨member, about⟩, fun other facts =>
      listed.unique facts.1 member facts.2 about⟩
  · constructor
    · intro empty
      funext target
      by_contra different
      obtain ⟨change, member, -⟩ := listed.exists_change different
      rw [empty] at member
      cases member
    · intro same
      refine List.eq_nil_iff_forall_not_mem.mpr fun change member => ?_
      have first : ∃ target, target ∈ targets change := by
        cases change with
        | record change | resource change => exact ⟨_, List.mem_cons_self⟩
      obtain ⟨target, about⟩ := first
      exact (writes change member).differ target about (congrFun same target)
  · intro change member
    rcases (listed.record_iff change).mp member with ⟨pair, -, rfl⟩ | ⟨path, -, -, rfl⟩
    · exact ⟨rfl, rfl⟩
    · exact ⟨rfl, rfl⟩
  · intro change member renamed
    rcases (listed.record_iff change).mp member with ⟨pair, proven, rfl⟩ | ⟨path, -, -, rfl⟩
    · exact ⟨pair.1, rfl, (List.mem_filter.mp proven).1, differ_of_renamed proven⟩
    · unfold keptChange at renamed
      revert renamed
      cases before.recordsByPath.get? path with
      | none => nofun
      | some _ => cases after.recordsByPath.get? path <;> nofun

/-- A collection in which one record links to another. -/
def linkedSnapshot (configuration target link linked : String) : CollectionSnapshot where
  resources := [⟨"mdbase.yaml", .configuration, configuration⟩]
  records := [plainRecord "link.md" link, plainRecord target linked]

/-- A record is renamed, and the one that links to it is rewritten. -/
theorem canonicalChanges_exact_rename :
    ∃ batch, ExactDiff (linkedSnapshot "sha256:1" "old.md" "sha256:link1" "sha256:old")
      (linkedSnapshot "sha256:2" "new.md" "sha256:link2" "sha256:new")
      (some ⟨.rename, .object [("from", .string "old.md"), ("to", .string "new.md")]⟩) batch := by
  have returns : (canonicalChanges
      (linkedSnapshot "sha256:1" "old.md" "sha256:link1" "sha256:old")
      (linkedSnapshot "sha256:2" "new.md" "sha256:link2" "sha256:new")
      (some ⟨.rename, .object [("from", .string "old.md"), ("to", .string "new.md")]⟩)).run.any
        (fun result => result.toBool) = true := by
    decide +kernel
  obtain ⟨result, ran, succeeded⟩ := (Option.any_eq_true _ _).mp returns
  cases result with
  | error error => cases succeeded
  | ok batch =>
    refine ⟨batch, canonicalChanges_exact ⟨?_, ?_⟩ ⟨?_, ?_⟩ ran⟩
    all_goals decide +kernel

end Mdbase.Provider.Diff
