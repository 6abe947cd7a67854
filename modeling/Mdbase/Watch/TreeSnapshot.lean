import Mdbase.Library.KeyedMap
import Mdbase.Provider.FieldChanges
import Mdbase.Watch.FullLoad

/-!
# Snapshots of the watcher

The watcher keeps the resources and the parsed records of a collection, and knows which records
are invalid. It replaces the snapshot by that of a full load, or reads single records again, and
reports how the records and the resources have changed.
-/

namespace Mdbase.Watch

open Library
open Mdbase.Runtime (Value)

/-- `CollectionSnapshotResourceKind`. -/
inductive ResourceKind where
  | configuration
  | type
  | contract
  | schema
  | view
  | lock
  deriving DecidableEq

/-- The kind of a path that is one of a resource: what has no other kind is a view. -/
def resourceKind (settings : PathSettings) (path : Text) : ResourceKind :=
  if path = configurationPath then .configuration
  else if path ∈ ["mdbase.lock.yaml".toList, "mdbase.provisions.yaml".toList] then .lock
  else if pathStartsWith settings.typesFolder path &&
      pathExtension path ∈ [some "md".toList, some "yaml".toList, some "yml".toList] then .type
  else if pathStartsWith settings.contractsFolder path &&
      pathExtension path = some "md".toList then .contract
  else if pathExtension path = some "json".toList && isSchemaResourcePath path then .schema
  else .view

/-- `ResourceState`. -/
structure ResourceState where
  kind : ResourceKind
  revision : String
  deriving DecidableEq

/-- `RecordState`. -/
structure RecordState where
  revision : String
  rawFrontmatter : List (String × Value)
  effectiveFrontmatter : Value
  types : List String
  body : String
  deriving DecidableEq

/-- `RecordLoadOutcome`: what is observed of the file of a record. -/
inductive Observation where
  | parsed (state : RecordState)
  | invalid
  deriving DecidableEq

/-- The state of a record that was parsed. -/
def Observation.state? : Observation → Option RecordState
  | .parsed state => some state
  | .invalid => none

/-- `Snapshot`. -/
structure TreeSnapshot where
  settings : PathSettings
  resources : KeyedMap Text ResourceState
  records : KeyedMap Text RecordState
  invalidRecords : KeyedMap Text Unit

/-- What the payload of an event says of a record. -/
structure RecordPayload where
  before : Option Value
  after : Option Value
  rawBefore : Option (List (String × Value))
  rawAfter : Option (List (String × Value))
  bodyChanged : Bool
  changedFields : Option (List String)
  previousRevision : Option String
  revision : Option String
  previousTypes : Option (List String)
  types : Option (List String)
  deriving DecidableEq

/-- `PendingEvent`. -/
inductive PendingEvent where
  | resourceChanged (kind : ResourceKind) (path : Text) (previousRevision revision : Option String)
  | recordRenamed (source target : Text) (payload : RecordPayload)
  | recordDeleted (path : Text) (payload : RecordPayload)
  | recordCreated (path : Text) (payload : RecordPayload)
  | recordModified (path : Text) (payload : RecordPayload)
  deriving DecidableEq

/-- `changed_fields`. -/
def RecordState.changedFields (previous current : RecordState) : List String :=
  let field (state : RecordState) (key : String) : Option Value :=
    (state.rawFrontmatter.find? fun member => member.1 = key).map (·.2)
  let keys := (previous.rawFrontmatter ++ current.rawFrontmatter).map (·.1)
  (keys.dedup.insertionSort (· ≤ ·)).filter fun key => field previous key ≠ field current key

/-- `mdbase.record.renamed`. -/
def renamedEvent (source target : Text) (previous current : RecordState) : PendingEvent :=
  .recordRenamed source target
    { before := some previous.effectiveFrontmatter
      after := some current.effectiveFrontmatter
      rawBefore := some previous.rawFrontmatter
      rawAfter := some current.rawFrontmatter
      bodyChanged := previous.body ≠ current.body
      changedFields := none
      previousRevision := some previous.revision
      revision := some current.revision
      previousTypes := some previous.types
      types := some current.types }

/-- `mdbase.record.deleted`. -/
def deletedEvent (path : Text) (previous : RecordState) : PendingEvent :=
  .recordDeleted path
    { before := some previous.effectiveFrontmatter
      after := none
      rawBefore := some previous.rawFrontmatter
      rawAfter := none
      bodyChanged := true
      changedFields := none
      previousRevision := some previous.revision
      revision := none
      previousTypes := none
      types := some previous.types }

/-- `mdbase.record.created`. -/
def createdEvent (path : Text) (current : RecordState) : PendingEvent :=
  .recordCreated path
    { before := none
      after := some current.effectiveFrontmatter
      rawBefore := none
      rawAfter := some current.rawFrontmatter
      bodyChanged := true
      changedFields := some (current.rawFrontmatter.map (·.1))
      previousRevision := none
      revision := some current.revision
      previousTypes := none
      types := some current.types }

/-- `mdbase.record.modified`. -/
def modifiedEvent (path : Text) (previous current : RecordState) : PendingEvent :=
  .recordModified path
    { before := some previous.effectiveFrontmatter
      after := some current.effectiveFrontmatter
      rawBefore := some previous.rawFrontmatter
      rawAfter := some current.rawFrontmatter
      bodyChanged := previous.body ≠ current.body
      changedFields := some (previous.changedFields current)
      previousRevision := some previous.revision
      revision := some current.revision
      previousTypes := some previous.types
      types := some current.types }

/-- The bindings of a map whose keys the other one does not bind. -/
def missingFrom (other map : KeyedMap Text RecordState) : List (Text × RecordState) :=
  map.entries.filter fun binding => (other.lookup binding.1).isNone

/-- How many records have a revision. -/
def revisionCount (records : List (Text × RecordState)) (revision : String) : Nat :=
  records.countP fun binding => binding.2.revision = revision

/-- `record_events`. A deleted and a created record are one that was renamed when no other one
of either has its revision. -/
def recordEvents (before after : KeyedMap Text RecordState) : List PendingEvent :=
  let deleted := missingFrom after before
  let created := missingFrom before after
  let isRenamed (binding : Text × RecordState) : Bool :=
    revisionCount deleted binding.2.revision = 1 && revisionCount created binding.2.revision = 1
  (deleted.filter isRenamed).filterMap (fun binding =>
      (created.find? fun other => other.2.revision = binding.2.revision).map
        fun other => renamedEvent binding.1 other.1 binding.2 other.2) ++
    (deleted.filter (!isRenamed ·)).map (fun binding => deletedEvent binding.1 binding.2) ++
    (created.filter (!isRenamed ·)).map (fun binding => createdEvent binding.1 binding.2) ++
    before.entries.filterMap fun binding =>
      ((after.lookup binding.1).filter fun current => binding.2.revision ≠ current.revision).map
        (modifiedEvent binding.1 binding.2)

namespace TreeSnapshot

/-- The resource events of `diff`. -/
def resourceEvents (before after : KeyedMap Text ResourceState) : List PendingEvent :=
  ((before.keys ++ after.keys).dedup.insertionSort (· ≤ ·)).filterMap fun path =>
    if before.lookup path = after.lookup path then none
    else
      ((after.lookup path).or (before.lookup path)).map fun state =>
        .resourceChanged state.kind path ((before.lookup path).map (·.revision))
          ((after.lookup path).map (·.revision))

/-- `diff`. -/
def diff (snapshot next : TreeSnapshot) : List PendingEvent :=
  resourceEvents snapshot.resources next.resources ++ recordEvents snapshot.records next.records

/-- `retain_classified_invalid`. -/
def retainClassifiedInvalid (snapshot previous : TreeSnapshot) : TreeSnapshot :=
  { snapshot with
    records := snapshot.invalidRecords.keys.foldl
      (fun records path => (previous.records.lookup path).elim records (records.store path))
      snapshot.records }

end TreeSnapshot

variable (revision : Text → String)

/-- `Snapshot::load`, of what a full load observes. A view among the records is a resource. -/
def FullLoad.snapshot (load : FullLoad Observation) : TreeSnapshot :=
  let paths := load.records.map (·.1)
  let observed (path : Text) : Option Observation :=
    if path ∈ load.views then none else at? load.records path
  let viewed (path : Text) : Option RecordState :=
    if path ∈ load.views then (at? load.records path).bind Observation.state? else none
  { settings := load.settings
    resources := KeyedMap.tabulate (paths ++ load.resources.map (·.1)) fun path =>
      ((viewed path).map fun state => { kind := .view, revision := state.revision }).or
        ((at? load.resources path).map fun document =>
          { kind := resourceKind load.settings path, revision := revision document })
    records := KeyedMap.tabulate paths fun path => (observed path).bind Observation.state?
    invalidRecords := KeyedMap.tabulate paths fun path =>
      if observed path = some .invalid then some () else none }

/-- `is_in_nested_collection`. -/
def Tree.isInNestedCollection (tree : Tree) (path : Text) : Bool :=
  (ancestors path).any fun folder => tree.node (configurationOf folder) ≠ .absent

/-- Does `load_record` look for a record at a path, with the settings of the opened collection?
It asks for nested collections in the tree. -/
def PathSettings.admits (settings : PathSettings) (tree : Tree) (path : Text) : Bool :=
  !settings.isExcluded path && !tree.isInNestedCollection path && settings.isValidExtension path

/-- `load_record`, with the opened collection. Nothing stands for an absent record. -/
def Reading.loadRecord (reading : Reading Observation) (opened : FullLoad Observation)
    (tree : Tree) (path : Text) : Option Observation :=
  if opened.settings.admits tree path then
    (tree.node path).document?.map (reading.observe (at? opened.resources) path)
  else none

namespace TreeSnapshot

/-- Replace what is known of one record. -/
def replace (snapshot : TreeSnapshot) (path : Text) : Option Observation → TreeSnapshot
  | some (.parsed state) =>
    { snapshot with
      invalidRecords := snapshot.invalidRecords.remove path
      records := snapshot.records.store path state }
  | some .invalid => { snapshot with invalidRecords := snapshot.invalidRecords.store path () }
  | none =>
    { snapshot with
      invalidRecords := snapshot.invalidRecords.remove path
      records := snapshot.records.remove path }

/-- `refresh_paths`, with the opened collection. -/
def refreshPaths (snapshot : TreeSnapshot) (reading : Reading Observation)
    (opened : FullLoad Observation) (tree : Tree) (paths : List Text) :
    TreeSnapshot × List PendingEvent :=
  let next := paths.foldl
    (fun snapshot path => snapshot.replace path (reading.loadRecord opened tree path)) snapshot
  (next, recordEvents (snapshot.records.restrict (· ∈ paths)) (next.records.restrict (· ∈ paths)))

end TreeSnapshot

end Mdbase.Watch
