import Mdbase.Library.Table
import Mdbase.Links.CollectionPath
import Mdbase.Provider.FieldPointers
import Mdbase.Transactions.Outcome

/-!
# Changes between two snapshots

The changes of a collection are read off two snapshots. A record that vanished and one that appeared
are a rename when the request asked for it; everything else is compared path by path. The renames
take their records out of the two maps one after the other.
-/

namespace Mdbase.Provider.Diff

open Library Links Transactions
open Mdbase.Runtime (Value)

/-- `CollectionSnapshotResourceKind`. -/
inductive SnapshotResourceKind where
  | configuration
  | lock
  | contract
  | schema
  | type
  | view
  deriving DecidableEq

/-- `CollectionSnapshotResource`, as far as the comparison reads it. -/
structure SnapshotResource where
  path : String
  kind : SnapshotResourceKind
  revision : String
  deriving DecidableEq

/-- `CollectionSnapshotRecord`, as far as the comparison reads it. -/
structure SnapshotRecord where
  path : String
  revision : String
  frontmatter : List (String × Value)
  body : String
  types : List String
  deriving DecidableEq

/-- `CollectionSnapshot`, as far as the comparison reads it. -/
structure CollectionSnapshot where
  resources : List SnapshotResource
  records : List SnapshotRecord
  deriving DecidableEq

/-- `OperationRequest`, as far as the comparison reads it. -/
structure OperationRequest where
  operation : OperationKind
  input : Value
  deriving DecidableEq

/-- The records of a snapshot by their paths. -/
abbrev Records := Table SnapshotRecord.path

/-- The resources of a snapshot by their paths. -/
abbrev Resources := Table SnapshotResource.path

/-- The text of a `CollectionPathError`. -/
def pathMessage : CollectionPathError → String
  | .empty => "collection path must not be empty"
  | .absolute => "collection path must be relative"
  | .traversal => "collection path must not contain '..' traversal"
  | .currentDirectory => "collection path must not contain '.' components"
  | .emptyComponent => "collection path must not contain empty components"
  | .nullByte => "collection path must not contain a NUL byte"
  | .nonUnicode => "collection path must be valid Unicode"
  | .platformUnsafe => "collection path contains a platform-reserved component"

/-- `collection_path`. -/
def changePath (path : String) : Except ProviderError String :=
  (collectionPath path).mapError fun error => .invalidChangeSet (pathMessage error)

/-- `revision`. -/
def changeRevision (value : String) : Except ProviderError String :=
  if value = "" then
    .error (.invalidChangeSet
      "could not decode canonical operation result: revision must not be empty")
  else .ok value

/-- `revision`, of what may be missing. -/
def optionalRevision : Option String → Except ProviderError (Option String)
  | none => .ok none
  | some value => (changeRevision value).map some

/-- The pointers that `record_change` collects. -/
def changedPointers : Option SnapshotRecord → Option SnapshotRecord → List String
  | some before, some after =>
    changedFields (.object before.frontmatter) (some (.object after.frontmatter)) ""
  | some before, none => visibleFields (.object before.frontmatter) ""
  | none, some after => visibleFields (.object after.frontmatter) ""
  | none, none => []

/-- `CanonicalTypeSet::new`. -/
def typeSet (types : List String) : List String := types.dedup.insertionSort (· ≤ ·)

/-- `record_change`. -/
def recordChange (kind : RecordChangeKind) (path : String) (source : Option String)
    (before after : Option SnapshotRecord) : Except ProviderError RecordChange := do
  let path ← changePath path
  let beforeRevision ← optionalRevision (before.map (·.revision))
  let afterRevision ← optionalRevision (after.map (·.revision))
  let changedFields ← fieldChangeSet (changedPointers before after)
  .ok
    { kind := kind
      path := path
      source := source
      beforeRevision := beforeRevision
      afterRevision := afterRevision
      beforeTypes := typeSet (before.elim [] (·.types))
      afterTypes := typeSet (after.elim [] (·.types))
      changedFields := changedFields
      bodyChanged := before.map (·.body) ≠ after.map (·.body) }

/-- `resource_kind`. -/
def SnapshotResourceKind.changeKind : SnapshotResourceKind → ResourceChangeKind
  | .configuration => .configuration
  | .type => .typeDefinition
  | .contract => .contract
  | .view => .viewSource
  | .lock | .schema => .file

/-- A computation of the comparison: it may panic in an `expect`, which is nothing, or fail. -/
abbrev Diffing := ExceptT ProviderError Option

/-- `Option::expect`. -/
def expect {α : Type} (value : Option α) : Diffing α := ExceptT.mk (value.map .ok)

/-- A computation that does not panic. -/
def checked {α : Type} (result : Except ProviderError α) : Diffing α := ExceptT.mk (some result)

/-- The inputs of the renames in a request. -/
def renameInputs (request : OperationRequest) : List Value :=
  match request.operation with
  | .rename => [request.input]
  | .batch =>
    ((((request.input.get "operations").bind Value.asArray).getD []).filter fun item =>
      (item.get "kind").bind Value.asStr = some "rename").filterMap fun item => item.get "input"
  | _ => []

/-- The source and the destination of a rename. -/
def renamePair (input : Value) : Option (String × String) := do
  let source ← ((input.get "from").or (input.get "path")).bind Value.asStr
  let target ← ((input.get "to").or (input.get "new_path")).bind Value.asStr
  let source ← (collectionPath source).toOption
  let target ← (collectionPath target).toOption
  return (source, target)

/-- The renames that a request asks for. -/
def requestedRenames (request : Option OperationRequest) : List (String × String) :=
  (request.elim [] renameInputs).filterMap renamePair

/-- `proven_requested_renames`. -/
def provenRequestedRenames (request : Option OperationRequest) (before after : Records) :
    List (String × String) :=
  (requestedRenames request).filter fun pair =>
    (before.get? pair.1).isSome && (after.get? pair.1).isNone &&
      (before.get? pair.2).isNone && (after.get? pair.2).isSome

/-- The loop over the proven renames: the changes, and the records that are left. -/
def consumeRenames :
    List (String × String) → Records → Records → Diffing (List RecordChange × Records × Records)
  | [], before, after => pure ([], before, after)
  | (source, target) :: pairs, before, after => do
      let previous ← expect (before.get? source)
      let current ← expect (after.get? target)
      let change ← checked
        (recordChange .renamed current.path (some source) (some previous) (some current))
      let (changes, before, after) ← consumeRenames pairs (before.erase source) (after.erase target)
      pure (change :: changes, before, after)

/-- The paths of two maps, in their order. -/
def unitedPaths {row : Type} {path : row → String} (before after : Table path) : List String :=
  (before.entries.map path ++ after.entries.map path).dedup.insertionSort (· ≤ ·)

/-- The change of a path that is in no rename. -/
def unrenamedChange (path : String) :
    Option SnapshotRecord → Option SnapshotRecord → Except ProviderError (Option RecordChange)
  | some before, some after =>
    if before.revision = after.revision then .ok none
    else (recordChange .updated path none (some before) (some after)).map some
  | some before, none => (recordChange .deleted path none (some before) none).map some
  | none, some after => (recordChange .created path none none (some after)).map some
  | none, none => .ok none

/-- The change of a resource. -/
def resourceChange (path : String) (before after : Option SnapshotResource) :
    Diffing (Option ResourceChange) :=
  if before.map (·.revision) = after.map (·.revision) then pure none
  else do
    let resource ← expect (after.or before)
    let path ← checked (changePath path)
    let beforeRevision ← checked (optionalRevision (before.map (·.revision)))
    let afterRevision ← checked (optionalRevision (after.map (·.revision)))
    pure (some
      { kind := resource.kind.changeKind
        path := path
        beforeRevision := beforeRevision
        afterRevision := afterRevision })

/-- `canonical_changes`. -/
def canonicalChanges (before after : CollectionSnapshot) (request : Option OperationRequest) :
    Diffing ChangeBatch := do
  let beforeRecords : Records := .collect before.records
  let afterRecords : Records := .collect after.records
  let (renames, beforeRecords, afterRecords) ← consumeRenames
    (provenRequestedRenames request beforeRecords afterRecords) beforeRecords afterRecords
  let records ← checked ((unitedPaths beforeRecords afterRecords).mapM fun path =>
    unrenamedChange path (beforeRecords.get? path) (afterRecords.get? path))
  let beforeResources : Resources := .collect before.resources
  let afterResources : Resources := .collect after.resources
  let resources ← (unitedPaths beforeResources afterResources).mapM fun path =>
    resourceChange path (beforeResources.get? path) (afterResources.get? path)
  checked (ChangeBatch.new (renames.map .record ++ records.reduceOption.map .record ++
    resources.reduceOption.map .resource))

/-- A computation ends in a panic. -/
def Panics {α : Type} (computation : Diffing α) : Prop := computation.run = none

section Computations

variable {α β : Type}

theorem bind_returns {first : Diffing α} {next : α → Diffing β} {result : β} :
    (first >>= next).run = some (.ok result) ↔
      ∃ value, first.run = some (.ok value) ∧ (next value).run = some (.ok result) := by
  rw [ExceptT.run_bind]
  rcases first.run with _ | _ | value
  · exact iff_of_false nofun (by rintro ⟨_, ⟨⟩, _⟩)
  · exact iff_of_false nofun (by rintro ⟨_, ⟨⟩, _⟩)
  · exact ⟨fun returned => ⟨value, rfl, returned⟩, by rintro ⟨_, ⟨⟩, returned⟩; exact returned⟩

theorem bind_panics {first : Diffing α} {next : α → Diffing β} :
    Panics (first >>= next) ↔
      Panics first ∨ ∃ value, first.run = some (.ok value) ∧ Panics (next value) := by
  unfold Panics
  rw [ExceptT.run_bind]
  rcases first.run with _ | _ | value
  · exact iff_of_true rfl (.inl rfl)
  · exact iff_of_false nofun (by rintro (⟨⟨⟩⟩ | ⟨_, ⟨⟩, _⟩))
  · exact ⟨fun panics => .inr ⟨value, rfl, panics⟩,
      by rintro (⟨⟨⟩⟩ | ⟨_, ⟨⟩, panics⟩); exact panics⟩

theorem expect_returns {value : Option α} {result : α} :
    (expect value).run = some (.ok result) ↔ value = some result := by
  cases value <;> simp [expect, ExceptT.run, ExceptT.mk]

theorem expect_panics {value : Option α} : Panics (expect value) ↔ value = none := by
  cases value <;> simp [Panics, expect, ExceptT.run, ExceptT.mk]

theorem checked_returns {value : Except ProviderError α} {result : α} :
    (checked value).run = some (.ok result) ↔ value = .ok result := by
  simp [checked, ExceptT.run, ExceptT.mk]

theorem not_checked_panics (value : Except ProviderError α) : ¬Panics (checked value) := nofun

theorem pure_returns {value result : α} :
    (pure value : Diffing α).run = some (.ok result) ↔ value = result := by
  simp [ExceptT.run, pure, ExceptT.pure, ExceptT.mk]

theorem not_pure_panics (value : α) : ¬Panics (pure value : Diffing α) := nofun

theorem not_mapM_panics {step : α → Diffing β} (calm : ∀ item, ¬Panics (step item))
    (items : List α) : ¬Panics (items.mapM step) := by
  induction items with
  | nil => exact not_pure_panics _
  | cons item items ih =>
    rw [List.mapM_cons, bind_panics]
    rintro (panics | ⟨_, _, panics⟩)
    · exact calm item panics
    · rcases bind_panics.mp panics with panics | ⟨_, _, panics⟩
      · exact ih panics
      · exact not_pure_panics _ panics

end Computations

/-- The pair takes no record with an empty revision out of the maps: the change can be recorded. -/
def Recordable (before after : Records) (pair : String × String) : Prop :=
  (∀ record ∈ before.get? pair.1, record.revision ≠ "") ∧
    ∀ record ∈ after.get? pair.2, record.revision ≠ ""

/-- No pair that is reached takes a record that an earlier one took: the pairs up to the first that
cannot be recorded differ in their sources and in their destinations. -/
def Unrepeated (before after : Records) (pairs : List (String × String)) : Prop :=
  ∀ earlier pair later, pairs = earlier ++ pair :: later →
    (∀ other ∈ earlier, Recordable before after other) →
      pair.1 ∉ earlier.map (·.1) ∧ pair.2 ∉ earlier.map (·.2)

theorem optionalRevision_eq_ok_iff {revision found : Option String} :
    optionalRevision revision = .ok found ↔ found = revision ∧ revision ≠ some "" := by
  cases revision with
  | none => simp [optionalRevision, eq_comm]
  | some value =>
    by_cases empty : value = ""
    · simp [optionalRevision, changeRevision, empty, Except.map]
    · simp [optionalRevision, changeRevision, empty, Except.map, eq_comm]

theorem changePath_eq_ok_iff {path found : String} :
    changePath path = .ok found ↔ collectionPath path = .ok found := by
  cases valid : collectionPath path <;> simp [changePath, valid, Except.mapError]

variable {before after : Option SnapshotRecord}

theorem isPointer_of_changedPointers {pointer : String}
    (member : pointer ∈ changedPointers before after) : IsPointer pointer := by
  match before, after with
  | some _, some _ => exact isPointer_of_changed _ (.inl rfl) member
  | some _, none | none, some _ => exact isPointer_of_visible _ (.inl rfl) member

/-- What a recorded change says. -/
def changeOf (kind : RecordChangeKind) (path : String) (source : Option String)
    (before after : Option SnapshotRecord) : RecordChange where
  kind := kind
  path := path
  source := source
  beforeRevision := before.map (·.revision)
  afterRevision := after.map (·.revision)
  beforeTypes := typeSet (before.elim [] (·.types))
  afterTypes := typeSet (after.elim [] (·.types))
  changedFields := canonicalFields (changedPointers before after)
  bodyChanged := before.map (·.body) ≠ after.map (·.body)

/-- A change is built for canonical paths with revisions that are not empty. -/
theorem recordChange_eq_ok_iff {kind : RecordChangeKind} {path : String} {source : Option String}
    {change : RecordChange} :
    recordChange kind path source before after = .ok change ↔
      ∃ canonical, collectionPath path = .ok canonical ∧
        before.map (·.revision) ≠ some "" ∧ after.map (·.revision) ≠ some "" ∧
          change = changeOf kind canonical source before after := by
  unfold recordChange
  rw [fieldChangeSet_eq fun _ => isPointer_of_changedPointers]
  constructor
  · intro recorded
    obtain ⟨canonical, valid, recorded⟩ := bind_eq_ok.mp recorded
    obtain ⟨beforeRevision, beforeValid, recorded⟩ := bind_eq_ok.mp recorded
    obtain ⟨afterRevision, afterValid, recorded⟩ := bind_eq_ok.mp recorded
    obtain ⟨rfl, beforeNamed⟩ := optionalRevision_eq_ok_iff.mp beforeValid
    obtain ⟨rfl, afterNamed⟩ := optionalRevision_eq_ok_iff.mp afterValid
    exact ⟨canonical, changePath_eq_ok_iff.mp valid, beforeNamed, afterNamed,
      (Except.ok.inj recorded).symm⟩
  · rintro ⟨canonical, valid, beforeNamed, afterNamed, rfl⟩
    rw [changePath_eq_ok_iff.mpr valid, optionalRevision_eq_ok_iff.mpr ⟨rfl, beforeNamed⟩,
      optionalRevision_eq_ok_iff.mpr ⟨rfl, afterNamed⟩]
    rfl

variable {before after : Records} {source target : String}

theorem recordable_erase_iff
    (recordable : Recordable before after (source, target)) (pair : String × String) :
    Recordable (before.erase source) (after.erase target) pair ↔ Recordable before after pair := by
  unfold Recordable
  rw [Table.get?_erase, Table.get?_erase]
  refine and_congr ?_ ?_
  · split_ifs with same
    · exact iff_of_true nofun (same ▸ recordable.1)
    · exact Iff.rfl
  · split_ifs with same
    · exact iff_of_true nofun (same ▸ recordable.2)
    · exact Iff.rfl

variable {pairs : List (String × String)}

theorem consumeRenames_panics_cons
    {previous current : SnapshotRecord} (there : before.get? source = some previous)
    (appeared : after.get? target = some current) (valid : collectionPath target = .ok target) :
    Panics (consumeRenames ((source, target) :: pairs) before after) ↔
      Recordable before after (source, target) ∧
        Panics (consumeRenames pairs (before.erase source) (after.erase target)) := by
  have here : current.path = target := Table.key_of_get? appeared
  have recorded : (∃ change, recordChange .renamed current.path (some source) (some previous)
      (some current) = .ok change) ↔ Recordable before after (source, target) := by
    simp only [recordChange_eq_ok_iff, here, valid, Recordable, there, appeared]
    simp
  simp only [consumeRenames, bind_panics, expect_panics, expect_returns, there, appeared,
    checked_returns, not_checked_panics, not_pure_panics, reduceCtorEq, false_or, Option.some.injEq,
    exists_eq_left', and_false, exists_false, or_false]
  rw [← recorded, exists_and_right]

/-- Renames are consumed without a panic if no earlier one took an end of a later one. -/
theorem not_consumeRenames_panics_iff
    (targets : ∀ pair ∈ pairs, collectionPath pair.2 = .ok pair.2) :
    ¬Panics (consumeRenames pairs before after) ↔
      ∀ earlier pair later, pairs = earlier ++ pair :: later →
        (∀ other ∈ earlier, Recordable before after other) →
        (before.get? pair.1 ≠ none ∧ pair.1 ∉ earlier.map (·.1)) ∧
          after.get? pair.2 ≠ none ∧ pair.2 ∉ earlier.map (·.2) := by
  induction pairs generalizing before after with
  | nil => exact iff_of_true (not_pure_panics _) fun earlier pair later cut => by simp at cut
  | cons pair pairs ih =>
    obtain ⟨source, target⟩ := pair
    cases there : before.get? source with
    | none =>
      refine iff_of_false (not_not_intro ?_) fun all => ?_
      · exact bind_panics.mpr (.inl (expect_panics.mpr there))
      · exact (all [] _ pairs rfl nofun).1.1 there
    | some previous =>
      cases appeared : after.get? target with
      | none =>
        refine iff_of_false (not_not_intro ?_) fun all => ?_
        · exact bind_panics.mpr (.inr ⟨previous, expect_returns.mpr there,
            bind_panics.mpr (.inl (expect_panics.mpr appeared))⟩)
        · exact (all [] _ pairs rfl nofun).2.1 appeared
      | some current =>
        rw [consumeRenames_panics_cons there appeared (targets _ List.mem_cons_self), not_and,
          ih fun pair member => targets pair (List.mem_cons_of_mem _ member)]
        constructor
        · intro reached earlier pair later cut recordable
          cases earlier with
          | nil =>
            obtain ⟨rfl, rfl⟩ := List.cons.inj cut
            exact ⟨⟨by rw [there]; nofun, List.not_mem_nil⟩,
              by rw [appeared]; nofun, List.not_mem_nil⟩
          | cons first earlier =>
            obtain ⟨rfl, below⟩ := List.cons.inj cut
            have firstRecordable := recordable _ List.mem_cons_self
            have rest := reached firstRecordable earlier pair later below
              fun other member => (recordable_erase_iff firstRecordable other).mpr
                (recordable other (List.mem_cons_of_mem _ member))
            rw [Table.get?_erase, Table.get?_erase] at rest
            simp only [List.map_cons, List.mem_cons, not_or]
            split_ifs at rest with sameSource sameTarget sameTarget
            · exact absurd rfl rest.1.1
            · exact absurd rfl rest.1.1
            · exact absurd rfl rest.2.1
            · exact ⟨⟨rest.1.1, sameSource, rest.1.2⟩, rest.2.1, sameTarget, rest.2.2⟩
        · intro all firstRecordable earlier pair later cut recordable
          have rest := all ((source, target) :: earlier) pair later (by rw [cut]; rfl) (by
            intro other member
            rcases List.mem_cons.mp member with rfl | member
            · exact firstRecordable
            · exact (recordable_erase_iff firstRecordable other).mp (recordable other member))
          simp only [List.map_cons, List.mem_cons, not_or] at rest
          rw [Table.get?_erase_of_ne _ rest.1.2.1, Table.get?_erase_of_ne _ rest.2.2.1]
          exact ⟨⟨rest.1.1, rest.1.2.2⟩, rest.2.1, rest.2.2.2⟩

theorem not_resourceChange_panics (path : String) (before after : Option SnapshotResource) :
    ¬Panics (resourceChange path before after) := by
  unfold resourceChange
  split
  next => exact not_pure_panics _
  rename_i different
  have found : after.or before ≠ none := by
    rw [ne_eq, Option.or_eq_none_iff]
    rintro ⟨rfl, rfl⟩
    exact different rfl
  simp only [bind_panics, expect_panics, found, not_checked_panics, not_pure_panics, and_false,
    exists_false, or_false, not_false_eq_true]

/-- The ends of a proven rename are canonical; its source is gone and its target new. -/
theorem of_mem_provenRequestedRenames {request : Option OperationRequest}
    {pair : String × String} (member : pair ∈ provenRequestedRenames request before after) :
    collectionPath pair.1 = .ok pair.1 ∧ collectionPath pair.2 = .ok pair.2 ∧
      (before.get? pair.1 ≠ none ∧ after.get? pair.1 = none) ∧
        before.get? pair.2 = none ∧ after.get? pair.2 ≠ none := by
  obtain ⟨requested, proven⟩ := List.mem_filter.mp member
  obtain ⟨input, -, named⟩ := List.mem_filterMap.mp requested
  simp only [renamePair, Option.bind_eq_bind, Option.bind_eq_some_iff] at named
  obtain ⟨sourceText, -, targetText, -, source, sourceValid, target, targetValid, same⟩ := named
  cases same
  simp only [Bool.and_eq_true, Option.isSome_iff_ne_none, Option.isNone_iff_eq_none] at proven
  have canonical : ∀ {text path : String}, (collectionPath text).toOption = some path →
      collectionPath path = .ok path := by
    intro text path valid
    cases found : collectionPath text with
    | error error => rw [found] at valid; cases valid
    | ok other =>
      rw [found] at valid
      cases valid
      exact collectionPath_idem found
  exact ⟨canonical sourceValid, canonical targetValid, ⟨proven.1.1.1, proven.1.1.2⟩, proven.1.2,
    proven.2⟩

/-- The comparison panics exactly when the proven renames repeat a source or a destination before
one of them cannot be recorded. -/
theorem not_canonicalChanges_panics_iff (before after : CollectionSnapshot)
    (request : Option OperationRequest) :
    ¬Panics (canonicalChanges before after request) ↔
      Unrepeated (.collect before.records) (.collect after.records)
        (provenRequestedRenames request (.collect before.records) (.collect after.records)) := by
  have renames : Panics (canonicalChanges before after request) ↔
      Panics (consumeRenames
        (provenRequestedRenames request (.collect before.records) (.collect after.records))
        (.collect before.records) (.collect after.records)) := by
    unfold canonicalChanges
    simp only [bind_panics, not_checked_panics, and_false, exists_false, or_false,
      not_mapM_panics fun path => not_resourceChange_panics path _ _]
  have proven : ∀ pair ∈ provenRequestedRenames request (.collect before.records)
      (.collect after.records), _ := fun pair member => of_mem_provenRequestedRenames member
  rw [renames, not_consumeRenames_panics_iff fun pair member => (proven pair member).2.1]
  refine forall_congr' fun earlier => forall_congr' fun pair => forall_congr' fun later =>
    forall_congr' fun cut => forall_congr' fun recordable => ?_
  have facts := proven pair (cut ▸ List.mem_append_right _ List.mem_cons_self)
  rw [and_iff_right facts.2.2.1.1, and_iff_right facts.2.2.2.2]

/-- A record with nothing in it. -/
def plainRecord (path revision : String) : SnapshotRecord where
  path := path
  revision := revision
  frontmatter := []
  body := ""
  types := []

/-- A rename as an item of a batch. -/
def renameItem (source target : String) : Value :=
  .object [("input", .object [("from", .string source), ("to", .string target)]),
    ("kind", .string "rename")]

/-- A record is renamed, created again, and renamed to another path: both renames are proven, and
the second does not find its source. -/
theorem comparison_panics :
    ¬∀ (before after : CollectionSnapshot) (request : Option OperationRequest),
      ¬Panics (canonicalChanges before after request) := by
  intro calm
  refine calm ⟨[], [plainRecord "a.md" "sha256:a"]⟩
    ⟨[], [plainRecord "b.md" "sha256:a", plainRecord "c.md" "sha256:c"]⟩
    (some ⟨.batch, .object [("operations", .array
      [renameItem "a.md" "b.md",
        .object [("input", .object [("path", .string "a.md")]), ("kind", .string "create")],
        renameItem "a.md" "c.md"])]⟩) ?_
  unfold Panics
  decide +kernel

end Mdbase.Provider.Diff
