import Mdbase.Cache.Settlement
import Mdbase.Provider.Change
import Mdbase.Provider.FieldChanges

/-!
# The maintenance of the cache

An exact change set names the records that changed. Their rows are removed and made again;
the links of other records are resolved again only if a change looks as if it moved a
resolution key. What comes out is compared with the tables that a rebuild makes.
-/

namespace Mdbase.Cache

open Library Links
open Mdbase.Runtime (Value)
open Mdbase.Query (CatalogError)
open Mdbase.Provider (RecordChange RecordChangeKind CanonicalChange ChangeBatch ChangeSet
  escapePointer recordChangedFields)

/-- The record changes of a batch. -/
def recordChanges (batch : ChangeBatch) : List RecordChange :=
  batch.items.filterMap fun
    | .record change => some change
    | .resource _ => none

/-- A `BTreeSet` of paths, in order. -/
def orderedPaths (paths : List String) : List String := paths.dedup.insertionSort (· ≤ ·)

/-- The `remove` set of `apply_changes`. -/
def removedPaths (changes : List RecordChange) : List String :=
  orderedPaths (changes.flatMap fun change => change.source.toList ++ [change.path])

/-- The `reindex` set of `apply_changes`. -/
def reindexedPaths (records : Records) (changes : List RecordChange) : List String :=
  orderedPaths ((changes.map (·.path)).filter fun path => (records.load path).isSome)

/-- Does a change make the links of other records be resolved again? -/
def IndexedCollection.unsettles (collection : IndexedCollection) (change : RecordChange) : Bool :=
  change.kind ≠ .updated ||
    change.changedFields.any fun field =>
      field = "/title" || field = "/" ++ escapePointer collection.idField

/-- The tables after the rows of the changed records were made again. -/
def IndexedCollection.reindexChanged (collection : IndexedCollection) (records : Records)
    (changes : List RecordChange) (tables : CacheTables) : CacheTables :=
  (reindexedPaths records changes).foldl (collection.reindexFile records)
    ((removedPaths changes).foldl CacheTables.removeFile tables)

/-- The sources whose links `apply_changes` resolves again; none stands for all of them. -/
def IndexedCollection.resolvedSources (collection : IndexedCollection)
    (changes : List RecordChange) : Option (List String) :=
  if changes.any collection.unsettles then none else some (removedPaths changes)

/-- `apply_changes`, when the records are those after the changes. -/
def IndexedCollection.applyChanges (collection : IndexedCollection) (records : Records)
    (changes : ChangeSet) (tables : CacheTables) : Except CatalogError CacheTables :=
  match changes with
  | .exact batch =>
    if batch.items.any fun | .resource _ => true | .record _ => false then
      collection.rebuild records
    else
      let changes := recordChanges batch
      collection.resolveLinks (collection.reindexChanged records changes tables)
        (collection.resolvedSources changes)
  | .none | .collectionWide _ => collection.rebuild records

/-- The frontmatter of a record in a snapshot. A record that is not UTF-8 has no place in it. -/
def RecordLoadOutcome.snapshotFrontmatter : RecordLoadOutcome → Option (List (String × Value))
  | .parsed _ (.object members) .. => some members
  | .parsed .. => some []
  | .invalid _ _ .invalidUtf8 => none
  | .invalid .. => some []

/-- The frontmatter of a path in the snapshot of a collection. -/
def Records.snapshot (records : Records) (path : String) : Option (List (String × Value)) :=
  (records.load path).bind RecordLoadOutcome.snapshotFrontmatter

/-- A change tells what became of a record between two collections. -/
def Records.Tells (before after : Records) (change : RecordChange) : Prop :=
  change.changedFields =
      recordChangedFields (before.snapshot (change.source.getD change.path))
        (after.snapshot change.path) ∧
    match change.kind with
    | .created => change.source = none ∧ before.snapshot change.path = none ∧
        (after.snapshot change.path).isSome
    | .updated => change.source = none ∧ (before.snapshot change.path).isSome ∧
        (after.snapshot change.path).isSome
    | .deleted => change.source = none ∧ (before.snapshot change.path).isSome ∧
        after.snapshot change.path = none
    | .renamed => ∃ source, change.source = some source ∧ (before.snapshot source).isSome ∧
        after.load source = none ∧ before.load change.path = none ∧
        (after.snapshot change.path).isSome

/-- A batch tells what became of every record that is not as it was, and of nothing else. -/
structure Records.Exact (before after : Records) (batch : ChangeBatch) : Prop where
  tells : ∀ item ∈ batch.items, ∃ change, item = .record change ∧ before.Tells after change
  complete : ∀ path, before.load path ≠ after.load path → path ∈ removedPaths (recordChanges batch)

/-- The paths of a collection are collection paths, as those of a scan are. -/
def Records.Valid (records : Records) : Prop :=
  ∀ path ∈ records.paths, ∃ canonical, collectionPath path = .ok canonical

variable {collection : IndexedCollection} {before after : Records} {batch : ChangeBatch}
  {tables settledTables : CacheTables} {path : String}

@[simp] theorem mem_orderedPaths {paths : List String} :
    path ∈ orderedPaths paths ↔ path ∈ paths := by
  simp [orderedPaths]

theorem sorted_orderedPaths (paths : List String) : (orderedPaths paths).Pairwise (· < ·) := by
  have ordered := paths.dedup.pairwise_insertionSort (· ≤ ·)
  have distinct : (orderedPaths paths).Nodup :=
    (List.perm_insertionSort (· ≤ ·) _).nodup_iff.mpr (List.nodup_dedup paths)
  exact (ordered.and distinct).imp fun ⟨le, ne⟩ => lt_of_le_of_ne le ne

variable {changes : List RecordChange}

theorem mem_removedPaths :
    path ∈ removedPaths changes ↔
      ∃ change ∈ changes, change.source = some path ∨ change.path = path := by
  simp [removedPaths, eq_comm]

theorem mem_reindexedPaths :
    path ∈ reindexedPaths after changes ↔
      (∃ change ∈ changes, change.path = path) ∧ (after.load path).isSome := by
  simp [reindexedPaths]

theorem sorted_reindexedPaths (records : Records) (changes : List RecordChange) :
    (reindexedPaths records changes).Pairwise (· < ·) :=
  sorted_orderedPaths _

theorem removed_of_reindexed
    (reindexed : path ∈ reindexedPaths after changes) : path ∈ removedPaths changes := by
  obtain ⟨⟨change, member, rfl⟩, _⟩ := mem_reindexedPaths.mp reindexed
  exact mem_removedPaths.mpr ⟨change, member, .inr rfl⟩

namespace Records.Exact

variable (exact_ : before.Exact after batch)
include exact_

theorem tells_of_mem {change : RecordChange} (member : change ∈ recordChanges batch) :
    before.Tells after change := by
  obtain ⟨item, itemMember, found⟩ := List.mem_filterMap.mp member
  obtain ⟨told, rfl, tells⟩ := exact_.tells item itemMember
  cases found
  exact tells

theorem reindexed_of_removed {path : String} (removed : path ∈ removedPaths (recordChanges batch))
    (there : (after.load path).isSome) : path ∈ reindexedPaths after (recordChanges batch) := by
  obtain ⟨change, member, sources | rfl⟩ := mem_removedPaths.mp removed
  · have tells := (exact_.tells_of_mem member).2
    cases kind : change.kind with
    | renamed =>
      rw [kind] at tells
      obtain ⟨source, named, _, gone, _⟩ := tells
      rw [sources] at named
      cases named
      simp [gone] at there
    | _ =>
      rw [kind] at tells
      rw [tells.1] at sources
      cases sources
  · exact mem_reindexedPaths.mpr ⟨⟨change, member, rfl⟩, there⟩

/-- Files that no change removes are read as before. -/
theorem load_eq {path : String} (kept : path ∉ removedPaths (recordChanges batch)) :
    before.load path = after.load path := by
  by_contra changed
  exact kept (exact_.complete path changed)

/-- Removing the changed records and reading them again leads from one collection to the
other. -/
theorem reread_eq :
    reread (reread before.load (fun _ => none) (removedPaths (recordChanges batch))) after.load
      (reindexedPaths after (recordChanges batch)) = after.load := by
  funext path
  rw [reread]
  split
  next => rfl
  rename_i absent
  rw [reread]
  split
  next removed =>
    by_contra there
    exact absent (exact_.reindexed_of_removed removed
      (Option.isSome_iff_ne_none.mpr (Ne.symm there)))
  next kept => exact exact_.load_eq kept

theorem applyChanges_eq :
    collection.applyChanges after (.exact batch) tables =
      collection.resolveLinks (collection.reindexChanged after (recordChanges batch) tables)
        (collection.resolvedSources (recordChanges batch)) := by
  refine if_neg ?_
  rw [List.any_eq_true]
  rintro ⟨item, member, resource⟩
  obtain ⟨change, rfl, _⟩ := exact_.tells item member
  cases resource

theorem indexed_reindexChanged (indexed : collection.Indexed before tables) :
    collection.Indexed after (collection.reindexChanged after (recordChanges batch) tables) where
  contents := by
    have contents := (indexed.contents.removeFiles (removedPaths (recordChanges batch))).reindexFiles
      after (reindexedPaths after (recordChanges batch))
    rwa [exact_.reread_eq] at contents
  distinct := (indexed.distinct.removeFiles _).reindexFiles after _

end Records.Exact

variable {sources : Option (List String)}

theorem IndexedCollection.Indexed.resolveLinks (indexed : collection.Indexed after tables)
    (resolved : collection.resolveLinks tables sources = .ok settledTables) :
    collection.Indexed after settledTables := by
  obtain ⟨_, rfl⟩ := (resolveLinks_ok_iff sources).mp resolved
  obtain ⟨contents, distinct⟩ := indexed
  exact ⟨⟨contents.files, contents.fileTypes, contents.uniqueKeys, contents.resolutionKeys⟩,
    ⟨distinct.files, distinct.fileTypes, distinct.uniqueKeys, distinct.identityValues,
      distinct.resolutionKeys⟩⟩

theorem IndexedCollection.Indexed.applyChanges (indexed : collection.Indexed before tables)
    (exact_ : before.Exact after batch)
    (applied : collection.applyChanges after (.exact batch) tables = .ok settledTables) :
    collection.Indexed after settledTables := by
  rw [exact_.applyChanges_eq] at applied
  exact (exact_.indexed_reindexChanged indexed).resolveLinks applied

/-- Changes that leave no identity and no link of another record behind: the last holder of
a value was read again, or it is the last holder still; and either the links of all records
are resolved again or those of the other records have the same candidates as before. -/
structure IndexedCollection.Harmless (collection : IndexedCollection) (before after : Records)
    (changes : List RecordChange) : Prop where
  identities : ∀ value holder,
    collection.LastHolder after.load after.paths value holder →
      holder ∈ reindexedPaths after changes ∨
        (collection.LastHolder before.load before.paths value holder ∧
          ∀ path ∈ reindexedPaths after changes,
            ¬collection.HoldsIdentity after.load value path)
  links : changes.any collection.unsettles ∨
    ∀ path outcome, after.load path = some outcome → path ∉ removedPaths changes →
      ∀ row ∈ collection.linksAt path outcome, ∀ lookup,
        resolutionLookup collection.library.toResolutionLibrary row.rawTarget row.sourcePath =
            some lookup →
          (collection.wholeIndex before).SameCandidates (collection.wholeIndex after)
            (collection.declaredTypes (collection.wholeIndex after) row.query) lookup

theorem IndexedCollection.HoldsIdentity.mem_paths {value path : String}
    (holds : collection.HoldsIdentity after.load value path) : path ∈ after.paths := by
  obtain ⟨outcome, loaded, _⟩ := holds
  rw [Records.mem_paths, loaded]
  rfl

variable {outcome : RecordLoadOutcome} {row : LinkRow}

theorem IndexedCollection.Harmless.resolveQuery_eq
    (harmless : collection.Harmless before after (recordChanges batch))
    (exact_ : before.Exact after batch) (stable : ¬(recordChanges batch).any collection.unsettles)
    (loaded : after.load path = some outcome) (kept : path ∉ removedPaths (recordChanges batch))
    (member : row ∈ collection.linksAt path outcome) :
    collection.resolveQuery (collection.wholeIndex before) row.query =
      collection.resolveQuery (collection.wholeIndex after) row.query := by
  have source : row.sourcePath = path := (collection.recordRows_owned path outcome).2.1 row member
  have declared : collection.declaredTypes (collection.wholeIndex before) row.query =
      collection.declaredTypes (collection.wholeIndex after) row.query := by
    have types : (collection.wholeIndex before).typesByPath path =
        (collection.wholeIndex after).typesByPath path :=
      typesByPath_wholeIndex (exact_.load_eq kept)
    rw [← source] at types
    unfold declaredTypes LinkRow.query
    rw [types]
  unfold resolveQuery
  rw [declared]
  refine LinkResolutionIndex.resolve_of_sameCandidates fun lookup found => ?_
  exact (harmless.links.resolve_left stable) path outcome loaded kept row member lookup found

theorem IndexedCollection.Harmless.identities_reindexChanged
    (harmless : collection.Harmless before after (recordChanges batch))
    (exact_ : before.Exact after batch) (current : collection.Current before tables)
    (value holder : String) :
    (value, holder) ∈ (collection.reindexChanged after (recordChanges batch) tables).identityValues ↔
      collection.LastHolder after.load after.paths value holder := by
  rw [reindexChanged, mem_identityValues_reindexFiles (sorted_reindexedPaths _ _),
    mem_identityValues_removeFiles, current.identities]
  constructor
  · intro kept
    have holds : collection.HoldsIdentity after.load value holder := by
      rcases kept with ⟨_, holds, _⟩ | ⟨_, ⟨⟨_, holds, _⟩, apart⟩, _⟩
      · exact holds
      · unfold HoldsIdentity
        rwa [← exact_.load_eq apart]
    obtain ⟨last, isLast⟩ := exists_lastHolder holds.mem_paths holds
    suffices same : holder = last from same ▸ isLast
    rcases kept with reindexedLast | ⟨none_, ⟨earlier, _⟩, _⟩
    · rcases harmless.identities value last isLast with reindexed | ⟨_, none_⟩
      · refine reindexedLast.unique ⟨reindexed, isLast.2.1, fun other _ otherHolds => ?_⟩
        exact isLast.2.2 other otherHolds.mem_paths otherHolds
      · exact absurd reindexedLast.2.1 (none_ holder reindexedLast.1)
    · rcases harmless.identities value last isLast with reindexed | ⟨stillLast, _⟩
      · exact absurd isLast.2.1 (none_ last reindexed)
      · exact earlier.unique stillLast
  · intro isLast
    by_cases reindexed : holder ∈ reindexedPaths after (recordChanges batch)
    · refine .inl ⟨reindexed, isLast.2.1, fun other _ otherHolds => ?_⟩
      exact isLast.2.2 other otherHolds.mem_paths otherHolds
    · obtain ⟨stillLast, none_⟩ := (harmless.identities value holder isLast).resolve_left reindexed
      refine .inr ⟨none_, ⟨stillLast, fun removed => reindexed ?_⟩, reindexed⟩
      exact exact_.reindexed_of_removed removed (Records.mem_paths.mp isLast.1)

/-- The links after the changed records were read again: theirs are not resolved yet. -/
def IndexedCollection.pendingLinks (collection : IndexedCollection) (before : Records)
    (reindexed : List String) (path : String) (outcome : RecordLoadOutcome) : List LinkRow :=
  if path ∈ reindexed then collection.linksAt path outcome
  else collection.settledLinks before path outcome

/-- After reindexing, the links of the other files are still those of their old texts. -/
theorem IndexedCollection.Current.pending (current : collection.Current before tables)
    (exact_ : before.Exact after batch) :
    DerivesBag LinkRow.sourcePath
      (collection.pendingLinks before (reindexedPaths after (recordChanges batch))) after.load
      (collection.reindexChanged after (recordChanges batch) tables).links := by
  have removed := links_removeFiles current.links (removedPaths (recordChanges batch))
  have pending : DerivesBag LinkRow.sourcePath
      (collection.pendingLinks before (reindexedPaths after (recordChanges batch)))
      (reread before.load (fun _ => none) (removedPaths (recordChanges batch)))
      ((removedPaths (recordChanges batch)).foldl CacheTables.removeFile tables).links := by
    refine removed.congr fun path outcome there => ?_
    have apart : path ∉ reindexedPaths after (recordChanges batch) := by
      intro reindexed
      rw [reread, if_pos (removed_of_reindexed reindexed)] at there
      cases there
    rw [pendingLinks, if_neg apart]
  have reindexed := collection.links_reindexFiles after _ pending
    (fun path member outcome => if_pos member :
      ∀ path ∈ reindexedPaths after (recordChanges batch), ∀ outcome, _ = _)
  rwa [exact_.reread_eq] at reindexed

variable {reindexed : List String}

theorem IndexedCollection.sourcePath_pendingLinks
    (member : row ∈ collection.pendingLinks before reindexed path outcome) :
    row.sourcePath = path := by
  have owned := (collection.recordRows_owned path outcome).2.1
  unfold pendingLinks at member
  split at member
  next => exact owned row member
  obtain ⟨link, linked, rfl⟩ := List.mem_map.mp member
  rw [sourcePath_settled, owned link linked]

theorem IndexedCollection.Current.mem_of_pending (current : collection.Current before tables)
    (exact_ : before.Exact after batch)
    (loaded : after.load path = some outcome)
    (member : row ∈ collection.pendingLinks before
      (reindexedPaths after (recordChanges batch)) path outcome) :
    row ∈ (collection.reindexChanged after (recordChanges batch) tables).links := by
  have source := sourcePath_pendingLinks member
  subst source
  exact (current.pending exact_).mem.mpr ⟨outcome, loaded, member⟩

theorem IndexedCollection.exists_pending {link : LinkRow}
    (linked : link ∈ collection.linksAt path outcome) :
    ∃ row ∈ collection.pendingLinks before reindexed path outcome, row.query = link.query := by
  unfold pendingLinks
  split
  next => exact ⟨link, linked, rfl⟩
  next => exact ⟨_, List.mem_map_of_mem linked, query_settled⟩

theorem IndexedCollection.Current.query_mem (current : collection.Current before tables)
    (exact_ : before.Exact after batch)
    (member : row ∈ (collection.reindexChanged after (recordChanges batch) tables).links) :
    ∃ outcome, after.load row.sourcePath = some outcome ∧
      ∃ link ∈ collection.linksAt row.sourcePath outcome, link.query = row.query := by
  obtain ⟨outcome, loaded, pending⟩ := (current.pending exact_).mem.mp member
  refine ⟨outcome, loaded, ?_⟩
  unfold pendingLinks at pending
  split at pending
  next => exact ⟨row, pending, rfl⟩
  obtain ⟨link, linked, rfl⟩ := List.mem_map.mp pending
  exact ⟨link, linked, query_settled.symm⟩

/-- A link whose source was read again resolves against the part of the index that is loaded
as against the whole. -/
theorem IndexedCollection.Indexed.resolveQuery_linkIndex (indexed : collection.Indexed after tables)
    (valid : after.Valid) (member : row ∈ tables.links) (source : row.sourcePath = path)
    (selected : sources.all (path ∈ ·)) (loaded : after.load path = some outcome) {link : LinkRow}
    (linked : link ∈ collection.linksAt path outcome) :
    collection.resolveQuery (collection.linkIndex tables sources) row.query =
      collection.resolveQuery (collection.wholeIndex after) row.query := by
  subst source
  rw [← indexed.resolveQuery]
  cases sources with
  | none => rfl
  | some sources =>
    refine indexed.contents.resolveQuery_part ?_ ?_
    · exact List.mem_map_of_mem (List.mem_filter.mpr ⟨member, selected⟩)
    · cases outcome with
      | invalid => cases linked
      | parsed =>
        obtain ⟨canonical, path⟩ := valid row.sourcePath
          (Records.mem_paths.mpr (by rw [loaded]; rfl))
        exact indexed.contents.isRecord path loaded

theorem IndexedCollection.stable_of_unselected
    (kept : ¬(collection.resolvedSources changes).all (path ∈ ·)) :
    ¬changes.any collection.unsettles ∧ path ∉ removedPaths changes := by
  unfold resolvedSources at kept
  split at kept
  next => simp at kept
  next stable => exact ⟨stable, by simpa using kept⟩

/-- Exact changes leave the links as a rebuild would. -/
theorem IndexedCollection.Current.links_applyChanges (current : collection.Current before tables)
    (exact_ : before.Exact after batch) (valid : after.Valid)
    (harmless : collection.Harmless before after (recordChanges batch))
    (applied : collection.applyChanges after (.exact batch) tables = .ok settledTables) :
    DerivesBag LinkRow.sourcePath (collection.settledLinks after) after.load
      settledTables.links := by
  have indexed := exact_.indexed_reindexChanged current.toIndexed
  rw [exact_.applyChanges_eq] at applied
  obtain ⟨all, rfl⟩ := (resolveLinks_ok_iff _).mp applied
  refine ((current.pending exact_).map fun row => ?_).congr fun path outcome loaded => ?_
  · split <;> simp
  · have present : ∀ row ∈ collection.pendingLinks before
        (reindexedPaths after (recordChanges batch)) path outcome,
        row ∈ (collection.reindexChanged after (recordChanges batch) tables).links :=
      fun row member => current.mem_of_pending exact_ loaded member
    have owned := (collection.recordRows_owned path outcome).2.1
    unfold pendingLinks settledLinks at present ⊢
    split at present
    next reindexed =>
      rw [if_pos reindexed]
      refine List.map_congr_left fun link linked => ?_
      obtain rfl := owned link linked
      have selected : (collection.resolvedSources (recordChanges batch)).all
          (link.sourcePath ∈ ·) := by
        by_contra kept
        exact (stable_of_unselected kept).2 (removed_of_reindexed reindexed)
      rw [if_pos selected]
      exact settled_congr (indexed.resolveQuery_linkIndex valid (present link linked) rfl
        selected loaded linked)
    rename_i apart
    rw [if_neg apart, List.map_map]
    refine List.map_congr_left fun link linked => ?_
    obtain rfl := owned link linked
    have member := present _ (List.mem_map_of_mem linked)
    rw [Function.comp_apply, sourcePath_settled]
    by_cases selected : (collection.resolvedSources (recordChanges batch)).all
        (link.sourcePath ∈ ·)
    · rw [if_pos selected]
      obtain ⟨target, resolved⟩ := all _ member (by rwa [sourcePath_settled])
      have whole := indexed.resolveQuery_linkIndex valid member sourcePath_settled selected
        loaded linked
      rw [query_settled] at resolved whole
      rw [settled_settled resolved]
      exact settled_congr whole
    · rw [if_neg selected]
      obtain ⟨stable, kept⟩ := stable_of_unselected selected
      exact settled_congr (harmless.resolveQuery_eq exact_ stable loaded kept linked)

theorem IndexedCollection.Current.resolves_applyChanges (current : collection.Current before tables)
    (resolves : collection.Resolves before) (exact_ : before.Exact after batch)
    (valid : after.Valid) (harmless : collection.Harmless before after (recordChanges batch))
    (applied : collection.applyChanges after (.exact batch) tables = .ok settledTables) :
    collection.Resolves after := by
  have indexed := exact_.indexed_reindexChanged current.toIndexed
  rw [exact_.applyChanges_eq] at applied
  obtain ⟨all, _⟩ := (resolveLinks_ok_iff _).mp applied
  intro path outcome loaded link linked
  obtain ⟨row, rowPending, same⟩ : ∃ row ∈ collection.pendingLinks before
      (reindexedPaths after (recordChanges batch)) path outcome, row.query = link.query :=
    exists_pending linked
  have member := current.mem_of_pending exact_ loaded rowPending
  obtain rfl := sourcePath_pendingLinks rowPending
  by_cases selected : (collection.resolvedSources (recordChanges batch)).all
      (row.sourcePath ∈ ·)
  · rw [← same, ← indexed.resolveQuery_linkIndex valid member rfl selected loaded linked]
    exact all row member selected
  · obtain ⟨stable, kept⟩ := stable_of_unselected selected
    rw [← harmless.resolveQuery_eq exact_ stable loaded kept linked]
    exact resolves _ outcome (exact_.load_eq kept ▸ loaded) link linked

theorem IndexedCollection.Current.applyChanges (current : collection.Current before tables)
    (exact_ : before.Exact after batch) (valid : after.Valid)
    (harmless : collection.Harmless before after (recordChanges batch))
    (applied : collection.applyChanges after (.exact batch) tables = .ok settledTables) :
    collection.Current after settledTables := by
  refine ⟨current.toIndexed.applyChanges exact_ applied,
    current.links_applyChanges exact_ valid harmless applied, ?_⟩
  rw [exact_.applyChanges_eq] at applied
  obtain ⟨_, rfl⟩ := (resolveLinks_ok_iff _).mp applied
  exact harmless.identities_reindexChanged exact_ current

theorem IndexedCollection.Current.exists_applyChanges
    (current : collection.Current before tables) (exact_ : before.Exact after batch)
    (valid : after.Valid) (resolves : collection.Resolves after) :
    ∃ out, collection.applyChanges after (.exact batch) tables = .ok out := by
  have indexed := exact_.indexed_reindexChanged current.toIndexed
  rw [exact_.applyChanges_eq]
  refine ⟨_, (resolveLinks_ok_iff _).mpr ⟨fun row member selected => ?_, rfl⟩⟩
  obtain ⟨outcome, loaded, link, linked, same⟩ := current.query_mem exact_ member
  rw [indexed.resolveQuery_linkIndex valid member rfl selected loaded linked, ← same]
  exact resolves _ _ loaded link linked

/-- What a collection and its cache come to by a rebuild and by exact changes that meet a
condition. -/
inductive IndexedCollection.Maintained (collection : IndexedCollection)
    (admits : Records → Records → List RecordChange → Prop) :
    Records → CacheTables → Prop
  | rebuilt {records : Records} {tables built : CacheTables} :
      records.Valid → collection.rebuild records = .ok built → tables.Same built →
        Maintained collection admits records tables
  | applied {before after : Records} {batch : ChangeBatch} {tables out : CacheTables} :
      Maintained collection admits before tables → after.Valid → before.Exact after batch →
        admits before after (recordChanges batch) →
          collection.applyChanges after (.exact batch) tables = .ok out →
            Maintained collection admits after out

theorem IndexedCollection.Maintained.current
    (maintained : collection.Maintained collection.Harmless before tables) :
    collection.Current before tables ∧ collection.Resolves before := by
  induction maintained with
  | rebuilt valid built same =>
    exact ⟨(Current.of_rebuild built).of_same same, exists_rebuild_iff.mp ⟨_, built⟩⟩
  | applied _ valid exact_ harmless applied ih =>
    obtain ⟨current, resolves⟩ := ih
    exact ⟨current.applyChanges exact_ valid harmless applied,
      current.resolves_applyChanges resolves exact_ valid harmless applied⟩

/-- After harmless changes the tables are those of a rebuild, and wherever a rebuild makes
tables the next harmless changes make the same. -/
theorem IndexedCollection.Maintained.same_as_rebuild
    (maintained : collection.Maintained collection.Harmless before tables) :
    (∃ built, collection.rebuild before = .ok built ∧ tables.Same built) ∧
      ∀ after batch built, after.Valid → before.Exact after batch →
        collection.Harmless before after (recordChanges batch) →
          collection.rebuild after = .ok built →
            ∃ out, collection.applyChanges after (.exact batch) tables = .ok out ∧
              out.Same built := by
  obtain ⟨current, resolves⟩ := maintained.current
  constructor
  · obtain ⟨built, rebuilt⟩ := exists_rebuild_iff.mpr resolves
    exact ⟨built, rebuilt, current.same (.of_rebuild rebuilt)⟩
  · intro after batch built valid exact_ harmless rebuilt
    obtain ⟨out, applied⟩ :=
      current.exists_applyChanges exact_ valid (exists_rebuild_iff.mp ⟨built, rebuilt⟩)
    exact ⟨out, applied,
      (current.applyChanges exact_ valid harmless applied).same (.of_rebuild rebuilt)⟩

namespace SharedIdentity

/-- A record with the shared identity. -/
def holder : RecordLoadOutcome :=
  .parsed ⟨"r1", 1, 0, none⟩ (.object [("id", .string "shared")])
    (.object [("id", .string "shared")]) "" []

/-- Two records have the same identity. -/
def both : Records where
  entries := [("a.md", holder), ("b.md", holder)]
  sorted := by decide

/-- One of the two records. -/
def only (path : String) : Records where
  entries := [(path, holder)]
  sorted := by simp

/-- A record with the identity is deleted. -/
def deletion (path : String) : RecordChange where
  kind := .deleted
  path := path
  source := none
  beforeRevision := some "r1"
  afterRevision := none
  beforeTypes := []
  afterTypes := []
  changedFields := ["/id"]
  bodyChanged := true

/-- The batch of the deletion. -/
def deletionOf (path : String) : ChangeBatch where
  items := [.record (deletion path)]
  ordered := by simp

theorem valid_both : both.Valid := by
  intro path member
  have known : path = "a.md" ∨ path = "b.md" := by simpa [Records.paths, both] using member
  rcases known with rfl | rfl
  · exact ⟨"a.md", by decide +kernel⟩
  · exact ⟨"b.md", by decide +kernel⟩

theorem valid_only {path : String} (known : path = "a.md" ∨ path = "b.md") : (only path).Valid := by
  intro other member
  obtain rfl : other = path := by simpa [Records.paths, only] using member
  rcases known with rfl | rfl
  · exact ⟨"a.md", by decide +kernel⟩
  · exact ⟨"b.md", by decide +kernel⟩

theorem exact_deletion {removed kept : String}
    (pair : (removed, kept) = ("a.md", "b.md") ∨ (removed, kept) = ("b.md", "a.md")) :
    both.Exact (only kept) (deletionOf removed) where
  tells := by
    intro item member
    refine ⟨_, List.mem_singleton.mp member, ?_⟩
    rcases pair with same | same <;> cases same <;>
      exact ⟨by decide +kernel, rfl, by decide +kernel, by decide +kernel⟩
  complete := by
    intro path changed
    refine mem_removedPaths.mpr ⟨_, List.mem_singleton_self _, .inr ?_⟩
    by_contra other
    refine changed ?_
    change removed ≠ path at other
    have load_both : both.load path =
        if path = "a.md" ∨ path = "b.md" then some holder else none := by
      by_cases first : "a.md" = path
      · simp [Records.load, Table.get?, both, ← first]
      · by_cases second : "b.md" = path
        · simp [Records.load, Table.get?, both, ← second]
        · simp [Records.load, Table.get?, both, first, second, Ne.symm first, Ne.symm second]
    have load_only : (only kept).load path = if path = kept then some holder else none := by
      by_cases here : kept = path
      · simp [Records.load, Table.get?, only, here]
      · simp [Records.load, Table.get?, only, here, Ne.symm here]
    rw [load_both, load_only]
    rcases pair with same | same <;> cases same <;> simp [Ne.symm other]

theorem harmless_deletion : PartialExample.workItems.Harmless both (only "b.md")
    (recordChanges (deletionOf "a.md")) where
  identities := by
    rintro value path ⟨member, ⟨outcome, loaded, holds⟩, _⟩
    obtain rfl : path = "b.md" := by simpa [Records.paths, only] using member
    have sameLoad : both.load "b.md" = (only "b.md").load "b.md" := rfl
    have reindexed : reindexedPaths (only "b.md") (recordChanges (deletionOf "a.md")) = [] := by
      decide +kernel
    rw [reindexed]
    refine .inr ⟨⟨by decide, ⟨outcome, sameLoad ▸ loaded, holds⟩, fun other known _ => ?_⟩, by simp⟩
    have names : other = "a.md" ∨ other = "b.md" := by simpa [Records.paths, both] using known
    rcases names with rfl | rfl <;> decide
  links := .inl (by decide +kernel)

end SharedIdentity

/-- The deletion of the first holder makes the tables of a rebuild. -/
theorem IndexedCollection.Maintained.same_as_rebuild_deletion :
    ∃ tables out built,
      PartialExample.workItems.rebuild SharedIdentity.both = .ok tables ∧
        PartialExample.workItems.applyChanges (SharedIdentity.only "b.md")
            (.exact (SharedIdentity.deletionOf "a.md")) tables = .ok out ∧
          PartialExample.workItems.rebuild (SharedIdentity.only "b.md") = .ok built ∧
            out.Same built := by
  have firstBuilds : (PartialExample.workItems.rebuild SharedIdentity.both).toOption.isSome := by
    decide +kernel
  have secondBuilds :
      (PartialExample.workItems.rebuild (SharedIdentity.only "b.md")).toOption.isSome := by
    decide +kernel
  cases first : PartialExample.workItems.rebuild SharedIdentity.both with
  | error error =>
    rw [first] at firstBuilds
    cases firstBuilds
  | ok tables =>
    cases second : PartialExample.workItems.rebuild (SharedIdentity.only "b.md") with
    | error error =>
      rw [second] at secondBuilds
      cases secondBuilds
    | ok built =>
      obtain ⟨out, applied, same⟩ :=
        (same_as_rebuild (.rebuilt SharedIdentity.valid_both first (.refl tables))).2
          (SharedIdentity.only "b.md") (SharedIdentity.deletionOf "a.md") built
          (SharedIdentity.valid_only (.inr rfl)) (SharedIdentity.exact_deletion (.inl rfl))
          SharedIdentity.harmless_deletion second
      exact ⟨tables, out, built, rfl, applied, rfl, same⟩

/-- When the last holder of a shared identity is deleted its row goes, and the other holder
gets none. -/
theorem IndexedCollection.applyChanges_drops_identity :
    ¬∀ (collection : IndexedCollection) (before after : Records) (batch : ChangeBatch)
        (tables built : CacheTables),
      before.Valid → after.Valid → before.Exact after batch →
        collection.rebuild before = .ok tables → collection.rebuild after = .ok built →
          ∃ out, collection.applyChanges after (.exact batch) tables = .ok out ∧
            out.Same built := by
  intro claim
  have dropped : (PartialExample.workItems.rebuild SharedIdentity.both).toOption.bind (fun tables =>
      (PartialExample.workItems.applyChanges (SharedIdentity.only "a.md")
        (.exact (SharedIdentity.deletionOf "b.md")) tables).toOption.map
          CacheTables.identityValues) = some [] := by
    decide +kernel
  have kept : (PartialExample.workItems.rebuild (SharedIdentity.only "a.md")).toOption.map
      CacheTables.identityValues = some [("shared", "a.md")] := by
    decide +kernel
  cases first : PartialExample.workItems.rebuild SharedIdentity.both with
  | error error =>
    rw [first] at dropped
    cases dropped
  | ok tables =>
    cases second : PartialExample.workItems.rebuild (SharedIdentity.only "a.md") with
    | error error =>
      rw [second] at kept
      cases kept
    | ok built =>
      obtain ⟨out, applied, same⟩ := claim _ _ _ _ tables built SharedIdentity.valid_both
        (SharedIdentity.valid_only (.inl rfl)) (SharedIdentity.exact_deletion (.inr rfl))
        first second
      rw [first] at dropped
      rw [second] at kept
      simp only [Except.toOption, Option.bind_some, Option.map_some, Option.some.injEq,
        applied] at dropped kept
      have rows := same.identityValues
      rw [dropped, kept] at rows
      exact absurd rows.length_eq (by decide)

end Mdbase.Cache
