import Mdbase.Cache.PartialIndex

/-!
# Settled tables

What a link resolves to depends on which rows the tables have, not on how they came about.
A rebuild makes the tables that hold the rows of the records, with every link as the whole
index resolves it, and with the last holder of every identity.
-/

namespace Mdbase.Cache

open Library Links
open Mdbase.Query (CatalogError)

/-- Two tables have the same rows of keys and types. -/
structure CacheTables.SameIndex (left right : CacheTables) : Prop where
  keys : ∀ row, row ∈ left.resolutionKeys ↔ row ∈ right.resolutionKeys
  types : left.fileTypes.Perm right.fileTypes

theorem strictlySorted_insertPath {paths : List String} (sorted : paths.Pairwise (· < ·))
    (path : String) : (insertPath paths path).Pairwise (· < ·) := by
  unfold insertPath
  split
  next => exact sorted
  rename_i absent
  have nodup : paths.Nodup := sorted.imp ne_of_lt
  have distinct : (paths ++ [path]).Nodup := by
    refine nodup.append (List.nodup_singleton _) ?_
    rintro other member same
    exact absent (List.mem_singleton.mp same ▸ member)
  have ordered := (paths ++ [path]).pairwise_insertionSort (· ≤ ·)
  have apart : ((paths ++ [path]).insertionSort (· ≤ ·)).Nodup :=
    ((List.perm_insertionSort (· ≤ ·) _).nodup_iff).mpr distinct
  exact (ordered.and apart).imp fun ⟨le, ne⟩ => lt_of_le_of_ne le ne

theorem strictlySorted_pathsOf {start : Option (List String)} {rows : List KeyRow}
    (sorted : (start.getD []).Pairwise (· < ·)) :
    ((pathsOf start rows).getD []).Pairwise (· < ·) := by
  induction rows generalizing start with
  | nil => exact sorted
  | cons row rows ih => exact ih (strictlySorted_insertPath sorted row.path)

theorem getD_pathsOf_congr {left right : List KeyRow} (same : ∀ row, row ∈ left ↔ row ∈ right) :
    (pathsOf none left).getD [] = (pathsOf none right).getD [] := by
  have sorted : ∀ rows : List KeyRow, ((pathsOf none rows).getD []).Pairwise (· < ·) :=
    fun rows => strictlySorted_pathsOf .nil
  refine List.Perm.eq_of_pairwise (fun _ _ _ _ below above => absurd below (lt_asymm above))
    (sorted left) (sorted right) ?_
  refine (List.perm_ext_iff_of_nodup ((sorted left).imp ne_of_lt)
    ((sorted right).imp ne_of_lt)).mpr fun path => ?_
  simp only [mem_pathsOf, List.mem_map, same]

variable {left right : CacheTables}

theorem CacheTables.typesOf_congr {path : String}
    (same : (left.fileTypes.filter (·.1 = path)).Perm (right.fileTypes.filter (·.1 = path))) :
    left.typesOf path = right.typesOf path := by
  have sorted : ((left.fileTypes.filter (·.1 = path)).map Prod.snd).insertionSort (· ≤ ·) =
      ((right.fileTypes.filter (·.1 = path)).map Prod.snd).insertionSort (· ≤ ·) := by
    refine List.Perm.eq_of_pairwise (fun _ _ _ _ below above => le_antisymm below above)
      (List.pairwise_insertionSort _ _) (List.pairwise_insertionSort _ _) ?_
    exact ((List.perm_insertionSort _ _).trans (same.map _)).trans
      (List.perm_insertionSort _ _).symm
  rw [typesOf, typesOf, sorted]

theorem CacheTables.SameIndex.isRecord (same : left.SameIndex right)
    (path : String) : left.isRecord path = right.isRecord path := by
  rw [Bool.eq_iff_iff, isRecord_iff, isRecord_iff]
  simp only [same.keys]

theorem CacheTables.SameIndex.typesByPath (same : left.SameIndex right) (path : String) :
    left.loadResolutionIndex.typesByPath path = right.loadResolutionIndex.typesByPath path := by
  rw [typesByPath_full, typesByPath_full, same.isRecord, typesOf_congr (same.types.filter _)]

theorem CacheTables.SameIndex.sameCandidates
    (same : left.SameIndex right) (targetTypes : List String) (lookup : ResolutionLookup) :
    left.loadResolutionIndex.SameCandidates right.loadResolutionIndex targetTypes lookup := by
  cases lookup with
  | simple key =>
    intro kind
    have rows : ∀ row, row ∈ rowsOf left.resolutionKeys kind key ↔
        row ∈ rowsOf right.resolutionKeys kind key := fun row => by simp [rowsOf, same.keys]
    rw [pathsByKey_full, pathsByKey_full, getD_pathsOf_congr rows]
    exact LinkResolutionIndex.eligiblePaths_congr (fun path _ => same.typesByPath path) _
  | path candidates =>
    intro candidate _
    refine ⟨?_, fun _ =>
      LinkResolutionIndex.eligiblePaths_congr (fun path _ => same.typesByPath path) _⟩
    rw [mem_knownPaths_full, mem_knownPaths_full, same.isRecord]

variable {collection : IndexedCollection}

theorem CacheTables.SameIndex.declaredTypes (same : left.SameIndex right) (row : LinkQuery) :
    collection.declaredTypes left.loadResolutionIndex row =
      collection.declaredTypes right.loadResolutionIndex row := by
  unfold IndexedCollection.declaredTypes
  rw [same.typesByPath]

theorem CacheTables.SameIndex.resolveQuery (same : left.SameIndex right) (row : LinkQuery) :
    collection.resolveQuery left.loadResolutionIndex row =
      collection.resolveQuery right.loadResolutionIndex row := by
  unfold IndexedCollection.resolveQuery
  rw [same.declaredTypes]
  exact LinkResolutionIndex.resolve_of_sameCandidates fun lookup _ =>
    same.sameCandidates _ lookup

/-- A link row as it is after it was resolved. -/
def IndexedCollection.settled (collection : IndexedCollection) (index : LinkResolutionIndex)
    (row : LinkRow) : LinkRow :=
  match collection.resolveRow index row with
  | .ok settled => settled
  | .error _ => row

section Settled

variable {collection : IndexedCollection} {index other : LinkResolutionIndex} {row : LinkRow}

theorem IndexedCollection.settled_congr
    (same : collection.resolveQuery index row.query = collection.resolveQuery other row.query) :
    collection.settled index row = collection.settled other row := by
  rw [settled, settled, resolveRow, resolveRow, same]

variable {target : Option String}

theorem IndexedCollection.settled_of_ok
    (resolves : collection.resolveQuery index row.query = .ok target) :
    collection.settled index row = row.settle target := by
  rw [settled, resolveRow, resolves]
  rfl

theorem IndexedCollection.settled_of_error {error : CatalogError}
    (fails : collection.resolveQuery index row.query = .error error) :
    collection.settled index row = row := by
  rw [settled, resolveRow, fails]
  rfl

@[simp] theorem IndexedCollection.sourcePath_settled :
    (collection.settled index row).sourcePath = row.sourcePath := by
  cases outcome : collection.resolveQuery index row.query with
  | error error => rw [settled_of_error outcome]
  | ok target =>
    rw [settled_of_ok outcome]
    rfl

@[simp] theorem IndexedCollection.query_settled :
    (collection.settled index row).query = row.query := by
  cases outcome : collection.resolveQuery index row.query with
  | error error => rw [settled_of_error outcome]
  | ok target =>
    rw [settled_of_ok outcome]
    rfl

theorem IndexedCollection.settled_settled
    (resolves : collection.resolveQuery index row.query = .ok target) :
    collection.settled index (collection.settled other row) = collection.settled index row := by
  have again : collection.resolveQuery index (collection.settled other row).query =
      .ok target := by
    rw [query_settled, resolves]
  rw [settled_of_ok again, settled_of_ok resolves]
  cases outcome : collection.resolveQuery other row.query with
  | error error => rw [settled_of_error outcome]
  | ok earlier =>
    rw [settled_of_ok outcome]
    rfl

end Settled

/-- A fallible map succeeds exactly if it does so on every item. -/
theorem mapM_eq_ok_iff {ε α β : Type} {f : α → Except ε β} {total : α → β} {items : List α}
    (agrees : ∀ item value, f item = .ok value → total item = value) (out : List β) :
    items.mapM f = .ok out ↔ (∀ item ∈ items, ∃ value, f item = .ok value) ∧
      out = items.map total := by
  induction items generalizing out with
  | nil => simp [pure, Except.pure, eq_comm]
  | cons item items ih =>
    rw [List.mapM_cons]
    cases first : f item with
    | error error =>
      constructor
      · intro absurd_
        cases absurd_
      · rintro ⟨all, _⟩
        obtain ⟨value, mapped⟩ := all item List.mem_cons_self
        rw [first] at mapped
        cases mapped
    | ok value =>
      change (items.mapM f >>= fun values => pure (value :: values)) = _ ↔ _
      cases rest : items.mapM f with
      | error error =>
        constructor
        · intro absurd_
          cases absurd_
        · rintro ⟨all, _⟩
          have mapped := (ih (items.map total)).mpr
            ⟨fun other member => all other (List.mem_cons_of_mem _ member), rfl⟩
          rw [rest] at mapped
          cases mapped
      | ok values =>
        obtain ⟨all, rfl⟩ := (ih values).mp rest
        have head := agrees item value first
        constructor
        · intro mapped
          cases mapped
          refine ⟨?_, by rw [List.map_cons, head]⟩
          rintro other member
          rcases List.mem_cons.mp member with rfl | member
          · exact ⟨value, first⟩
          · exact all other member
        · rintro ⟨_, rfl⟩
          rw [List.map_cons, head]
          rfl

/-- The index that links are resolved against. -/
def IndexedCollection.linkIndex (collection : IndexedCollection) (tables : CacheTables)
    (sources : Option (List String)) : LinkResolutionIndex :=
  match sources with
  | some _ => collection.partialIndex tables
      ((tables.links.filter fun row => sources.all (row.sourcePath ∈ ·)).map LinkRow.query)
  | none => tables.loadResolutionIndex

/-- Links are resolved exactly if every link of the sources resolves without an error. -/
theorem IndexedCollection.resolveLinks_ok_iff
    {tables out : CacheTables} (sources : Option (List String)) :
    collection.resolveLinks tables sources = .ok out ↔
      (∀ row ∈ tables.links, sources.all (row.sourcePath ∈ ·) →
        ∃ target, collection.resolveQuery (collection.linkIndex tables sources) row.query =
          .ok target) ∧
      out = { tables with
        links := tables.links.map fun row =>
          if sources.all (row.sourcePath ∈ ·) then
            collection.settled (collection.linkIndex tables sources) row
          else row } := by
  have unfolded : collection.resolveLinks tables sources =
      (tables.links.mapM fun row =>
        if sources.all (row.sourcePath ∈ ·) then
          collection.resolveRow (collection.linkIndex tables sources) row
        else .ok row).map fun links => { tables with links := links } := by
    cases sources <;> rfl
  have agrees : ∀ row value,
      (if sources.all (row.sourcePath ∈ ·) then
          collection.resolveRow (collection.linkIndex tables sources) row
        else .ok row) = .ok value →
      (if sources.all (row.sourcePath ∈ ·) then
          collection.settled (collection.linkIndex tables sources) row
        else row) = value := by
    intro row value mapped
    by_cases selected : sources.all (row.sourcePath ∈ ·)
    · rw [if_pos selected] at mapped ⊢
      rw [settled, mapped]
    · rw [if_neg selected] at mapped ⊢
      exact Except.ok.inj mapped
  have each : ∀ row : LinkRow,
      (∃ value, (if sources.all (row.sourcePath ∈ ·) then
          collection.resolveRow (collection.linkIndex tables sources) row
        else .ok row) = .ok value) ↔
      (sources.all (row.sourcePath ∈ ·) →
        ∃ target, collection.resolveQuery (collection.linkIndex tables sources) row.query =
          .ok target) := by
    intro row
    by_cases selected : sources.all (row.sourcePath ∈ ·)
    · rw [if_pos selected, resolveRow]
      cases collection.resolveQuery (collection.linkIndex tables sources) row.query with
      | error error => simp [selected, Except.map]
      | ok target => simp [Except.map]
    · rw [if_neg selected]
      simp [selected]
  rw [unfolded]
  constructor
  · intro done
    cases mapped : tables.links.mapM fun row =>
        if sources.all (row.sourcePath ∈ ·) then
          collection.resolveRow (collection.linkIndex tables sources) row
        else .ok row with
    | error error =>
      rw [mapped] at done
      cases done
    | ok links =>
      rw [mapped] at done
      cases done
      obtain ⟨all, rfl⟩ := (mapM_eq_ok_iff agrees links).mp mapped
      exact ⟨fun row member => (each row).mp (all row member), rfl⟩
  · rintro ⟨all, rfl⟩
    rw [(mapM_eq_ok_iff agrees _).mpr ⟨fun row member => (each row).mpr (all row member), rfl⟩]
    rfl

namespace CacheTables.Distinct

variable {collection : IndexedCollection} {tables : CacheTables}

theorem removeFile (distinct : tables.Distinct) (path : String) :
    (tables.removeFile path).Distinct where
  files := distinct.files.filter _
  fileTypes := distinct.fileTypes.filter _
  uniqueKeys := distinct.uniqueKeys.filter _
  identityValues := distinct.identityValues.filter _
  resolutionKeys := distinct.resolutionKeys.filter _

theorem indexRecordOutcome (distinct : tables.Distinct) (path : String)
    (outcome : RecordLoadOutcome) :
    (collection.indexRecordOutcome tables path outcome).Distinct := by
  have removed := distinct.removeFile path
  have file : (collection.recordRows path outcome).file.path = path := by
    cases outcome <;> rfl
  constructor
  · refine removed.files.append (List.nodup_singleton _) ?_
    rintro row member same
    obtain ⟨_, apart⟩ := List.mem_filter.mp member
    rw [List.mem_singleton.mp same, file] at apart
    simp at apart
  · exact nodup_foldl_insertOrIgnore removed.fileTypes _
  · exact nodup_foldl_insertOrIgnore removed.uniqueKeys _
  · unfold IndexedCollection.indexRecordOutcome CacheTables.addRows
    dsimp only
    cases (collection.recordRows path outcome).identity with
    | none => exact removed.identityValues
    | some value =>
      refine (removed.identityValues.filter _).append (List.nodup_singleton _) ?_
      rintro row member same
      rw [List.mem_singleton.mp same] at member
      simp at member
  · exact nodup_foldl_insertOrIgnore removed.resolutionKeys _

theorem reindexFiles (distinct : tables.Distinct) (records : Records) (paths : List String) :
    (paths.foldl (collection.reindexFile records) tables).Distinct := by
  induction paths generalizing tables with
  | nil => exact distinct
  | cons first rest ih =>
    refine ih ?_
    unfold IndexedCollection.reindexFile
    cases records.load first with
    | none => exact distinct.removeFile first
    | some outcome => exact distinct.indexRecordOutcome first outcome

theorem removeFiles (distinct : tables.Distinct) (paths : List String) :
    (paths.foldl CacheTables.removeFile tables).Distinct := by
  induction paths generalizing tables with
  | nil => exact distinct
  | cons first rest ih => exact ih (distinct.removeFile first)

end CacheTables.Distinct

theorem IndexedCollection.Contents.sameIndex {loads : Loads}
    (leftContents : collection.Contents loads left)
    (rightContents : collection.Contents loads right) (leftDistinct : left.Distinct)
    (rightDistinct : right.Distinct) : left.SameIndex right where
  keys := leftContents.resolutionKeys.same rightContents.resolutionKeys
  types := (List.perm_ext_iff_of_nodup leftDistinct.fileTypes rightDistinct.fileTypes).mpr
    (leftContents.fileTypes.same rightContents.fileTypes)

/-- Tables with the same rows, each as often. -/
structure CacheTables.Same (left right : CacheTables) : Prop where
  files : left.files.Perm right.files
  fileTypes : left.fileTypes.Perm right.fileTypes
  links : left.links.Perm right.links
  uniqueKeys : left.uniqueKeys.Perm right.uniqueKeys
  identityValues : left.identityValues.Perm right.identityValues
  resolutionKeys : left.resolutionKeys.Perm right.resolutionKeys

theorem CacheTables.Same.refl (tables : CacheTables) : tables.Same tables :=
  ⟨.refl _, .refl _, .refl _, .refl _, .refl _, .refl _⟩

/-- The resolution index of the records of a collection. -/
def IndexedCollection.wholeIndex (collection : IndexedCollection) (records : Records) :
    LinkResolutionIndex :=
  (collection.indexAll records).loadResolutionIndex

/-- Every link of the records is resolved, to a record or to none. -/
def IndexedCollection.Resolves (collection : IndexedCollection) (records : Records) : Prop :=
  ∀ path outcome, records.load path = some outcome →
    ∀ row ∈ collection.linksAt path outcome,
      ∃ target, collection.resolveQuery (collection.wholeIndex records) row.query = .ok target

/-- The links of a record as the whole index resolves them. -/
def IndexedCollection.settledLinks (collection : IndexedCollection) (records : Records)
    (path : String) (outcome : RecordLoadOutcome) : List LinkRow :=
  (collection.linksAt path outcome).map (collection.settled (collection.wholeIndex records))

/-- The tables are those of the records, up to identities. -/
structure IndexedCollection.Indexed (collection : IndexedCollection) (records : Records)
    (tables : CacheTables) : Prop where
  contents : collection.Contents records.load tables
  distinct : tables.Distinct

/-- The tables are those that a rebuild makes. -/
structure IndexedCollection.Current (collection : IndexedCollection) (records : Records)
    (tables : CacheTables) : Prop extends collection.Indexed records tables where
  links : DerivesBag LinkRow.sourcePath (collection.settledLinks records) records.load
    tables.links
  identities : ∀ value holder, (value, holder) ∈ tables.identityValues ↔
    collection.LastHolder records.load records.paths value holder

section Rebuilt

variable {collection : IndexedCollection} {records : Records} {tables other : CacheTables}

theorem IndexedCollection.indexed_indexAll (collection : IndexedCollection) (records : Records) :
    collection.Indexed records (collection.indexAll records) :=
  ⟨collection.contents_indexAll records, CacheTables.distinct_empty.reindexFiles records _⟩

theorem IndexedCollection.Current.same (current : collection.Current records tables)
    (otherCurrent : collection.Current records other) : tables.Same other where
  files := (List.perm_ext_iff_of_nodup current.distinct.files otherCurrent.distinct.files).mpr
    (current.contents.files.same otherCurrent.contents.files)
  fileTypes := (current.contents.sameIndex otherCurrent.contents current.distinct
    otherCurrent.distinct).types
  links := current.links.perm otherCurrent.links
  uniqueKeys :=
    (List.perm_ext_iff_of_nodup current.distinct.uniqueKeys
      otherCurrent.distinct.uniqueKeys).mpr
        (current.contents.uniqueKeys.same otherCurrent.contents.uniqueKeys)
  identityValues :=
    (List.perm_ext_iff_of_nodup current.distinct.identityValues
      otherCurrent.distinct.identityValues).mpr fun row =>
        (current.identities row.1 row.2).trans (otherCurrent.identities row.1 row.2).symm
  resolutionKeys :=
    (List.perm_ext_iff_of_nodup current.distinct.resolutionKeys
      otherCurrent.distinct.resolutionKeys).mpr
        (current.contents.resolutionKeys.same otherCurrent.contents.resolutionKeys)

theorem IndexedCollection.Current.of_same (current : collection.Current records other)
    (same : tables.Same other) : collection.Current records tables where
  contents :=
    { files := current.contents.files.of_same fun _ => same.files.mem_iff
      fileTypes := current.contents.fileTypes.of_same fun _ => same.fileTypes.mem_iff
      uniqueKeys := current.contents.uniqueKeys.of_same fun _ => same.uniqueKeys.mem_iff
      resolutionKeys :=
        current.contents.resolutionKeys.of_same fun _ => same.resolutionKeys.mem_iff }
  distinct :=
    { files := same.files.nodup_iff.mpr current.distinct.files
      fileTypes := same.fileTypes.nodup_iff.mpr current.distinct.fileTypes
      uniqueKeys := same.uniqueKeys.nodup_iff.mpr current.distinct.uniqueKeys
      identityValues := same.identityValues.nodup_iff.mpr current.distinct.identityValues
      resolutionKeys := same.resolutionKeys.nodup_iff.mpr current.distinct.resolutionKeys }
  links := current.links.of_perm same.links
  identities := fun value holder =>
    same.identityValues.mem_iff.trans (current.identities value holder)

theorem IndexedCollection.Indexed.resolveQuery (indexed : collection.Indexed records tables)
    (row : LinkQuery) :
    collection.resolveQuery tables.loadResolutionIndex row =
      collection.resolveQuery (collection.wholeIndex records) row := by
  have whole := collection.indexed_indexAll records
  exact (indexed.contents.sameIndex whole.contents indexed.distinct whole.distinct).resolveQuery row

theorem IndexedCollection.typesByPath_wholeIndex {before after : Records} {path : String}
    (same : before.load path = after.load path) :
    (collection.wholeIndex before).typesByPath path =
      (collection.wholeIndex after).typesByPath path := by
  have first := collection.indexed_indexAll before
  have second := collection.indexed_indexAll after
  have record : (collection.indexAll before).isRecord path =
      (collection.indexAll after).isRecord path := by
    rw [Bool.eq_iff_iff, CacheTables.isRecord_iff, CacheTables.isRecord_iff]
    refine exists_congr fun key => ?_
    rw [first.contents.resolutionKeys, second.contents.resolutionKeys, same]
  have rows : ((collection.indexAll before).fileTypes.filter (·.1 = path)).Perm
      ((collection.indexAll after).fileTypes.filter (·.1 = path)) := by
    refine (List.perm_ext_iff_of_nodup (first.distinct.fileTypes.filter _)
      (second.distinct.fileTypes.filter _)).mpr fun row => ?_
    rw [List.mem_filter, List.mem_filter, first.contents.fileTypes, second.contents.fileTypes]
    refine and_congr_left fun here => ?_
    rw [of_decide_eq_true here, same]
  rw [wholeIndex, wholeIndex, CacheTables.typesByPath_full, CacheTables.typesByPath_full, record,
    CacheTables.typesOf_congr rows]

theorem IndexedCollection.exists_rebuild_iff :
    (∃ tables, collection.rebuild records = .ok tables) ↔ collection.Resolves records := by
  have derived := collection.links_indexAll records
  constructor
  · rintro ⟨tables, built⟩ path outcome loaded row member
    have owned := (collection.recordRows_owned path outcome).2.1 row member
    refine ((resolveLinks_ok_iff none).mp built).1 row ?_ rfl
    exact derived.mem.mpr ⟨outcome, owned ▸ loaded, owned ▸ member⟩
  · intro resolves
    refine ⟨_, (resolveLinks_ok_iff none).mpr ⟨?_, rfl⟩⟩
    rintro row member -
    obtain ⟨outcome, loaded, linked⟩ := derived.mem.mp member
    exact resolves _ outcome loaded row linked

theorem IndexedCollection.Current.of_rebuild (built : collection.rebuild records = .ok tables) :
    collection.Current records tables := by
  obtain ⟨_, rfl⟩ := (resolveLinks_ok_iff none).mp built
  obtain ⟨contents, distinct⟩ := collection.indexed_indexAll records
  refine ⟨⟨⟨contents.files, contents.fileTypes, contents.uniqueKeys, contents.resolutionKeys⟩,
    ⟨distinct.files, distinct.fileTypes, distinct.uniqueKeys, distinct.identityValues,
      distinct.resolutionKeys⟩⟩, ?_, ?_⟩
  · exact (collection.links_indexAll records).map fun row => sourcePath_settled
  · exact fun value holder => mem_identityValues_indexAll

end Rebuilt

end Mdbase.Cache
