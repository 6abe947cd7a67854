import Mdbase.Cache.Contents

/-!
# The part of the index that links read

The part of the index that is loaded for some links has every key and path that their
lookups name. A record with a key has one for its file name too, so the part knows of its
records what the whole index knows. It also has the types of the sources, known or not.
-/

namespace Mdbase.Cache

open Library Links
open Mdbase.Runtime (Value)
open Mdbase.Query (CatalogError)

/-- Whatever has a key has a basename key. -/
def CacheTables.Keyed (tables : CacheTables) : Prop :=
  ∀ row ∈ tables.resolutionKeys, tables.isRecord row.path

variable {tables : CacheTables} {path : String}

theorem CacheTables.isRecord_iff :
    tables.isRecord path ↔ ∃ key, (⟨.basename, key, path⟩ : KeyRow) ∈ tables.resolutionKeys := by
  simp only [isRecord, List.any_eq_true, decide_eq_true_eq]
  constructor
  · rintro ⟨⟨kind, key, other⟩, member, rfl, rfl⟩
    exact ⟨key, member⟩
  · rintro ⟨key, member⟩
    exact ⟨_, member, rfl, rfl⟩

variable {collection : IndexedCollection} {loads : Loads}

theorem IndexedCollection.basename_of_parsed {path : String} {canonical : String}
    (valid : collectionPath path = .ok canonical) (facts : RecordFileFacts)
    (raw effective : Value) (body : String) (typeNames : List String) :
    ∃ key, (⟨.basename, key, path⟩ : KeyRow) ∈
      (collection.recordRows path (.parsed facts raw effective body typeNames)).resolutionKeys := by
  obtain ⟨rows, keys⟩ : ∃ rows, recordResolutionKeys collection.library.toResolutionLibrary
      collection.resolutionKeys path effective = some rows := by
    rw [recordResolutionKeys, valid]
    exact ⟨_, rfl⟩
  obtain ⟨key, basename⟩ := exists_basename_of_keys keys
  simp only [recordRows, keys, Option.getD_some]
  exact ⟨key, List.mem_map.mpr ⟨(.basename, key), basename, rfl⟩⟩

theorem IndexedCollection.basename_of_mem_keys {outcome : RecordLoadOutcome}
    {row : KeyRow} (member : row ∈ (collection.recordRows path outcome).resolutionKeys) :
    ∃ key, (⟨.basename, key, path⟩ : KeyRow) ∈
      (collection.recordRows path outcome).resolutionKeys := by
  cases outcome with
  | invalid => cases member
  | parsed facts raw effective body typeNames =>
    cases valid : collectionPath path with
    | error error => simp [recordRows, recordResolutionKeys, valid] at member
    | ok canonical => exact basename_of_parsed valid facts raw effective body typeNames

theorem IndexedCollection.Contents.keyed
    (contents : collection.Contents loads tables) : tables.Keyed := by
  intro row member
  obtain ⟨outcome, loaded, added⟩ := (contents.resolutionKeys row).mp member
  obtain ⟨key, basename⟩ := basename_of_mem_keys added
  exact CacheTables.isRecord_iff.mpr
    ⟨key, (contents.resolutionKeys _).mpr ⟨outcome, loaded, basename⟩⟩

theorem IndexedCollection.Contents.isRecord (contents : collection.Contents loads tables)
    {canonical : String} (valid : collectionPath path = .ok canonical) {facts : RecordFileFacts}
    {raw effective : Value} {body : String} {typeNames : List String}
    (loaded : loads path = some (.parsed facts raw effective body typeNames)) :
    tables.isRecord path := by
  obtain ⟨key, basename⟩ :=
    @basename_of_parsed collection path canonical valid facts raw effective body typeNames
  exact CacheTables.isRecord_iff.mpr ⟨key, (contents.resolutionKeys _).mpr ⟨_, loaded, basename⟩⟩

/-- The rows of one key. -/
def rowsOf (rows : List KeyRow) (kind : ResolutionKeyKind) (key : String) : List KeyRow :=
  rows.filter fun row => row.kind = kind ∧ row.key = key

/-- The paths that the rows of a key leave in the index. -/
def pathsOf (start : Option (List String)) (rows : List KeyRow) : Option (List String) :=
  rows.foldl (fun paths row => some (insertPath (paths.getD []) row.path)) start

theorem pathsByKey_loadKeys (tells : KeyRow → Bool) (rows : List KeyRow)
    (index : LinkResolutionIndex) (kind : ResolutionKeyKind) (key : String) :
    (loadKeys tells rows index).pathsByKey kind key =
      pathsOf (index.pathsByKey kind key) (rowsOf rows kind key) := by
  induction rows generalizing index with
  | nil => rfl
  | cons row rows ih =>
    rw [loadKeys, List.foldl_cons]
    change (loadKeys tells rows _).pathsByKey kind key = _
    rw [ih]
    simp only [LinkResolutionIndex.insertKey, rowsOf, List.filter_cons]
    by_cases here : row.kind = kind ∧ row.key = key
    · obtain ⟨rfl, rfl⟩ := here
      simp [pathsOf]
    · have elsewhere : ¬(kind = row.kind ∧ key = row.key) := fun ⟨kinds, keys⟩ =>
        here ⟨kinds.symm, keys.symm⟩
      rw [if_neg elsewhere, if_neg (by simpa using here)]

theorem mem_knownPaths_loadKeys {tells : KeyRow → Bool} {rows : List KeyRow}
    {index : LinkResolutionIndex} :
    path ∈ (loadKeys tells rows index).knownPaths ↔
      path ∈ index.knownPaths ∨ ∃ row ∈ rows, tells row ∧ row.path = path := by
  induction rows generalizing index with
  | nil => simp [loadKeys]
  | cons row rows ih =>
    rw [loadKeys, List.foldl_cons]
    change path ∈ (loadKeys tells rows _).knownPaths ↔ _
    rw [ih]
    by_cases telling : tells row
    · simp [telling, or_assoc, @eq_comm _ path row.path]
    · simp [telling]

theorem mem_insertPath {paths : List String} {path other : String} :
    other ∈ insertPath paths path ↔ other ∈ paths ∨ other = path := by
  unfold insertPath
  split
  next member =>
    constructor
    · exact .inl
    · rintro (present | rfl)
      · exact present
      · exact member
  next => simp

theorem mem_pathsOf {start : Option (List String)} {rows : List KeyRow} :
    path ∈ (pathsOf start rows).getD [] ↔ path ∈ start.getD [] ∨ path ∈ rows.map (·.path) := by
  induction rows generalizing start with
  | nil => simp [pathsOf]
  | cons row rows ih =>
    rw [pathsOf, List.foldl_cons]
    change path ∈ (pathsOf _ rows).getD [] ↔ _
    rw [ih, Option.getD_some, mem_insertPath, List.map_cons, List.mem_cons, or_assoc]

theorem rowsOf_flatMap {keys : List String} (distinct : keys.Nodup) (rows : List KeyRow)
    (kind : ResolutionKeyKind) {key : String} (member : key ∈ keys) :
    rowsOf (keys.flatMap fun other => rows.filter (·.key = other)) kind key =
      rowsOf rows kind key := by
  have apart : ∀ others : List String, key ∉ others →
      rowsOf (others.flatMap fun other => rows.filter (·.key = other)) kind key = [] := by
    intro others absent
    refine List.filter_eq_nil_iff.mpr fun row found here => ?_
    obtain ⟨other, otherMember, rowMember⟩ := List.mem_flatMap.mp found
    have same : row.key = other := by simpa using (List.mem_filter.mp rowMember).2
    have wanted : row.key = key := by simpa using (of_decide_eq_true here).2
    exact absent ((wanted.symm.trans same) ▸ otherMember)
  induction keys with
  | nil => cases member
  | cons first rest ih =>
    obtain ⟨absent, distinct⟩ := List.nodup_cons.mp distinct
    rw [rowsOf, List.flatMap_cons, List.filter_append]
    change _ ++ rowsOf (rest.flatMap fun other => rows.filter (·.key = other)) kind key = _
    rcases List.mem_cons.mp member with rfl | member
    · rw [apart rest absent, List.append_nil, List.filter_filter, rowsOf]
      refine List.filter_congr fun row _ => ?_
      by_cases same : row.key = key <;> simp [same]
    · rw [ih distinct member]
      have different : ¬first = key := fun same => absent (same ▸ member)
      have none_ : (rows.filter (·.key = first)).filter
          (fun row => row.kind = kind ∧ row.key = key) = [] := by
        refine List.filter_eq_nil_iff.mpr fun row found here => ?_
        have same : row.key = first := by simpa using (List.mem_filter.mp found).2
        have wanted : row.key = key := by simpa using (of_decide_eq_true here).2
        exact different (same.symm.trans wanted)
      rw [none_, List.nil_append]

section Loaders

variable {tables : CacheTables} {library : ResolutionLibrary} {rows : List LinkQuery}

theorem CacheTables.pathsByKey_full (kind : ResolutionKeyKind) (key : String) :
    tables.loadResolutionIndex.pathsByKey kind key =
      pathsOf none (rowsOf tables.resolutionKeys kind key) :=
  pathsByKey_loadKeys _ _ _ _ _

variable {path : String}

theorem CacheTables.mem_knownPaths_full :
    path ∈ tables.loadResolutionIndex.knownPaths ↔ tables.isRecord path := by
  refine mem_knownPaths_loadKeys.trans ?_
  simp [emptyIndex, isRecord, and_comm]

theorem CacheTables.typesByPath_full (path : String) :
    tables.loadResolutionIndex.typesByPath path =
      if tables.isRecord path then tables.typesOf path else none := by
  change (if path ∈ tables.loadResolutionIndex.knownPaths then _ else none) = _
  simp only [mem_knownPaths_full]

variable {row : LinkQuery}

theorem CacheTables.pathsByKey_part (member : row ∈ rows) {key : String}
    (looked : resolutionLookup library row.raw row.source = some (.simple key))
    (kind : ResolutionKeyKind) :
    (tables.loadCandidateResolutionIndex library rows).pathsByKey kind key =
      pathsOf none (rowsOf tables.resolutionKeys kind key) := by
  refine (pathsByKey_loadKeys _ _ _ _ _).trans ?_
  rw [rowsOf_flatMap (List.nodup_dedup _)]
  · rfl
  · rw [List.mem_dedup, List.mem_filterMap]
    exact ⟨_, List.mem_filterMap.mpr ⟨row, member, looked⟩, rfl⟩

theorem CacheTables.Keyed.isRecord_of_part (keyed : tables.Keyed)
    (known : path ∈ (tables.loadCandidateResolutionIndex library rows).knownPaths) :
    tables.isRecord path := by
  rcases List.mem_append.mp known with loaded | named
  · rcases mem_knownPaths_loadKeys.mp loaded with absurd_ | ⟨row, member, _, rfl⟩
    · cases absurd_
    · obtain ⟨key, _, rowMember⟩ := List.mem_flatMap.mp member
      exact keyed row (List.mem_of_mem_filter rowMember)
  · exact (List.mem_filter.mp named).2

theorem CacheTables.typesByPath_part
    (read : path ∈ (tables.loadCandidateResolutionIndex library rows).knownPaths ∨
      path ∈ rows.map (·.source)) :
    (tables.loadCandidateResolutionIndex library rows).typesByPath path = tables.typesOf path :=
  if_pos read

/-- The index of some candidates answers a lookup as the whole index does. -/
theorem CacheTables.Keyed.readsAlike (keyed : tables.Keyed)
    (member : row ∈ rows) {lookup : ResolutionLookup}
    (looked : resolutionLookup library row.raw row.source = some lookup) :
    (tables.loadCandidateResolutionIndex library rows).ReadsAlike tables.loadResolutionIndex
      lookup := by
  cases lookup with
  | simple key =>
    intro kind
    rw [pathsByKey_part member looked, pathsByKey_full]
    refine ⟨rfl, fun path found => ?_⟩
    rcases mem_pathsOf.mp found with absurd_ | keyedRow
    · cases absurd_
    · obtain ⟨keyRow, keyMember, rfl⟩ := List.mem_map.mp keyedRow
      obtain ⟨stored, matches_⟩ := List.mem_filter.mp keyMember
      have looksUp : key ∈ ((rows.filterMap fun row =>
          resolutionLookup library row.raw row.source).filterMap
            ResolutionLookup.simpleKey).dedup := by
        rw [List.mem_dedup, List.mem_filterMap]
        exact ⟨_, List.mem_filterMap.mpr ⟨row, member, looked⟩, rfl⟩
      have sameKey : keyRow.key = key := by simpa using (of_decide_eq_true matches_).2
      rw [typesByPath_full, if_pos (keyed keyRow stored), typesByPath_part]
      refine .inl (List.mem_append_left _ (mem_knownPaths_loadKeys.mpr (.inr ?_)))
      exact ⟨keyRow, List.mem_flatMap.mpr ⟨key, looksUp,
        List.mem_filter.mpr ⟨stored, by simpa using sameKey⟩⟩, rfl, rfl⟩
  | path candidates =>
    intro candidate candidateMember
    have named : candidate ∈ rows.map (·.source) ++
        (rows.filterMap fun row => resolutionLookup library row.raw row.source).flatMap
          ResolutionLookup.candidates :=
      List.mem_append_right _ (List.mem_flatMap.mpr
        ⟨_, List.mem_filterMap.mpr ⟨row, member, looked⟩, candidateMember⟩)
    have known : candidate ∈ (tables.loadCandidateResolutionIndex library rows).knownPaths ↔
        candidate ∈ tables.loadResolutionIndex.knownPaths := by
      rw [mem_knownPaths_full]
      exact ⟨keyed.isRecord_of_part,
        fun record => List.mem_append_right _ (List.mem_filter.mpr ⟨named, record⟩)⟩
    refine ⟨known, fun full => ?_⟩
    rw [typesByPath_part (.inl (known.mpr full)), typesByPath_full,
      if_pos (mem_knownPaths_full.mp full)]

theorem CacheTables.Keyed.resolve_part (keyed : tables.Keyed)
    (member : row ∈ rows) (targetTypes : List String) :
    (tables.loadCandidateResolutionIndex library rows).resolve library row.raw row.source
        targetTypes =
      tables.loadResolutionIndex.resolve library row.raw row.source targetTypes :=
  LinkResolutionIndex.resolveWithOptions_congr
    (fun _ looked => keyed.readsAlike member looked) targetTypes {}

theorem IndexedCollection.declaredTypes_part (member : row ∈ rows) :
    collection.declaredTypes (tables.loadCandidateResolutionIndex library rows) row =
      match row.field.filter (¬·.isEmpty) with
      | some field =>
        ((tables.typesOf row.source).map (collection.fieldTargetTypes · field)).getD []
      | none => [] := by
  unfold declaredTypes
  cases row.field.filter (¬·.isEmpty) with
  | none => rfl
  | some field => simp only [CacheTables.typesByPath_part (.inr (List.mem_map_of_mem member))]

theorem IndexedCollection.declaredTypes_part_eq (member : row ∈ rows)
    (record : tables.isRecord row.source) :
    collection.declaredTypes (tables.loadCandidateResolutionIndex library rows) row =
      collection.declaredTypes tables.loadResolutionIndex row := by
  rw [declaredTypes_part member]
  unfold declaredTypes
  cases row.field.filter (¬·.isEmpty) with
  | none => rfl
  | some field => simp only [CacheTables.typesByPath_full, if_pos record]

end Loaders

/-- The index that is loaded for some links. -/
def IndexedCollection.partialIndex (collection : IndexedCollection) (tables : CacheTables)
    (rows : List LinkQuery) : LinkResolutionIndex :=
  tables.loadCandidateResolutionIndex collection.library.toResolutionLibrary rows

theorem IndexedCollection.Contents.resolveQuery_part
    (contents : collection.Contents loads tables) {rows : List LinkQuery} {row : LinkQuery}
    (member : row ∈ rows) (record : tables.isRecord row.source) :
    collection.resolveQuery (collection.partialIndex tables rows) row =
      collection.resolveQuery tables.loadResolutionIndex row := by
  have declared : collection.declaredTypes (collection.partialIndex tables rows) row =
      collection.declaredTypes tables.loadResolutionIndex row :=
    declaredTypes_part_eq member record
  rw [resolveQuery, resolveQuery, declared]
  exact contents.keyed.resolve_part member _

/-- The links of parsed records have the same target types and resolve alike against the
part of the index and the whole of it. A link resolves alike against any two parts that
are loaded for it. -/
theorem IndexedCollection.resolveQuery_partialIndex {tables : CacheTables}
    (contents : collection.Contents loads tables) {rows : List LinkQuery} {row : LinkQuery}
    (member : row ∈ rows) :
    ((∃ canonical, collectionPath row.source = .ok canonical) →
      (∃ facts raw effective body typeNames,
        loads row.source = some (.parsed facts raw effective body typeNames)) →
      collection.declaredTypes (collection.partialIndex tables rows) row =
          collection.declaredTypes tables.loadResolutionIndex row ∧
        collection.resolveQuery (collection.partialIndex tables rows) row =
          collection.resolveQuery tables.loadResolutionIndex row) ∧
      ∀ larger, rows ⊆ larger →
        collection.declaredTypes (collection.partialIndex tables larger) row =
            collection.declaredTypes (collection.partialIndex tables rows) row ∧
          collection.resolveQuery (collection.partialIndex tables larger) row =
            collection.resolveQuery (collection.partialIndex tables rows) row := by
  have keyed := contents.keyed
  constructor
  · rintro ⟨canonical, valid⟩ ⟨facts, raw, effective, body, typeNames, loaded⟩
    have record := contents.isRecord valid loaded
    exact ⟨declaredTypes_part_eq member record, contents.resolveQuery_part member record⟩
  · intro larger within
    have declared : collection.declaredTypes (collection.partialIndex tables larger) row =
        collection.declaredTypes (collection.partialIndex tables rows) row :=
      (declaredTypes_part (within member)).trans (declaredTypes_part member).symm
    refine ⟨declared, ?_⟩
    rw [resolveQuery, resolveQuery, declared]
    exact (keyed.resolve_part (within member) _).trans (keyed.resolve_part member _).symm

namespace PartialExample

/-- A library that folds no letters and reads no links. -/
def library : IndexLibrary where
  toLowercase := id
  digest := fun _ _ => .ok ""
  uniqueness :=
    { toLowercase := id
      fieldValue := fun value field => value.get field
      print := fun _ => ""
      globMatches := fun _ _ => false }
  extractLinks := fun _ => []
  extractEmbeds := fun _ => []
  extractFrontmatterLinks := fun _ => []

/-- Tasks have an assignee, which is a person. -/
def workItems : IndexedCollection where
  library := library
  types := [("task", { fields := [("assignee", ⟨false, some "person", []⟩)], v03Frontmatter := none })]
  resolutionKeys := ⟨none, false⟩
  idField := "id"

/-- A task that cannot be parsed and a record of no type. -/
def records : Records where
  entries := [
    ("alice.md", .parsed ⟨"r1", 1, 0, none⟩ (.object []) (.object []) "" []),
    ("task.md", .invalid ⟨"r2", 1, 0, none⟩ ["task"] .invalidYaml)]
  sorted := by decide

/-- A link of the task. -/
def link : LinkQuery := ⟨"task.md", some "assignee", "alice"⟩

/-- A link of the record. -/
def otherLink : LinkQuery := ⟨"alice.md", some "assignee", "alice"⟩

end PartialExample

/-- The link of the record resolves alike against the part and the whole. -/
theorem IndexedCollection.resolveQuery_partialIndex_alice :
    PartialExample.workItems.resolveQuery (PartialExample.workItems.partialIndex
          (PartialExample.workItems.indexAll PartialExample.records) [PartialExample.otherLink])
        PartialExample.otherLink =
      PartialExample.workItems.resolveQuery
        (PartialExample.workItems.indexAll PartialExample.records).loadResolutionIndex
        PartialExample.otherLink :=
  ((resolveQuery_partialIndex (PartialExample.workItems.contents_indexAll PartialExample.records)
    (List.mem_singleton_self PartialExample.otherLink)).1 ⟨"alice.md", by decide +kernel⟩
      ⟨⟨"r1", 1, 0, none⟩, .object [], .object [], "", [], by decide +kernel⟩).2

/-- The part of the index has the types of a task that cannot be parsed, the whole has not. -/
theorem IndexedCollection.unparsable_link_disagrees :
    ¬∀ (collection : IndexedCollection) (records : Records) (rows : List LinkQuery),
      (∀ row ∈ rows, (records.load row.source).isSome) → ∀ row ∈ rows,
        collection.declaredTypes (collection.partialIndex (collection.indexAll records) rows)
              row =
            collection.declaredTypes (collection.indexAll records).loadResolutionIndex row ∧
          collection.resolveQuery (collection.partialIndex (collection.indexAll records) rows)
              row =
            collection.resolveQuery (collection.indexAll records).loadResolutionIndex row := by
  intro agrees
  have same := (agrees PartialExample.workItems PartialExample.records [PartialExample.link]
    (by decide +kernel) PartialExample.link (List.mem_singleton_self _)).1
  revert same
  decide +kernel

end Mdbase.Cache
