import Mdbase.Query.MetadataPlan

/-!
# When the metadata page plan is invisible

The metadata page plan answers as the general pipeline does whenever no cache is
in use. With a cache it does so exactly when the stored types pass the filter as
the current types do, the selected rows compare alike in SQLite and in memory, and
rows that show the links, embeds and tags of their body have bodies without any:
the general pipeline does not load the bodies it takes them from.
-/

namespace Mdbase.Query

open Library Mdbase.Runtime

theorem textsValue_injective {left right : List String}
    (same : textsValue left = textsValue right) : left = right := by
  simp only [textsValue, Value.array.injEq] at same
  exact List.map_injective_iff.mpr (fun _ _ => Value.string.inj) same

theorem get_completed (members : List (String × Value)) (tags links embeds : Value) :
    let completed := (((Value.object members).set "tags" tags).set "links" links).set "embeds" embeds
    completed.get "tags" = some tags ∧ completed.get "links" = some links ∧
      completed.get "embeds" = some embeds := by
  intro completed
  obtain ⟨one, first⟩ := Value.exists_set_eq_object members "tags" tags
  obtain ⟨two, second⟩ := Value.exists_set_eq_object one "links" links
  have shape : completed = (Value.object two).set "embeds" embeds := by
    rw [← second, ← first]
  refine ⟨?_, ?_, ?_⟩
  · rw [shape, Value.get_set_of_ne _ (by decide), ← second, Value.get_set_of_ne _ (by decide),
      ← first, Value.get_set_self]
  · rw [shape, Value.get_set_of_ne _ (by decide), ← second, Value.get_set_self]
  · rw [shape, Value.get_set_self]

variable {members : List (String × Value)}

theorem completed_inj {tags links embeds : List String}
    {otherTags otherLinks otherEmbeds : List String} :
    (((Value.object members).set "tags" (textsValue tags)).set "links" (textsValue links)).set
        "embeds" (textsValue embeds) =
      (((Value.object members).set "tags" (textsValue otherTags)).set "links"
        (textsValue otherLinks)).set "embeds" (textsValue otherEmbeds) ↔
      tags = otherTags ∧ links = otherLinks ∧ embeds = otherEmbeds := by
  constructor
  · intro same
    obtain ⟨oneTags, oneLinks, oneEmbeds⟩ := get_completed members (textsValue tags)
      (textsValue links) (textsValue embeds)
    obtain ⟨twoTags, twoLinks, twoEmbeds⟩ := get_completed members (textsValue otherTags)
      (textsValue otherLinks) (textsValue otherEmbeds)
    rw [same, twoTags] at oneTags
    rw [same, twoLinks] at oneLinks
    rw [same, twoEmbeds] at oneEmbeds
    exact ⟨(textsValue_injective (Option.some.inj oneTags)).symm,
      (textsValue_injective (Option.some.inj oneLinks)).symm,
      (textsValue_injective (Option.some.inj oneEmbeds)).symm⟩
  · rintro ⟨rfl, rfl, rfl⟩
    rfl

theorem get_withMember {name key : String} (different : key ≠ name)
    (item : Option Value) : ∃ after, withMember (.object members) name item = .object after ∧
      (Value.object after).get key = (Value.object members).get key := by
  cases item with
  | none => exact ⟨members, rfl, rfl⟩
  | some value =>
    obtain ⟨after, assigned⟩ := Value.exists_set_eq_object members name value
    exact ⟨after, assigned, by rw [← assigned, Value.get_set_of_ne _ different]⟩

theorem RecordMaterial.get_render (material : RecordMaterial) (output : Option QueryOutput) :
    (material.render output).get "path" = some (.string material.path) ∧
      (output = none → (material.render output).get "file" = some material.file) := by
  cases output with
  | some narrow => exact ⟨rfl, fun absent => by cases absent⟩
  | none =>
    have kept : ∀ key, key ∉ ["frontmatter", "effective_frontmatter", "body", "values"] →
        (material.render none).get key = (Value.object [("file", material.file),
          ("path", .string material.path), ("revision", .string material.revision),
          ("types", textsValue material.types)]).get key := by
      intro key other
      simp only [List.mem_cons, List.not_mem_nil, or_false, not_or] at other
      obtain ⟨frontmatter, effective, body, values⟩ := other
      simp only [RecordMaterial.render]
      obtain ⟨one, first, same⟩ := get_withMember frontmatter material.frontmatter
      rw [first, ← same]
      obtain ⟨two, second, same⟩ := get_withMember effective material.effectiveFrontmatter
      rw [second, ← same]
      obtain ⟨three, third, same⟩ := get_withMember body (material.body.map .string)
      rw [third, ← same]
      obtain ⟨four, fourth, same⟩ := get_withMember values (material.values.map .object)
      rw [fourth, same]
    refine ⟨?_, fun _ => ?_⟩
    · rw [kept "path" (by decide)]
      rfl
    · rw [kept "file" (by decide)]
      rfl

/-- The parsed record of a row, with a given body. -/
def CachedRow.fileRecord (row : CachedRow) (body : String) : FileRecord where
  relPath := row.path
  sourceRevision := row.sourceRevision
  rawFrontmatter := row.frontmatter
  effectiveFrontmatter := row.frontmatter
  body := body
  typeNames := row.typeNames
  fileSize := row.size
  fileMtimeIso := row.mtimeIso
  fileCtimeIso := row.ctimeIso

namespace Collection

variable {collection : Collection} {query : PlainQuery} {row : CachedRow}

/-- The current types of a row pass the filter. -/
def wantedNow (collection : Collection) (types : List String) (row : CachedRow) : Bool :=
  types.isEmpty || (collection.determineTypes row.frontmatter row.path).any fun actual =>
    types.any fun wanted => eqIgnoreAsciiCase wanted actual

/-- The body with which a record is loaded. -/
def loadedBody (collection : Collection) (query : PlainQuery) (row : CachedRow) : String :=
  if collection.needsBodies query then row.body else ""

/-- The row of an answer for a row of the table, made from a given body. -/
def answerRow (collection : Collection) (query : PlainQuery) (body : String) (row : CachedRow) :
    Value :=
  query.serializeCandidate collection.scan (collection.candidate (row.fileRecord body) true)

theorem metadataRow_toRecord (parsed : row.failureReason = none) (typeNames : List String)
    (effective : Value) (body : String) :
    collection.metadataRow query (row.toRecord typeNames effective body) =
      collection.answerRow query body row := by
  rw [CachedRow.toRecord, parsed]
  rfl

theorem exists_completeFileValue (scan : BodyScan) (record : FileRecord) :
    ∃ members, ∀ here effective body,
      scan.completeFileValue (scan.fileValue record here false) effective body =
        (((Value.object members).set "tags" (textsValue (scan.allTags effective body))).set "links"
          (textsValue (scan.links body))).set "embeds" (textsValue (scan.embeds body)) := by
  have shape : ∃ members, (∀ here, scan.fileValue record here false = .object members) ∧
      (Value.object members).get "tags" = none :=
    ⟨_, fun _ => rfl, rfl⟩
  obtain ⟨members, shape, untagged⟩ := shape
  refine ⟨members, fun here effective body => ?_⟩
  rw [BodyScan.completeFileValue, shape, untagged, if_neg (by simp)]

theorem completeFileValue_fileValue (scan : BodyScan) (record : FileRecord) (effective : Value) :
    scan.completeFileValue (scan.fileValue record effective true) effective record.body =
      scan.completeFileValue (scan.fileValue record effective false) effective record.body := by
  have whole : scan.fileValue record effective true =
      scan.completeFileValue (scan.fileValue record effective false) effective record.body := rfl
  obtain ⟨members, shape⟩ := exists_completeFileValue scan record
  have tagged := (get_completed members (textsValue (scan.allTags effective record.body))
    (textsValue (scan.links record.body)) (textsValue (scan.embeds record.body))).1
  rw [whole, shape, BodyScan.completeFileValue, tagged, Option.isSome_some, if_pos rfl]

theorem serializeCandidate_false (record : FileRecord) :
    query.serializeCandidate collection.scan (collection.candidate record false) =
      query.serializeCandidate collection.scan (collection.candidate record true) := by
  unfold PlainQuery.serializeCandidate
  cases output : query.output with
  | none =>
    have same := completeFileValue_fileValue collection.scan record
      (collection.candidate record true).effective
    simp only [candidate] at same ⊢
    simp only [Option.isNone_none, if_true, same]
  | some narrow => rfl

/-- The metadata that a body adds to a row is not shown, is read from the loaded
body, or is that of no body at all. -/
def BodyUnseen (collection : Collection) (query : PlainQuery) (row : CachedRow) : Prop :=
  collection.needsBodies query = true ∨ query.output = some .metadata ∨
    (let effective := collection.effective row.frontmatter
      (collection.determineTypes row.frontmatter row.path) row.path row.body
    collection.scan.allTags effective row.body = collection.scan.allTags effective "" ∧
      collection.scan.links row.body = collection.scan.links "" ∧
      collection.scan.embeds row.body = collection.scan.embeds "")

theorem get_path_answerRow (body : String) :
    (collection.answerRow query body row).get "path" = some (.string row.path) :=
  (RecordMaterial.get_render _ _).1

/-- A row is answered without its body as with it exactly if the query does not see the body. -/
theorem answerRow_eq_iff :
    collection.answerRow query row.body row =
      collection.answerRow query (collection.loadedBody query row) row ↔
      collection.BodyUnseen query row := by
  unfold loadedBody BodyUnseen
  by_cases bodies : collection.needsBodies query = true
  · simp [bodies]
  · have notComputed : collection.computed = false := by
      simp only [needsBodies, Bool.or_eq_true, not_or, Bool.not_eq_true] at bodies
      exact bodies.2
    have hidden : query.includeBody = false := by
      simp only [needsBodies, Bool.or_eq_true, not_or, Bool.not_eq_true] at bodies
      exact bodies.1
    have sameEffective := collection.effective_of_not_computed notComputed row.frontmatter
      (collection.determineTypes row.frontmatter row.path) row.path "" row.body
    rw [if_neg bodies, or_iff_right bodies]
    cases output : query.output with
    | some narrow =>
      refine iff_of_true ?_ (.inl rfl)
      unfold answerRow PlainQuery.serializeCandidate
      rw [output]
      rfl
    | none =>
      rw [or_iff_right (by simp)]
      obtain ⟨members, shape⟩ := exists_completeFileValue collection.scan (row.fileRecord "")
      have file : ∀ body, collection.scan.completeFileValue
          (collection.candidate (row.fileRecord body) true).file
          (collection.candidate (row.fileRecord body) true).effective body =
          collection.scan.completeFileValue
            (collection.scan.fileValue (row.fileRecord "") .null false)
            (collection.effective row.frontmatter
              (collection.determineTypes row.frontmatter row.path) row.path row.body) body := by
        intro body
        have effective := collection.effective_of_not_computed notComputed row.frontmatter
          (collection.determineTypes row.frontmatter row.path) row.path body row.body
        rw [← effective]
        exact completeFileValue_fileValue collection.scan (row.fileRecord body) _
      constructor
      · intro same
        have files := congrArg (fun shown => Value.get shown "file") same
        simp only [answerRow, PlainQuery.serializeCandidate] at files
        rw [(RecordMaterial.get_render _ _).2 output, (RecordMaterial.get_render _ _).2 output]
          at files
        simp only [output, Option.isNone_none, if_true, Option.some.injEq] at files
        change collection.scan.completeFileValue _ _ row.body =
          collection.scan.completeFileValue _ _ "" at files
        rw [file, file, shape, shape] at files
        exact completed_inj.mp files
      · intro facts
        have files : collection.scan.completeFileValue
            (collection.candidate (row.fileRecord row.body) true).file
            (collection.candidate (row.fileRecord row.body) true).effective row.body =
            collection.scan.completeFileValue
              (collection.candidate (row.fileRecord "") true).file
              (collection.candidate (row.fileRecord "") true).effective "" := by
          rw [file, file, shape, shape]
          exact completed_inj.mpr facts
        have effective : (collection.candidate (row.fileRecord row.body) true).effective =
            (collection.candidate (row.fileRecord "") true).effective := sameEffective.symm
        simp only [answerRow, PlainQuery.serializeCandidate, output, hidden, Option.isNone_none,
          if_true, if_false, Bool.false_eq_true]
        congr 2
        rw [effective]

/-- A page of rows of the table as an answer. -/
def answer (window : Window) (show_ : CachedRow → Value) (ordered : List CachedRow) : Answer where
  rows := (window.slice ordered).map show_
  total := ordered.length
  hasMore := window.hasMore ordered.length (window.slice ordered).length

theorem exists_record_eq_toRecord (collection : Collection) (cached includeBodies : Bool)
    (row : CachedRow) :
    ∃ typeNames effective, collection.record cached includeBodies row =
      row.toRecord typeNames effective (if includeBodies then row.body else "") := by
  unfold record CachedRow.loaded
  cases cached <;> exact ⟨_, _, rfl⟩

theorem recordMetadataValue_record (collection : Collection) (cached includeBodies : Bool)
    (row : CachedRow) (field : String) : recordMetadataValue (collection.record cached includeBodies row) field =
      recordMetadataValue row.selected field := by
  obtain ⟨typeNames, effective, shape⟩ :=
    exists_record_eq_toRecord collection cached includeBodies row
  rw [shape, CachedRow.recordMetadataValue_toRecord]

theorem metadataRow_record (parsed : row.failureReason = none) (cached : Bool) :
    collection.metadataRow query (collection.record cached (collection.needsBodies query) row) =
      collection.answerRow query (collection.loadedBody query row) row := by
  obtain ⟨typeNames, effective, shape⟩ :=
    exists_record_eq_toRecord collection cached (collection.needsBodies query) row
  rw [shape, metadataRow_toRecord parsed]
  rfl

theorem eqIgnoreAsciiCase_comm (left right : String) :
    eqIgnoreAsciiCase left right = eqIgnoreAsciiCase right left := by
  simp [eqIgnoreAsciiCase, eq_comm]

theorem wanted_record_uncached (parsed : row.failureReason = none) (includeBodies : Bool)
    (types : List String) : wanted types (collection.record false includeBodies row) =
      collection.wantedNow types row := by
  simp only [record, Bool.false_eq_true, if_false, CachedRow.toRecord, parsed, wanted,
    LocalRecord.types, wantedNow, eqIgnoreAsciiCase_comm]

/-- With a cache it filters by the stored types, or the current ones where none are
stored. -/
theorem wanted_record_cached (parsed : row.failureReason = none) (includeBodies : Bool)
    {types : List String} (stored : sqlWanted types row = collection.wantedNow types row) :
    wanted types (collection.record true includeBodies row) = collection.wantedNow types row := by
  have filter : wanted types (collection.record true includeBodies row) =
      if row.typeNames.isEmpty then collection.wantedNow types row else sqlWanted types row := by
    simp only [record, if_true, CachedRow.loaded, CachedRow.toRecord, parsed, wanted,
      LocalRecord.types, wantedNow, sqlWanted]
    split
    · simp only [eqIgnoreAsciiCase_comm]
    · simp only [any_eqIgnoreAsciiCase]
  rw [filter]
  split
  · rfl
  · exact stored

variable {rows : List CachedRow}

theorem memoryAnswer (parsed : ∀ row ∈ rows, row.failureReason = none)
    {cached : Bool} (wants : ∀ row ∈ rows, wanted query.types
      (collection.record cached (collection.needsBodies query) row) =
        collection.wantedNow query.types row) (orderBy : List OrderBy) (window : Window) :
    let page := memoryPage query.types orderBy window
      (collection.records cached (collection.needsBodies query) rows)
    Answer.mk (page.records.map (collection.metadataRow query)) page.total page.hasMore =
      answer window (fun row => collection.answerRow query (collection.loadedBody query row) row)
        (sortBy (compareLoaded orderBy) (rows.filter (collection.wantedNow query.types))) := by
  intro page
  have shape : page = _ := memoryPage_map (recordMetadataValue_record collection cached _) wants
    orderBy window
  rw [shape, answer]
  simp only [List.map_map, Answer.mk.injEq, and_true]
  apply List.map_congr_left
  intro row member
  exact metadataRow_record (parsed row (mem_of_mem_slice member).1) cached

theorem candidateValue_candidate (body : String) {field : String}
    (sortField : field ∈ metadataSortFields) :
    candidateValue (collection.candidate (row.fileRecord body) false) field =
      recordMetadataValue row.selected field := by
  obtain ⟨path, size, mtime, ctime⟩ := row.recordMetadataValue_selected
  have name : recordMetadataValue row.selected "file.name" = .string (fileName row.path) := by
    rw [← CachedRow.path_selected]
    rfl
  have folder : recordMetadataValue row.selected "file.folder" = .string (folderOf row.path) := by
    rw [← CachedRow.path_selected]
    rfl
  simp only [metadataSortFields, List.mem_cons, List.not_mem_nil, or_false] at sortField
  rcases sortField with rfl | rfl | rfl | rfl | rfl | rfl
  · exact path.symm
  · exact name.symm
  · exact folder.symm
  · exact size.symm
  · exact mtime.symm
  · exact ctime.symm

variable {orderBy : List OrderBy}

theorem compareCandidates_candidate (left right : CachedRow) (leftBody rightBody : String)
    (sortFields : ∀ order ∈ orderBy, order.field ∈ metadataSortFields) :
    compareCandidates orderBy (collection.candidate (left.fileRecord leftBody) false)
      (collection.candidate (right.fileRecord rightBody) false) =
      compareLoaded orderBy left right := by
  induction orderBy with
  | nil =>
    simp only [compareCandidates, compareLoaded, compareRecords, CachedRow.path_selected]
    rfl
  | cons order rest ih =>
    have sortField := sortFields order List.mem_cons_self
    rw [compareCandidates, candidateValue_candidate leftBody sortField,
      candidateValue_candidate rightBody sortField,
      ih fun later member => sortFields later (List.mem_cons_of_mem _ member)]
    rfl

/-- The general plan answers the sorted rows that are wanted, each read on its own. -/
theorem generalPlan_eq (parsed : ∀ row ∈ rows, row.failureReason = none) (cached : Bool)
    (sortFields : ∀ order ∈ orderBy, order.field ∈ metadataSortFields) (window : Window) :
    collection.generalPlan cached query orderBy window rows =
      answer window (fun row => collection.answerRow query (collection.loadedBody query row) row)
        (sortBy (compareLoaded orderBy) (rows.filter (collection.wantedNow query.types))) := by
  have noBody : (orderBy.any fun order => order.field ∈ fileBodyFields) = false := by
    have disjoint : ∀ field ∈ metadataSortFields, field ∉ fileBodyFields := by decide
    rw [List.any_eq_false]
    intro order member
    simpa using disjoint order.field (sortFields order member)
  let make : CachedRow → Candidate := fun row =>
    collection.candidate (row.fileRecord (collection.loadedBody query row)) false
  have candidates : (collection.records cached (collection.needsBodies query) rows).filterMap
      (collection.candidateOf false) = rows.map make := by
    rw [records, List.filterMap_map, ← List.filterMap_eq_map]
    apply List.filterMap_congr
    intro row member
    obtain ⟨typeNames, effective, shape⟩ :=
      exists_record_eq_toRecord collection cached (collection.needsBodies query) row
    rw [Function.comp_apply, Function.comp_apply, shape, CachedRow.toRecord, parsed row member]
    rfl
  have kept : (rows.map make).filter (candidateWanted query.types) =
      (rows.filter (collection.wantedNow query.types)).map make := by
    rw [List.filter_map]
    rfl
  have sorted : sortCandidates ((rows.filter (collection.wantedNow query.types)).map make) orderBy =
      (sortBy (compareLoaded orderBy) (rows.filter (collection.wantedNow query.types))).map make :=
    (map_sortBy make fun left _ right _ =>
      (compareCandidates_candidate left right _ _ sortFields).symm).symm
  have shown : ∀ row, query.serializeCandidate collection.scan (make row) =
      collection.answerRow query (collection.loadedBody query row) row :=
    fun row => serializeCandidate_false (row.fileRecord (collection.loadedBody query row))
  simp only [generalPlan, noBody, candidates, kept, sorted, Window.slice_map, List.length_map,
    List.map_map, answer, Function.comp_def, shown]

variable {order : List (List SqlTerm × Direction)}

theorem metadataPlan_sql (parsed : ∀ row ∈ collection.table.rows, row.failureReason = none)
    (perm : rows.Perm collection.table.rows)
    (found : sqlOrder orderBy = some order) (window : Window) :
    collection.metadataPlan true query orderBy window rows =
      answer window (fun row => collection.answerRow query row.body row)
        (sortBy (compareSql order) (rows.filter (sqlWanted query.types))) := by
  have countable : rows.length ≤ i64Max := by
    rw [perm.length_eq]
    exact collection.table.countable
  simp only [metadataPlan, if_true, sqlPage_eq countable found, Option.getD_some, List.map_map,
    answer, Answer.mk.injEq, and_true]
  apply List.map_congr_left
  intro row member
  exact metadataRow_toRecord (parsed row (perm.mem_iff.mp (mem_of_mem_slice member).1)) _ _ _

/-- Consecutive windows of the given sizes, and one without a limit for the rest. -/
def windows : (offset : Nat) → (sizes : List Nat) → List Window
  | offset, [] => [{ offset := offset, limit := none }]
  | offset, size :: sizes =>
    { offset := offset, limit := some size } :: windows (offset + size) sizes

theorem flatMap_windows {α : Type} (ordered : List α) (offset : Nat) (sizes : List Nat) :
    (windows offset sizes).flatMap (fun window => window.slice ordered) = ordered.drop offset := by
  have skipped : ∀ offset, ordered.drop (min offset ordered.length) = ordered.drop offset := by
    intro offset
    rcases le_total offset ordered.length with within | beyond
    · rw [min_eq_left within]
    · rw [min_eq_right beyond, List.drop_length, List.drop_eq_nil_of_le beyond]
  induction sizes generalizing offset with
  | nil => simp [windows, Window.slice, skipped]
  | cons size sizes ih =>
    rw [windows, List.flatMap_cons, ih, Window.slice]
    simp only [skipped]
    rw [← List.drop_drop, List.take_append_drop]

/-- The metadata page plan does not change answers: for every order by file metadata,
every window and every order in which the rows are loaded it answers as the general
pipeline, and consecutive windows make up the answer without a limit. -/
def PlanInvisible (collection : Collection) (cached : Bool) (query : PlainQuery) : Prop :=
  ∀ orderBy : List OrderBy, (∀ order ∈ orderBy, order.field ∈ metadataSortFields) →
    (∀ (window : Window) (one other : List CachedRow), one.Perm collection.table.rows →
      other.Perm collection.table.rows →
      collection.metadataPlan cached query orderBy window one =
        collection.generalPlan cached query orderBy window other) ∧
    ∀ sizes : List Nat,
      (windows 0 sizes).flatMap (fun window =>
        (collection.metadataPlan cached query orderBy window collection.table.rows).rows) =
      (collection.metadataPlan cached query orderBy { offset := 0, limit := none }
        collection.table.rows).rows

/-- What the cache must not disturb: the stored types pass the filter as the current
ones do, the selected rows compare alike in SQLite and in memory, and their bodies
add nothing to the rows that the general pipeline would miss. -/
structure Undisturbed (collection : Collection) (query : PlainQuery) : Prop where
  types : ∀ row ∈ collection.table.rows,
    sqlWanted query.types row = collection.wantedNow query.types row
  orderable : ∀ left ∈ collection.table.rows, ∀ right ∈ collection.table.rows,
    collection.wantedNow query.types left = true → collection.wantedNow query.types right = true →
      left.Orderable right
  bodies : ∀ row ∈ collection.table.rows, collection.wantedNow query.types row = true →
    collection.BodyUnseen query row

theorem exists_metadataPlan_eq_answer (collection : Collection) (cached : Bool)
    (query : PlainQuery) (orderBy : List OrderBy) :
    ∃ (make : LocalRecord → Value) (ordered : List LocalRecord), ∀ window,
      (collection.metadataPlan cached query orderBy window collection.table.rows).rows =
        (window.slice ordered).map make := by
  by_cases sql : cached = true ∧ (sqlOrder orderBy).isSome
  · obtain ⟨rfl, representable⟩ := sql
    obtain ⟨order, found⟩ := Option.isSome_iff_exists.mp representable
    refine ⟨collection.metadataRow query, (sortBy (compareSql order)
      (collection.table.rows.filter (sqlWanted query.types))).map CachedRow.selected,
      fun window => ?_⟩
    simp only [metadataPlan, if_true, sqlPage_eq collection.table.countable found, Option.getD_some,
      Window.slice_map]
  · refine ⟨collection.metadataRow query, sortBy (compareRecords orderBy)
      ((collection.records cached (collection.needsBodies query) collection.table.rows).filter
        (wanted query.types)), fun window => ?_⟩
    have inMemory : (if cached = true then (sqlPage query.types orderBy window
          collection.table.rows).getD (memoryPage query.types orderBy window
            (collection.records cached (collection.needsBodies query) collection.table.rows))
        else memoryPage query.types orderBy window
          (collection.records cached (collection.needsBodies query) collection.table.rows)) =
        memoryPage query.types orderBy window
          (collection.records cached (collection.needsBodies query) collection.table.rows) := by
      split
      next here =>
        have absent : sqlOrder orderBy = none := by
          simpa [here] using sql
        rw [sqlPage, absent]
        rfl
      next => rfl
    simp only [metadataPlan, inMemory]
    rfl

theorem flatMap_metadataPlan (collection : Collection) (cached : Bool) (query : PlainQuery)
    (orderBy : List OrderBy) (sizes : List Nat) :
    (windows 0 sizes).flatMap (fun window =>
        (collection.metadataPlan cached query orderBy window collection.table.rows).rows) =
      (collection.metadataPlan cached query orderBy { offset := 0, limit := none }
        collection.table.rows).rows := by
  obtain ⟨make, ordered, pages⟩ := exists_metadataPlan_eq_answer collection cached query orderBy
  simp only [pages, ← List.map_flatMap, flatMap_windows]
  simp [Window.slice]

theorem sortBy_compareLoaded_perm
    (perm : rows.Perm collection.table.rows) (orderBy : List OrderBy) (keep : CachedRow → Bool) :
    sortBy (compareLoaded orderBy) (rows.filter keep) =
      sortBy (compareLoaded orderBy) (collection.table.rows.filter keep) :=
  (compareLoaded_ordersOn orderBy _).sortBy_eq_of_perm
    (SeparatesOn.mono (collection.table.compareLoaded_separates orderBy)
      fun _ member => (List.mem_filter.mp member).1) (perm.filter keep)

theorem sortBy_compareSql_perm
    (perm : rows.Perm collection.table.rows) (order : List (List SqlTerm × Direction))
    (keep : CachedRow → Bool) : sortBy (compareSql order) (rows.filter keep) =
      sortBy (compareSql order) (collection.table.rows.filter keep) :=
  (compareSql_ordersOn order _).sortBy_eq_of_perm
    (SeparatesOn.mono (collection.table.compareSql_separates order)
      fun _ member => (List.mem_filter.mp member).1) (perm.filter keep)

theorem memoryAnswer_eq_generalPlan {cached : Bool} {one other : List CachedRow}
    (onePerm : one.Perm collection.table.rows) (otherPerm : other.Perm collection.table.rows)
    (wants : ∀ row ∈ collection.table.rows, wanted query.types
      (collection.record cached (collection.needsBodies query) row) =
        collection.wantedNow query.types row)
    (sortFields : ∀ order ∈ orderBy, order.field ∈ metadataSortFields) (window : Window) :
    let page := memoryPage query.types orderBy window
      (collection.records cached (collection.needsBodies query) one)
    Answer.mk (page.records.map (collection.metadataRow query)) page.total page.hasMore =
      collection.generalPlan cached query orderBy window other := by
  intro page
  rw [generalPlan_eq (fun row member => collection.parsed row (otherPerm.mem_iff.mp member)) cached
      sortFields, sortBy_compareLoaded_perm otherPerm, ← sortBy_compareLoaded_perm onePerm]
  exact memoryAnswer (fun row member => collection.parsed row (onePerm.mem_iff.mp member))
    (fun row member => wants row (onePerm.mem_iff.mp member)) orderBy window

theorem planInvisible_uncached (collection : Collection) (query : PlainQuery) :
    collection.PlanInvisible false query := by
  refine fun orderBy sortFields => ⟨fun window one other onePerm otherPerm => ?_,
    flatMap_metadataPlan collection false query orderBy⟩
  exact memoryAnswer_eq_generalPlan onePerm otherPerm
    (fun row member => wanted_record_uncached (collection.parsed row member) _ _) sortFields window

theorem mem_sqlFields_of_sqlOrder (found : sqlOrder orderBy = some order) :
    ∀ clause ∈ orderBy, clause.field ∈ sqlFields := by
  have field : ∀ {field terms}, sqlTerms field = some terms → field ∈ sqlFields := by
    intro field terms found
    unfold sqlTerms at found
    split at found <;> first | decide | cases found
  induction orderBy generalizing order with
  | nil => exact fun _ member => absurd member List.not_mem_nil
  | cons clause rest ih =>
    rw [sqlOrder, List.mapM_cons] at found
    obtain ⟨first, firstFound, found⟩ := Option.bind_eq_some_iff.mp found
    obtain ⟨later, laterFound, -⟩ := Option.bind_eq_some_iff.mp found
    obtain ⟨terms, termsFound, -⟩ := Option.map_eq_some_iff.mp firstFound
    exact List.forall_mem_cons.mpr ⟨field termsFound, ih laterFound⟩

/-- A query that nothing disturbs has the same answer under every plan. -/
theorem Undisturbed.planInvisible (undisturbed : collection.Undisturbed query) :
    collection.PlanInvisible true query := by
  refine fun orderBy sortFields => ⟨fun window one other onePerm otherPerm => ?_,
    flatMap_metadataPlan collection true query orderBy⟩
  cases found : sqlOrder orderBy with
  | none =>
    have wants := fun row member => wanted_record_cached (collection.parsed row member)
      (collection.needsBodies query) (undisturbed.types row member)
    have same := memoryAnswer_eq_generalPlan onePerm otherPerm wants sortFields window
    rw [← same, metadataPlan, if_pos rfl, sqlPage, found]
    rfl
  | some order =>
    rw [metadataPlan_sql collection.parsed onePerm found, sortBy_compareSql_perm onePerm,
      generalPlan_eq (fun row member => collection.parsed row (otherPerm.mem_iff.mp member)) true
        sortFields, sortBy_compareLoaded_perm otherPerm]
    have kept : collection.table.rows.filter (sqlWanted query.types) =
        collection.table.rows.filter (collection.wantedNow query.types) :=
      List.filter_congr undisturbed.types
    have sorted : sortBy (compareSql order)
          (collection.table.rows.filter (collection.wantedNow query.types)) =
        sortBy (compareLoaded orderBy)
          (collection.table.rows.filter (collection.wantedNow query.types)) := by
      apply sortBy_congr
      intro left leftMember right rightMember
      obtain ⟨leftHere, leftWanted⟩ := List.mem_filter.mp leftMember
      obtain ⟨rightHere, rightWanted⟩ := List.mem_filter.mp rightMember
      exact compareSql_eq_compareLoaded ((fieldAgrees_iff left right).mpr
        ⟨undisturbed.orderable left leftHere right rightHere leftWanted rightWanted,
          undisturbed.orderable right rightHere left leftHere rightWanted leftWanted⟩)
        (mem_sqlFields_of_sqlOrder found) found
    rw [kept, sorted]
    simp only [answer, Answer.mk.injEq, and_true]
    apply List.map_congr_left
    intro row member
    obtain ⟨here, wanted⟩ := mem_of_mem_slice member
    exact answerRow_eq_iff.mpr (undisturbed.bodies row here wanted)

namespace PlanInvisible

variable (invisible : collection.PlanInvisible true query)
include invisible

/-- Under an order of SQLite both plans select the same rows in the same order and
show the same of them. -/
theorem sorted {orderBy : List OrderBy} {order : List (List SqlTerm × Direction)}
    (found : sqlOrder orderBy = some order) :
    sortBy (compareSql order) (collection.table.rows.filter (sqlWanted query.types)) =
        sortBy (compareLoaded orderBy)
          (collection.table.rows.filter (collection.wantedNow query.types)) ∧
      ∀ row ∈ collection.table.rows, collection.wantedNow query.types row = true →
        collection.BodyUnseen query row := by
  have sortFields : ∀ order ∈ orderBy, order.field ∈ metadataSortFields := by
    have included : ∀ field ∈ sqlFields, field ∈ metadataSortFields := by decide
    exact fun clause member => included _ (mem_sqlFields_of_sqlOrder found clause member)
  have same := (invisible orderBy sortFields).1 { offset := 0, limit := none }
    collection.table.rows collection.table.rows (List.Perm.refl _) (List.Perm.refl _)
  rw [metadataPlan_sql collection.parsed (List.Perm.refl _) found,
    generalPlan_eq collection.parsed true sortFields] at same
  have whole : ∀ ordered : List CachedRow,
      ({ offset := 0, limit := none } : Window).slice ordered = ordered := by
    intro ordered
    simp [Window.slice]
  have rows := congrArg Answer.rows same
  simp only [answer, whole] at rows
  have paths := congrArg (List.map fun shown => Value.get shown "path") rows
  simp only [List.map_map, Function.comp_def, get_path_answerRow] at paths
  have lists : sortBy (compareSql order) (collection.table.rows.filter (sqlWanted query.types)) =
      sortBy (compareLoaded orderBy)
        (collection.table.rows.filter (collection.wantedNow query.types)) := by
    apply collection.table.eq_of_map_path
    · exact fun row member => (List.mem_filter.mp (mem_sortBy.mp member)).1
    · exact fun row member => (List.mem_filter.mp (mem_sortBy.mp member)).1
    · have unwrap : Function.Injective fun path : String => some (Value.string path) :=
        fun _ _ equal => Value.string.inj (Option.some.inj equal)
      apply List.map_injective_iff.mpr unwrap
      simpa only [List.map_map, Function.comp_def] using paths
  refine ⟨lists, fun row member wanted => answerRow_eq_iff.mp ?_⟩
  rw [lists] at rows
  exact List.map_inj_left.mp rows row (mem_sortBy.mpr (List.mem_filter.mpr ⟨member, wanted⟩))

theorem undisturbed : collection.Undisturbed query := by
  have unordered := @sorted _ _ invisible [] [] rfl
  have types : ∀ row ∈ collection.table.rows,
      sqlWanted query.types row = collection.wantedNow query.types row := by
    intro row member
    rw [Bool.eq_iff_iff]
    have both : row ∈ sortBy (compareSql []) (collection.table.rows.filter (sqlWanted query.types)) ↔
        row ∈ sortBy (compareLoaded [])
          (collection.table.rows.filter (collection.wantedNow query.types)) := by
      rw [unordered.1]
    rw [mem_sortBy, mem_sortBy, List.mem_filter, List.mem_filter] at both
    simpa [member] using both
  have kept : collection.table.rows.filter (sqlWanted query.types) =
      collection.table.rows.filter (collection.wantedNow query.types) := List.filter_congr types
  refine ⟨types, ?_, unordered.2⟩
  intro left leftMember right rightMember leftWanted rightWanted
  refine ((fieldAgrees_iff left right).mp fun field sqlField => ?_).1
  obtain ⟨terms, found⟩ := exists_sqlTerms sqlField
  have members : ∀ row ∈ collection.table.rows.filter (collection.wantedNow query.types),
      row ∈ collection.table.rows := fun row member => (List.mem_filter.mp member).1
  apply fieldAgrees_of_sortBy_eq members found
  · intro direction
    have order : sqlOrder [{ field := field, direction := direction }] =
        some [(terms, direction)] := by
      simp [sqlOrder, found]
    rw [← kept, (invisible.sorted order).1, kept]
  · exact List.mem_filter.mpr ⟨leftMember, leftWanted⟩
  · exact List.mem_filter.mpr ⟨rightMember, rightWanted⟩

end PlanInvisible

/-- The metadata page plan never changes answers without a cache; with one it does so
exactly when the cache disturbs neither the stored types nor the order of the
selected rows nor the metadata of their bodies. -/
theorem planInvisible_iff (collection : Collection) (cached : Bool) (query : PlainQuery) :
    collection.PlanInvisible cached query ↔ (cached = true → collection.Undisturbed query) := by
  cases cached with
  | false => exact iff_of_true (planInvisible_uncached collection query) (by simp)
  | true =>
    exact ⟨fun invisible _ => invisible.undisturbed,
      fun undisturbed => (undisturbed rfl).planInvisible⟩

/-- A collection of one note that links to another record in its body. -/
def linkedNote : Collection where
  table :=
    { rows := [{ timedNote "note.md" ⟨1700000000000000000, by decide⟩ with body := "See [[other]]" }]
      distinct := by decide
      countable := by decide }
  parsed := by simp [timedNote]
  determineTypes := fun _ _ => ["note"]
  effective := fun raw _ _ _ => raw
  computed := false
  effective_of_not_computed := fun _ _ _ _ _ _ => rfl
  scan :=
    { tags := fun _ => []
      links := fun body => if body = "See [[other]]" then ["other"] else []
      embeds := fun _ => [] }

/-- A query for the notes with their effective frontmatter. -/
def noteQuery : PlainQuery where
  types := ["note"]
  includeBody := false
  frontmatterMode := .effective
  output := none

/-- The links that the rows of an answer show. -/
def shownLinks (answer : Answer) : List (Option Value) :=
  answer.rows.map fun row => (row.get "file").bind fun file => file.get "links"

/-- The metadata page plan shows the link of the body, the general pipeline none. -/
theorem linkedNote_plans_differ :
    shownLinks (linkedNote.metadataPlan true noteQuery [] { offset := 0, limit := none }
        linkedNote.table.rows) = [some (textsValue ["other"])] ∧
      shownLinks (linkedNote.generalPlan true noteQuery [] { offset := 0, limit := none }
        linkedNote.table.rows) = [some (textsValue [])] ∧
      ¬linkedNote.PlanInvisible true noteQuery := by
  have metadata : shownLinks (linkedNote.metadataPlan true noteQuery [] { offset := 0, limit := none }
      linkedNote.table.rows) = [some (textsValue ["other"])] := by
    decide +kernel
  have general : shownLinks (linkedNote.generalPlan true noteQuery [] { offset := 0, limit := none }
      linkedNote.table.rows) = [some (textsValue [])] := by
    decide +kernel
  refine ⟨metadata, general, ?_⟩
  intro invisible
  have same := (invisible [] (by simp)).1 { offset := 0, limit := none } linkedNote.table.rows
    linkedNote.table.rows (List.Perm.refl _) (List.Perm.refl _)
  rw [same, general] at metadata
  exact absurd metadata (by decide)

end Collection

end Mdbase.Query
