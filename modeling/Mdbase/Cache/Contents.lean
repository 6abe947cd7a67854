import Mdbase.Cache.Tables
import Mdbase.Library.Derivation

/-!
# What the tables hold

Indexing a record replaces the rows of its path in every table and leaves those of the
other paths alone. So the tables hold the rows of the records, whatever was indexed before.
An identity is the exception: a value has one row, that of the record indexed last.
-/

namespace Mdbase.Cache

open Library Links
open Mdbase.Validation (UniqueSetKey)

@[simp] theorem mem_insertOrIgnore {α : Type} [DecidableEq α] {rows : List α} {row other : α} :
    other ∈ insertOrIgnore rows row ↔ other ∈ rows ∨ other = row := by
  unfold insertOrIgnore
  split
  next member =>
    constructor
    · exact .inl
    · rintro (present | rfl)
      · exact present
      · exact member
  next => simp

@[simp] theorem mem_foldl_insertOrIgnore {α : Type} [DecidableEq α] {rows added : List α}
    {row : α} : row ∈ added.foldl insertOrIgnore rows ↔ row ∈ rows ∨ row ∈ added := by
  induction added generalizing rows with
  | nil => simp
  | cons first rest ih =>
    rw [List.foldl_cons, ih, mem_insertOrIgnore, List.mem_cons, or_assoc]

theorem nodup_foldl_insertOrIgnore {α : Type} [DecidableEq α] {rows : List α}
    (distinct : rows.Nodup) (added : List α) : (added.foldl insertOrIgnore rows).Nodup := by
  induction added generalizing rows with
  | nil => exact distinct
  | cons first rest ih =>
    refine ih ?_
    unfold insertOrIgnore
    split
    next => exact distinct
    rename_i absent
    refine distinct.append (List.nodup_singleton _) ?_
    rintro row member same
    exact absent (List.mem_singleton.mp same ▸ member)

/-- What the paths of a collection load. -/
abbrev Loads := String → Option RecordLoadOutcome

variable {collection : IndexedCollection} {loads : Loads} {tables : CacheTables}

/-- Every row of a record names that record. -/
theorem IndexedCollection.recordRows_owned (collection : IndexedCollection) (path : String)
    (outcome : RecordLoadOutcome) :
    (∀ row ∈ (collection.recordRows path outcome).fileTypes, row.1 = path) ∧
      (∀ row ∈ (collection.recordRows path outcome).links, row.sourcePath = path) ∧
      (∀ row ∈ (collection.recordRows path outcome).uniqueKeys, row.2 = path) ∧
      ∀ row ∈ (collection.recordRows path outcome).resolutionKeys, row.path = path := by
  cases outcome with
  | invalid facts typeNames reason =>
    refine ⟨?_, fun _ absurd_ => (by cases absurd_), fun _ absurd_ => (by cases absurd_),
      fun _ absurd_ => by cases absurd_⟩
    intro row member
    obtain ⟨name, _, rfl⟩ := List.mem_map.mp member
    rfl
  | parsed facts raw effective body typeNames =>
    refine ⟨?_, ?_, ?_, ?_⟩
    · intro row member
      obtain ⟨name, _, rfl⟩ := List.mem_map.mp member
      rfl
    · intro row member
      rcases List.mem_append.mp member with fromBody | fromFields
      · rcases List.mem_append.mp fromBody with member | member <;>
          obtain ⟨name, _, rfl⟩ := List.mem_map.mp member <;> rfl
      · cases effective with
        | object members =>
          obtain ⟨field, _, member⟩ := List.mem_flatMap.mp fromFields
          obtain ⟨name, _, rfl⟩ := List.mem_map.mp member
          rfl
        | _ => cases fromFields
    · intro row member
      obtain ⟨key, _, rfl⟩ := List.mem_map.mp member
      rfl
    · intro row member
      obtain ⟨key, _, rfl⟩ := List.mem_map.mp member
      rfl

/-- Every table but those of links and identities holds the rows of the loaded records. -/
structure IndexedCollection.Contents (collection : IndexedCollection) (loads : Loads)
    (tables : CacheTables) : Prop where
  files : Derives FileRow.path (fun path outcome => [(collection.recordRows path outcome).file])
    loads tables.files
  fileTypes : Derives Prod.fst (fun path outcome => (collection.recordRows path outcome).fileTypes)
    loads tables.fileTypes
  uniqueKeys : Derives Prod.snd
    (fun path outcome => (collection.recordRows path outcome).uniqueKeys) loads tables.uniqueKeys
  resolutionKeys : Derives KeyRow.path
    (fun path outcome => (collection.recordRows path outcome).resolutionKeys) loads
    tables.resolutionKeys

/-- No table has a row twice. -/
structure CacheTables.Distinct (tables : CacheTables) : Prop where
  files : tables.files.Nodup
  fileTypes : tables.fileTypes.Nodup
  uniqueKeys : tables.uniqueKeys.Nodup
  identityValues : tables.identityValues.Nodup
  resolutionKeys : tables.resolutionKeys.Nodup

theorem IndexedCollection.contents_empty (collection : IndexedCollection) :
    collection.Contents (fun _ => none) .empty :=
  ⟨.empty, .empty, .empty, .empty⟩

theorem CacheTables.distinct_empty : CacheTables.empty.Distinct := ⟨.nil, .nil, .nil, .nil, .nil⟩

namespace IndexedCollection.Contents

theorem removeFile (contents : collection.Contents loads tables) (path : String) :
    collection.Contents (Function.update loads path none) (tables.removeFile path) where
  files := contents.files.clear fun row => by simp [CacheTables.removeFile]
  fileTypes := contents.fileTypes.clear fun row => by simp [CacheTables.removeFile]
  uniqueKeys := contents.uniqueKeys.clear fun row => by simp [CacheTables.removeFile]
  resolutionKeys := contents.resolutionKeys.clear fun row => by simp [CacheTables.removeFile]

theorem indexRecordOutcome (contents : collection.Contents loads tables) (path : String)
    (outcome : RecordLoadOutcome) :
    collection.Contents (Function.update loads path (some outcome))
      (collection.indexRecordOutcome tables path outcome) := by
  obtain ⟨types, _, uniques, keys⟩ := collection.recordRows_owned path outcome
  have file : (collection.recordRows path outcome).file.path = path := by
    cases outcome <;> rfl
  constructor
  · refine contents.files.replace (fun row member => ?_) fun row => ?_
    · rw [List.mem_singleton.mp member, file]
    · simp [IndexedCollection.indexRecordOutcome, CacheTables.addRows, CacheTables.removeFile]
  · exact contents.fileTypes.replace types fun row => by
      simp [IndexedCollection.indexRecordOutcome, CacheTables.addRows, CacheTables.removeFile]
  · exact contents.uniqueKeys.replace uniques fun row => by
      simp [IndexedCollection.indexRecordOutcome, CacheTables.addRows, CacheTables.removeFile]
  · exact contents.resolutionKeys.replace keys fun row => by
      simp [IndexedCollection.indexRecordOutcome, CacheTables.addRows, CacheTables.removeFile]

theorem reindexFile (contents : collection.Contents loads tables) (records : Records)
    (path : String) :
    collection.Contents (Function.update loads path (records.load path))
      (collection.reindexFile records tables path) := by
  unfold IndexedCollection.reindexFile
  cases records.load path with
  | none => exact contents.removeFile path
  | some outcome => exact contents.indexRecordOutcome path outcome

end IndexedCollection.Contents

/-- What the paths load after some of them were read again. -/
def reread (loads again : Loads) (paths : List String) : Loads :=
  fun path => if path ∈ paths then again path else loads path

theorem reread_cons (loads again : Loads) (first : String) (rest : List String) :
    reread (Function.update loads first (again first)) again rest =
      reread loads again (first :: rest) := by
  funext path
  by_cases here : path = first
  · simp [reread, here]
  · simp [reread, here]

theorem IndexedCollection.Contents.reindexFiles (contents : collection.Contents loads tables)
    (records : Records) (paths : List String) :
    collection.Contents (reread loads records.load paths)
      (paths.foldl (collection.reindexFile records) tables) := by
  induction paths generalizing loads tables with
  | nil => exact contents
  | cons first rest ih =>
    rw [← reread_cons]
    exact ih (contents.reindexFile records first)

theorem IndexedCollection.Contents.removeFiles (contents : collection.Contents loads tables)
    (paths : List String) :
    collection.Contents (reread loads (fun _ => none) paths)
      (paths.foldl CacheTables.removeFile tables) := by
  induction paths generalizing loads tables with
  | nil => exact contents
  | cons first rest ih =>
    rw [← reread_cons]
    exact ih (contents.removeFile first)

variable {records : Records}

theorem Records.mem_paths {path : String} : path ∈ records.paths ↔ (records.load path).isSome := by
  rw [Records.load, Option.isSome_map, paths, List.mem_map]
  constructor
  · rintro ⟨record, member, rfl⟩
    rw [Table.get?_key member]
    rfl
  · intro found
    obtain ⟨record, stored⟩ := Option.isSome_iff_exists.mp found
    exact ⟨record, Table.mem_of_get? stored, Table.key_of_get? stored⟩

theorem Records.reread_paths (records : Records) :
    reread (fun _ => none) records.load records.paths = records.load := by
  funext path
  unfold reread
  split
  next => rfl
  next absent =>
    rw [mem_paths, Option.not_isSome_iff_eq_none] at absent
    exact absent.symm

theorem Records.sorted_paths (records : Records) : records.paths.Pairwise (· < ·) :=
  List.pairwise_map.mpr records.sorted

theorem IndexedCollection.contents_indexAll (collection : IndexedCollection)
    (records : Records) : collection.Contents records.load (collection.indexAll records) := by
  have contents := collection.contents_empty.reindexFiles records records.paths
  rwa [records.reread_paths] at contents

/-- The links of a loaded record, as they are inserted. -/
def IndexedCollection.linksAt (collection : IndexedCollection) (path : String)
    (outcome : RecordLoadOutcome) : List LinkRow :=
  (collection.recordRows path outcome).links

variable {paths : List String} {rows : String → RecordLoadOutcome → List LinkRow}

theorem IndexedCollection.links_reindexFiles (collection : IndexedCollection) (records : Records)
    (tables : CacheTables) (derives : DerivesBag LinkRow.sourcePath rows loads tables.links)
    (fresh : ∀ path ∈ paths, ∀ outcome, rows path outcome = collection.linksAt path outcome) :
    DerivesBag LinkRow.sourcePath rows (reread loads records.load paths)
      (paths.foldl (collection.reindexFile records) tables).links := by
  induction paths generalizing loads tables with
  | nil => exact derives
  | cons first rest ih =>
    rw [← reread_cons]
    refine ih _ ?_ fun path member => fresh path (List.mem_cons_of_mem _ member)
    unfold reindexFile
    cases records.load first with
    | none => exact derives.clear first
    | some outcome =>
      have inserted : (collection.indexRecordOutcome tables first outcome).links =
          tables.links.filter (·.sourcePath ≠ first) ++ rows first outcome := by
        rw [fresh first List.mem_cons_self]
        rfl
      rw [inserted]
      refine derives.replace ?_
      rw [fresh first List.mem_cons_self]
      exact (collection.recordRows_owned first outcome).2.1

theorem links_removeFiles
    (derives : DerivesBag LinkRow.sourcePath rows loads tables.links) (paths : List String) :
    DerivesBag LinkRow.sourcePath rows (reread loads (fun _ => none) paths)
      (paths.foldl CacheTables.removeFile tables).links := by
  induction paths generalizing loads tables with
  | nil => exact derives
  | cons first rest ih =>
    rw [← reread_cons]
    exact ih (derives.clear first)

theorem IndexedCollection.links_indexAll (collection : IndexedCollection) (records : Records) :
    DerivesBag LinkRow.sourcePath collection.linksAt records.load
      (collection.indexAll records).links := by
  have derives := collection.links_reindexFiles records .empty .empty
    (fun path _ outcome => rfl : ∀ path ∈ records.paths, ∀ outcome, _ = _)
  rwa [records.reread_paths] at derives

/-- A loaded record has an identity value. -/
def IndexedCollection.HoldsIdentity (collection : IndexedCollection) (loads : Loads)
    (value path : String) : Prop :=
  ∃ outcome, loads path = some outcome ∧ (collection.recordRows path outcome).identity = some value

/-- The last of some paths that has an identity value. -/
def IndexedCollection.LastHolder (collection : IndexedCollection) (loads : Loads)
    (paths : List String) (value path : String) : Prop :=
  path ∈ paths ∧ collection.HoldsIdentity loads value path ∧
    ∀ other ∈ paths, collection.HoldsIdentity loads value other → other ≤ path

theorem IndexedCollection.LastHolder.unique {value left right : String}
    (leftLast : collection.LastHolder loads paths value left)
    (rightLast : collection.LastHolder loads paths value right) : left = right :=
  le_antisymm (rightLast.2.2 left leftLast.1 leftLast.2.1)
    (leftLast.2.2 right rightLast.1 rightLast.2.1)

theorem IndexedCollection.exists_lastHolder {value path : String}
    (member : path ∈ paths) (holds : collection.HoldsIdentity loads value path) :
    ∃ last, collection.LastHolder loads paths value last := by
  classical
  obtain ⟨last, lastMember, greatest⟩ := Finset.exists_max_image
    (paths.toFinset.filter (collection.HoldsIdentity loads value)) id
    ⟨path, by simpa using ⟨member, holds⟩⟩
  simp only [Finset.mem_filter, List.mem_toFinset, id_eq, and_imp] at lastMember greatest
  exact ⟨last, lastMember.1, lastMember.2, greatest⟩

theorem IndexedCollection.mem_identityValues_reindexFile {path value holder : String} :
    (value, holder) ∈ (collection.reindexFile records tables path).identityValues ↔
      (collection.HoldsIdentity records.load value path ∧ holder = path) ∨
        (¬collection.HoldsIdentity records.load value path ∧
          (value, holder) ∈ tables.identityValues ∧ holder ≠ path) := by
  unfold reindexFile HoldsIdentity
  cases records.load path with
  | none => simp [CacheTables.removeFile]
  | some outcome =>
    simp only [indexRecordOutcome, CacheTables.addRows, CacheTables.removeFile,
      Option.some.injEq, exists_eq_left']
    cases identity : (collection.recordRows path outcome).identity with
    | none => simp
    | some held =>
      by_cases same : held = value
      · subst same
        simp
      · simp [same, Ne.symm same]

theorem IndexedCollection.lastHolder_cons_of_later {first path value : String}
    {rest : List String} (below : ∀ other ∈ rest, first < other) (member : path ∈ rest)
    (holds : collection.HoldsIdentity loads value path) (holder : String) :
    collection.LastHolder loads (first :: rest) value holder ↔
      collection.LastHolder loads rest value holder := by
  constructor
  · rintro ⟨inside, has, greatest⟩
    refine ⟨?_, has, fun other otherMember =>
      greatest other (List.mem_cons_of_mem _ otherMember)⟩
    rcases List.mem_cons.mp inside with rfl | inside
    · exact absurd (greatest path (List.mem_cons_of_mem _ member) holds)
        (not_le_of_gt (below path member))
    · exact inside
  · rintro ⟨inside, has, greatest⟩
    refine ⟨List.mem_cons_of_mem _ inside, has, ?_⟩
    rintro other otherMember otherHas
    rcases List.mem_cons.mp otherMember with rfl | otherMember
    · exact le_of_lt (below holder inside)
    · exact greatest other otherMember otherHas

theorem IndexedCollection.lastHolder_cons_of_none {first value : String} {rest : List String}
    (none_ : ∀ path ∈ rest, ¬collection.HoldsIdentity loads value path) (holder : String) :
    collection.LastHolder loads (first :: rest) value holder ↔
      collection.HoldsIdentity loads value first ∧ holder = first := by
  constructor
  · rintro ⟨inside, holds, _⟩
    rcases List.mem_cons.mp inside with rfl | inside
    · exact ⟨holds, rfl⟩
    · exact absurd holds (none_ holder inside)
  · rintro ⟨has, rfl⟩
    refine ⟨List.mem_cons_self, has, ?_⟩
    rintro other otherMember otherHas
    rcases List.mem_cons.mp otherMember with rfl | otherMember
    · exact le_rfl
    · exact absurd otherHas (none_ other otherMember)

variable {value holder : String}

/-- Reading paths again in order leaves a value with the last of them that has it; a value
that none of them has stays with its holder, unless that was one of them. -/
theorem IndexedCollection.mem_identityValues_reindexFiles (sorted : paths.Pairwise (· < ·)) :
    (value, holder) ∈ (paths.foldl (collection.reindexFile records) tables).identityValues ↔
      collection.LastHolder records.load paths value holder ∨
        ((∀ path ∈ paths, ¬collection.HoldsIdentity records.load value path) ∧
          (value, holder) ∈ tables.identityValues ∧ holder ∉ paths) := by
  induction paths generalizing tables with
  | nil => simp [LastHolder]
  | cons first rest ih =>
    obtain ⟨below, sorted⟩ := List.pairwise_cons.mp sorted
    rw [List.foldl_cons, ih sorted, mem_identityValues_reindexFile]
    by_cases later : ∃ path ∈ rest, collection.HoldsIdentity records.load value path
    · obtain ⟨path, member, holds⟩ := later
      have someRest : ¬∀ path ∈ rest, ¬collection.HoldsIdentity records.load value path :=
        fun none_ => none_ path member holds
      have someAll : ¬∀ path ∈ first :: rest,
          ¬collection.HoldsIdentity records.load value path :=
        fun none_ => none_ path (List.mem_cons_of_mem _ member) holds
      simp only [lastHolder_cons_of_later below member holds, someRest, someAll, false_and,
        or_false]
    · have none_ : ∀ path ∈ rest, ¬collection.HoldsIdentity records.load value path :=
        fun path member holds => later ⟨path, member, holds⟩
      have noLast : ¬collection.LastHolder records.load rest value holder :=
        fun last => none_ holder last.1 last.2.1
      rw [lastHolder_cons_of_none none_]
      by_cases has : collection.HoldsIdentity records.load value first
      · have apart : first ∉ rest := fun member => lt_irrefl _ (below first member)
        constructor
        · rintro (last | ⟨_, ⟨_, rfl⟩ | ⟨absurd_, _⟩, _⟩)
          · exact absurd last noLast
          · exact .inl ⟨has, rfl⟩
          · exact absurd has absurd_
        · rintro (⟨_, rfl⟩ | ⟨absurd_, _⟩)
          · exact .inr ⟨none_, .inl ⟨has, rfl⟩, apart⟩
          · exact absurd has (absurd_ first List.mem_cons_self)
      · have noneFirst : ∀ path ∈ first :: rest,
            ¬collection.HoldsIdentity records.load value path := by
          rintro path member
          rcases List.mem_cons.mp member with rfl | member
          · exact has
          · exact none_ path member
        constructor
        · rintro (last | ⟨_, ⟨absurd_, _⟩ | ⟨_, stored, apart⟩, outside⟩)
          · exact absurd last noLast
          · exact absurd absurd_ has
          · exact .inr ⟨noneFirst, stored, by simp [apart, outside]⟩
        · rintro (⟨absurd_, _⟩ | ⟨_, stored, outside⟩)
          · exact absurd absurd_ has
          · rw [List.mem_cons, not_or] at outside
            exact .inr ⟨none_, .inr ⟨has, stored, outside.1⟩, outside.2⟩

theorem mem_identityValues_removeFiles :
    (value, holder) ∈ (paths.foldl CacheTables.removeFile tables).identityValues ↔
      (value, holder) ∈ tables.identityValues ∧ holder ∉ paths := by
  induction paths generalizing tables with
  | nil => simp
  | cons first rest ih =>
    rw [List.foldl_cons, ih, CacheTables.removeFile, List.mem_filter,
      List.mem_cons, not_or, and_assoc]
    simp

theorem IndexedCollection.mem_identityValues_indexAll :
    (value, holder) ∈ (collection.indexAll records).identityValues ↔
      collection.LastHolder records.load records.paths value holder := by
  rw [indexAll, mem_identityValues_reindexFiles records.sorted_paths]
  simp [CacheTables.empty]

end Mdbase.Cache
