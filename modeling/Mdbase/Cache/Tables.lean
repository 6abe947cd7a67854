import Mdbase.Library.Table
import Mdbase.Links.Resolution
import Mdbase.Validation.Uniqueness

/-!
# The tables of the cache

The cache keeps for every record its file row, its types, its links, the comparison sets
it belongs to, its identity and its resolution keys. A record is indexed by itself; its
links are resolved afterwards against an index that is loaded from the tables, either the
whole of it or the part that the links at hand can read.
-/

namespace Mdbase.Cache

open Library Links
open Mdbase.Runtime (Value)
open Mdbase.Query (CatalogError)
open Mdbase.Validation (UniquenessLibrary UniqueSetKey UniqueCorpusEntry Types FieldDef
  uniqueMemberships)

/-- `RecordFileFacts`. -/
structure RecordFileFacts where
  revision : String
  size : Nat
  mtimeNs : Int
  ctimeNs : Option Int
  deriving DecidableEq

/-- `InvalidRecordReason`. -/
inductive InvalidRecordReason where
  | invalidYaml
  | nonMappingFrontmatter
  | invalidUtf8
  deriving DecidableEq

/-- `RecordLoadOutcome`; the path is the one that the record is kept under. -/
inductive RecordLoadOutcome where
  | parsed (facts : RecordFileFacts) (rawFrontmatter effectiveFrontmatter : Value)
      (body : String) (typeNames : List String)
  | invalid (facts : RecordFileFacts) (typeNames : List String) (reason : InvalidRecordReason)
  deriving DecidableEq

/-- A row of `files`. A JSON column is given by its value. -/
structure FileRow where
  path : String
  facts : RecordFileFacts
  frontmatter : Value
  body : String
  effective : Option Value
  failureReason : Option InvalidRecordReason
  deriving DecidableEq

/-- The `location` of a link. -/
inductive LinkLocation where
  | body
  | frontmatter
  deriving DecidableEq

/-- A row of `links`. -/
structure LinkRow where
  sourcePath : String
  targetPath : String
  sourceRevision : String
  resolved : Bool
  location : LinkLocation
  field : Option String
  rawTarget : String
  deriving DecidableEq

/-- A row of `resolution_keys`. -/
structure KeyRow where
  kind : ResolutionKeyKind
  key : String
  path : String
  deriving DecidableEq

/-- The tables that are derived from the records. The rows of `file_types` are a path and
a type, those of `unique_keys` a key and a path, those of `identity_values` a value and a
path. -/
structure CacheTables where
  files : List FileRow
  fileTypes : List (String × String)
  links : List LinkRow
  uniqueKeys : List (UniqueSetKey × String)
  identityValues : List (String × String)
  resolutionKeys : List KeyRow

/-- Tables without rows. -/
def CacheTables.empty : CacheTables := ⟨[], [], [], [], [], []⟩

/-- What indexing rests on outside this module. -/
structure IndexLibrary extends ResolutionLibrary where
  uniqueness : UniquenessLibrary
  /-- `extract_links_from_body`. -/
  extractLinks : String → List String
  /-- `extract_embeds_from_body`. -/
  extractEmbeds : String → List String
  /-- `extract_links_from_fm_value`. -/
  extractFrontmatterLinks : Value → List String

/-- The settings and types that indexing reads. -/
structure IndexedCollection where
  library : IndexLibrary
  types : Types
  /-- `resolution_keys()`. -/
  resolutionKeys : ResolutionKeys
  /-- `settings.id_field`. -/
  idField : String

/-- `allowed_target_types`. -/
def allowedTargetTypes (field : FieldDef) : List String :=
  if field.targetTypes.isEmpty then field.target.toList else field.targetTypes

/-- `field_target_types`: of the first of the types that defines the field. -/
def IndexedCollection.fieldTargetTypes (collection : IndexedCollection)
    (fileTypes : List String) (field : String) : List String :=
  match fileTypes.findSome? fun name =>
    (collection.types.get? (collection.library.toLowercase name)).bind fun type_ =>
      (type_.fields.find? fun entry => entry.1 = field).map Prod.snd with
  | some definition => allowedTargetTypes definition
  | none => []

/-- `canonical_unique_value`; a container is given by its JSON text. -/
def canonicalUniqueValue (library : UniquenessLibrary) : Value → Option String
  | .null => none
  | .string value => if value.isEmpty then none else some value
  | value => some (library.print value)

/-- `INSERT OR IGNORE`. -/
def insertOrIgnore {α : Type} [DecidableEq α] (rows : List α) (row : α) : List α :=
  if row ∈ rows then rows else rows ++ [row]

/-- A link row that is not resolved yet. -/
def unresolvedLink (path revision : String) (location : LinkLocation) (field : Option String)
    (raw : String) : LinkRow where
  sourcePath := path
  targetPath := raw
  sourceRevision := revision
  resolved := false
  location := location
  field := field
  rawTarget := raw

/-- The rows of `insert_links`. -/
def IndexedCollection.linkRows (collection : IndexedCollection) (path revision : String)
    (frontmatter : Value) (body : String) : List LinkRow :=
  (collection.library.extractLinks body).map (unresolvedLink path revision .body none) ++
    (collection.library.extractEmbeds body).map (unresolvedLink path revision .body none) ++
    match frontmatter with
    | .object members =>
      members.flatMap fun (field, value) =>
        (collection.library.extractFrontmatterLinks value).map
          (unresolvedLink path revision .frontmatter (some field))
    | _ => []

/-- The identity value of a record. -/
def IndexedCollection.identityOf (collection : IndexedCollection) (frontmatter : Value) :
    Option String :=
  (frontmatter.get collection.idField).bind (canonicalUniqueValue collection.library.uniqueness)

/-- `remove_file`. -/
def CacheTables.removeFile (tables : CacheTables) (path : String) : CacheTables where
  links := tables.links.filter (·.sourcePath ≠ path)
  fileTypes := tables.fileTypes.filter (·.1 ≠ path)
  uniqueKeys := tables.uniqueKeys.filter (·.2 ≠ path)
  identityValues := tables.identityValues.filter (·.2 ≠ path)
  resolutionKeys := tables.resolutionKeys.filter (·.path ≠ path)
  files := tables.files.filter (·.path ≠ path)

/-- The rows that one record adds, but for its identity. -/
structure RecordRows where
  file : FileRow
  fileTypes : List (String × String)
  links : List LinkRow
  uniqueKeys : List (UniqueSetKey × String)
  identity : Option String
  resolutionKeys : List KeyRow

/-- The rows of a record. -/
def IndexedCollection.recordRows (collection : IndexedCollection) (path : String) :
    RecordLoadOutcome → RecordRows
  | .invalid facts typeNames reason =>
    { file :=
        { path := path
          facts := facts
          frontmatter := .object []
          body := ""
          effective := none
          failureReason := some reason }
      fileTypes := typeNames.map (path, ·)
      links := []
      uniqueKeys := []
      identity := none
      resolutionKeys := [] }
  | .parsed facts raw effective body typeNames =>
    { file :=
        { path := path
          facts := facts
          frontmatter := raw
          body := body
          effective := some effective
          failureReason := none }
      fileTypes := typeNames.map (path, ·)
      links := collection.linkRows path facts.revision effective body
      uniqueKeys := (uniqueMemberships collection.library.uniqueness collection.types
        ⟨path, effective, typeNames⟩).map (·, path)
      identity := collection.identityOf effective
      resolutionKeys := ((recordResolutionKeys collection.library.toResolutionLibrary
        collection.resolutionKeys path effective).getD []).map fun (kind, key) =>
          ⟨kind, key, path⟩ }

/-- The rows of a record join the tables. An identity belongs to one record at a time. -/
def CacheTables.addRows (tables : CacheTables) (path : String) (rows : RecordRows) :
    CacheTables where
  files := tables.files ++ [rows.file]
  fileTypes := rows.fileTypes.foldl insertOrIgnore tables.fileTypes
  links := tables.links ++ rows.links
  uniqueKeys := rows.uniqueKeys.foldl insertOrIgnore tables.uniqueKeys
  identityValues :=
    match rows.identity with
    | some value => tables.identityValues.filter (·.1 ≠ value) ++ [(value, path)]
    | none => tables.identityValues
  resolutionKeys := rows.resolutionKeys.foldl insertOrIgnore tables.resolutionKeys

/-- `index_record_outcome`. -/
def IndexedCollection.indexRecordOutcome (collection : IndexedCollection)
    (tables : CacheTables) (path : String) (outcome : RecordLoadOutcome) : CacheTables :=
  (tables.removeFile path).addRows path (collection.recordRows path outcome)

/-- The types of a path, `ORDER BY type_name`; a path without rows has none. -/
def CacheTables.typesOf (tables : CacheTables) (path : String) : Option (List String) :=
  let names := ((tables.fileTypes.filter (·.1 = path)).map Prod.snd).insertionSort (· ≤ ·)
  if names.isEmpty then none else some names

/-- Does a path have a basename key? -/
def CacheTables.isRecord (tables : CacheTables) (path : String) : Bool :=
  tables.resolutionKeys.any fun row => row.path = path ∧ row.kind = .basename

/-- An index without entries. -/
def emptyIndex : LinkResolutionIndex := ⟨[], fun _ _ => none, fun _ => none⟩

/-- The keys of rows are loaded, and the paths of those that tell of a record. -/
def loadKeys (tells : KeyRow → Bool) (rows : List KeyRow) (index : LinkResolutionIndex) :
    LinkResolutionIndex :=
  rows.foldl (fun index row =>
    { index.insertKey row.kind row.key row.path with
      knownPaths := if tells row then index.knownPaths ++ [row.path] else index.knownPaths })
    index

/-- `load_resolution_index`. -/
def CacheTables.loadResolutionIndex (tables : CacheTables) : LinkResolutionIndex :=
  let index := loadKeys (·.kind = .basename) tables.resolutionKeys emptyIndex
  { index with
    typesByPath := fun path => if path ∈ index.knownPaths then tables.typesOf path else none }

/-- The source of a link row, its field and its raw target. -/
structure LinkQuery where
  source : String
  field : Option String
  raw : String
  deriving DecidableEq

/-- `load_candidate_resolution_index`. -/
def CacheTables.loadCandidateResolutionIndex (library : ResolutionLibrary)
    (tables : CacheTables) (rows : List LinkQuery) : LinkResolutionIndex :=
  let lookups := rows.filterMap fun row => resolutionLookup library row.raw row.source
  let keys := (lookups.filterMap ResolutionLookup.simpleKey).dedup
  let paths := rows.map (·.source) ++ lookups.flatMap ResolutionLookup.candidates
  let index := loadKeys (fun _ => true)
    (keys.flatMap fun key => tables.resolutionKeys.filter (·.key = key)) emptyIndex
  let knownPaths := index.knownPaths ++ paths.filter tables.isRecord
  { index with
    knownPaths := knownPaths
    typesByPath := fun path =>
      if path ∈ knownPaths ∨ path ∈ rows.map (·.source) then tables.typesOf path else none }

/-- The target types that the types of a link's source declare for its field. -/
def IndexedCollection.declaredTypes (collection : IndexedCollection)
    (index : LinkResolutionIndex) (row : LinkQuery) : List String :=
  match row.field.filter (¬·.isEmpty) with
  | some field => ((index.typesByPath row.source).map (collection.fieldTargetTypes · field)).getD []
  | none => []

/-- The query of a link row. -/
def LinkRow.query (row : LinkRow) : LinkQuery := ⟨row.sourcePath, row.field, row.rawTarget⟩

/-- A link row with its target. -/
def LinkRow.settle (row : LinkRow) (target : Option String) : LinkRow :=
  { row with targetPath := target.getD row.rawTarget, resolved := target.isSome }

/-- What a link resolves to against an index. -/
def IndexedCollection.resolveQuery (collection : IndexedCollection)
    (index : LinkResolutionIndex) (row : LinkQuery) : Except CatalogError (Option String) :=
  index.resolve collection.library.toResolutionLibrary row.raw row.source
    (collection.declaredTypes index row)

/-- A link row is resolved against an index. -/
def IndexedCollection.resolveRow (collection : IndexedCollection) (index : LinkResolutionIndex)
    (row : LinkRow) : Except CatalogError LinkRow :=
  (collection.resolveQuery index row.query).map row.settle

/-- `resolve_links`; without sources all links are resolved. -/
def IndexedCollection.resolveLinks (collection : IndexedCollection) (tables : CacheTables)
    (sources : Option (List String)) : Except CatalogError CacheTables :=
  let selected (row : LinkRow) : Bool := sources.all (row.sourcePath ∈ ·)
  let index :=
    match sources with
    | some _ =>
      tables.loadCandidateResolutionIndex collection.library.toResolutionLibrary
        ((tables.links.filter selected).map LinkRow.query)
    | none => tables.loadResolutionIndex
  (tables.links.mapM fun row => if selected row then collection.resolveRow index row else .ok row).map
    fun links => { tables with links := links }

/-- The records of a collection, in the order of their paths. -/
abbrev Records := Table (Prod.fst : String × RecordLoadOutcome → String)

/-- What loading the record at a path gives, if there is one. -/
def Records.load (records : Records) (path : String) : Option RecordLoadOutcome :=
  (records.get? path).map Prod.snd

/-- `reindex_file`. -/
def IndexedCollection.reindexFile (collection : IndexedCollection) (records : Records)
    (tables : CacheTables) (path : String) : CacheTables :=
  match records.load path with
  | some outcome => collection.indexRecordOutcome tables path outcome
  | none => tables.removeFile path

/-- The paths of the records. -/
def Records.paths (records : Records) : List String := records.entries.map Prod.fst

/-- The tables of the records before links are resolved. -/
def IndexedCollection.indexAll (collection : IndexedCollection) (records : Records) :
    CacheTables :=
  records.paths.foldl (collection.reindexFile records) .empty

/-- `rebuild`. -/
def IndexedCollection.rebuild (collection : IndexedCollection) (records : Records) :
    Except CatalogError CacheTables :=
  collection.resolveLinks (collection.indexAll records) none

end Mdbase.Cache
