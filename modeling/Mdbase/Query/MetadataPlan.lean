import Mdbase.Query.Candidate
import Mdbase.Query.PageAgreement

/-!
# The metadata page plan and the general pipeline

A query without expressions, selections and groups that orders by file metadata
only is answered by the metadata page plan: order and paginate first, and
materialize the records of the page afterwards. The general pipeline makes a
candidate of every record first. This module embeds both executions of such a
query, up to the rows of the page, its total and its answer to whether there is
more.
-/

namespace Mdbase.Query

open Library Mdbase.Runtime

/-- The frontmatter that a row shows. -/
inductive FrontmatterMode where
  | effective
  | persisted
  | both
  deriving DecidableEq

/-- The opt-in output of narrow rows. -/
inductive QueryOutput where
  | metadata
  deriving DecidableEq

/-- What is left of a query that `supports_metadata_page_plan` accepts, apart from
its order and its window. -/
structure PlainQuery where
  types : List String
  includeBody : Bool
  frontmatterMode : FrontmatterMode
  output : Option QueryOutput
  deriving DecidableEq

/-- `metadata_sort_field`. -/
def metadataSortFields : List String :=
  ["file.path", "file.name", "file.folder", "file.size", "file.mtime", "file.ctime"]

/-- `file_body_field`. -/
def fileBodyFields : List String :=
  ["file.body", "file.tags", "file.links", "file.embeds", "body", "tags", "links", "embeds"]

/-- The extraction of tags, links and embeds from a body. -/
structure BodyScan where
  tags : String → List String
  links : String → List String
  embeds : String → List String

/-- A collection whose records all parse and whose types have no match expression.
The types of a record and its effective frontmatter are functions of its raw
frontmatter, its path and, where types have computed fields, its body. -/
structure Collection where
  table : CacheTable
  parsed : ∀ row ∈ table.rows, row.failureReason = none
  determineTypes : Value → String → List String
  /-- Defaults, coercion and computed fields of a record with the given types. -/
  effective : Value → List String → (path body : String) → Value
  computed : Bool
  effective_of_not_computed : computed = false → ∀ raw types path one other,
    effective raw types path one = effective raw types path other
  scan : BodyScan

/-- A list of texts as a JSON value. -/
def textsValue (texts : List String) : Value := .array (texts.map .string)

/-- The tags of a record: those of its frontmatter, then the new ones of its body. -/
def BodyScan.allTags (scan : BodyScan) (effective : Value) (body : String) : List String :=
  let declared := (((effective.get "tags").bind Value.asArray).getD []).filterMap Value.asStr
  (scan.tags body).foldl (fun tags tag => if tag ∈ tags then tags else tags ++ [tag]) declared

/-- `complete_file_value`. -/
def BodyScan.completeFileValue (scan : BodyScan) (file effective : Value) (body : String) : Value :=
  if (file.get "tags").isSome then file
  else
    ((file.set "tags" (textsValue (scan.allTags effective body))).set "links"
      (textsValue (scan.links body))).set "embeds" (textsValue (scan.embeds body))

/-- `file_value`. -/
def BodyScan.fileValue (scan : BodyScan) (record : FileRecord) (effective : Value)
    (includeBodyMetadata : Bool) : Value :=
  let file := Value.object [
    ("ctime", textOrNull record.fileCtimeIso),
    ("folder", .string (folderOf record.relPath)),
    ("mtime", textOrNull record.fileMtimeIso),
    ("name", .string (fileName record.relPath)),
    ("path", .string record.relPath),
    ("size", .number (.posInt record.fileSize))]
  if includeBodyMetadata then scan.completeFileValue file effective record.body else file

/-- An optional member of a row. -/
def withMember (row : Value) (name : String) : Option Value → Value
  | some value => row.set name value
  | none => row

/-- `QueryRecordMaterial`. -/
structure RecordMaterial where
  path : String
  revision : String
  types : List String
  frontmatter : Option Value
  effectiveFrontmatter : Option Value
  file : Value
  body : Option String
  values : Option (List (String × Value))

/-- `QueryRecordMaterial::render`. -/
def RecordMaterial.render (material : RecordMaterial) : Option QueryOutput → Value
  | some .metadata =>
    .object [("path", .string material.path), ("revision", .string material.revision),
      ("types", textsValue material.types), ("values", .object (material.values.getD []))]
  | none =>
    let row := Value.object [("file", material.file), ("path", .string material.path),
      ("revision", .string material.revision), ("types", textsValue material.types)]
    let row := withMember row "frontmatter" material.frontmatter
    let row := withMember row "effective_frontmatter" material.effectiveFrontmatter
    let row := withMember row "body" (material.body.map .string)
    withMember row "values" (material.values.map .object)

/-- `serialize_candidate` for a query without selections. -/
def PlainQuery.serializeCandidate (query : PlainQuery) (scan : BodyScan) (candidate : Candidate) :
    Value :=
  RecordMaterial.render
    { path := candidate.path
      revision := candidate.revision
      types := candidate.types
      frontmatter := if query.frontmatterMode = .effective then none else some candidate.raw
      effectiveFrontmatter :=
        if query.frontmatterMode = .persisted then none else some candidate.effective
      file :=
        if query.output.isNone then
          scan.completeFileValue candidate.file candidate.effective candidate.body
        else candidate.file
      body := if query.includeBody then some candidate.body else none
      values := none }
    query.output

/-- `serialize_invalid_stub`. -/
def PlainQuery.serializeInvalidStub (query : PlainQuery) (stub : InvalidRecordStub) : Value :=
  RecordMaterial.render
    { path := stub.relPath
      revision := stub.sourceRevision
      types := stub.typeNames
      frontmatter := none
      effectiveFrontmatter := none
      file := .object [
        ("ctime", textOrNull stub.fileCtimeIso),
        ("folder", .string (folderOf stub.relPath)),
        ("mtime", textOrNull stub.fileMtimeIso),
        ("name", .string (fileName stub.relPath)),
        ("path", .string stub.relPath),
        ("revision", .string stub.sourceRevision),
        ("size", .number (.posInt stub.fileSize))]
      body := none
      values := none }
    query.output

namespace Collection

variable (collection : Collection)

/-- The candidate of a record. -/
def candidate (record : FileRecord) (includeBodyMetadata : Bool) : Candidate :=
  let types := collection.determineTypes record.rawFrontmatter record.relPath
  let effective := collection.effective record.rawFrontmatter types record.relPath record.body
  { path := record.relPath
    revision := record.sourceRevision
    types := types
    raw := record.rawFrontmatter
    effective := effective
    body := record.body
    file := collection.scan.fileValue record effective includeBodyMetadata
    projections := []
    values := [] }

/-- The bodies are loaded with the records. -/
def needsBodies (query : PlainQuery) : Bool := query.includeBody || collection.computed

/-- The record of a row in one load: from the cache with the stored types, or from
the file itself. -/
def record (cached includeBodies : Bool) (row : CachedRow) : LocalRecord :=
  if cached then row.loaded collection.determineTypes includeBodies
  else row.toRecord (collection.determineTypes row.frontmatter row.path)
    (row.effective.getD row.frontmatter) (if includeBodies then row.body else "")

/-- The records of one load. -/
def records (cached includeBodies : Bool) (rows : List CachedRow) : List LocalRecord :=
  rows.map (collection.record cached includeBodies)

/-- The row that `build_metadata_page_result` makes of a record. -/
def metadataRow (query : PlainQuery) : LocalRecord → Value
  | .parsed record => query.serializeCandidate collection.scan (collection.candidate record true)
  | .invalid stub => query.serializeInvalidStub stub

/-- The rows of a page, its total and whether there is more. -/
structure Answer where
  rows : List Value
  total : Nat
  hasMore : Bool
  deriving DecidableEq

/-- The metadata page plan. With a cache SQLite selects the page where it can
represent the order; otherwise the loaded records are ordered in memory. -/
def metadataPlan (cached : Bool) (query : PlainQuery) (orderBy : List OrderBy) (window : Window)
    (rows : List CachedRow) : Answer :=
  let loaded := memoryPage query.types orderBy window
    (collection.records cached (collection.needsBodies query) rows)
  let page := if cached then (sqlPage query.types orderBy window rows).getD loaded else loaded
  { rows := page.records.map (collection.metadataRow query)
    total := page.total
    hasMore := page.hasMore }

/-- The type filter of the general pipeline, over the types of the candidate. -/
def candidateWanted (types : List String) (candidate : Candidate) : Bool :=
  types.isEmpty ||
    candidate.types.any fun actual => types.any fun wanted => eqIgnoreAsciiCase wanted actual

/-- The candidate of a parsed record; malformed records have none. -/
def candidateOf (includeBodyMetadata : Bool) : LocalRecord → Option Candidate
  | .parsed record => some (collection.candidate record includeBodyMetadata)
  | .invalid _ => none

/-- The general candidate pipeline, for the same query with a filter that is always
true. -/
def generalPlan (cached : Bool) (query : PlainQuery) (orderBy : List OrderBy) (window : Window)
    (rows : List CachedRow) : Answer :=
  let loaded := collection.records cached (collection.needsBodies query) rows
  let needsFileBodyMetadata := orderBy.any fun order => order.field ∈ fileBodyFields
  let candidates := (loaded.filterMap (collection.candidateOf needsFileBodyMetadata)).filter
    (candidateWanted query.types)
  let ordered := sortCandidates candidates orderBy
  let page := window.slice ordered
  { rows := page.map (query.serializeCandidate collection.scan)
    total := ordered.length
    hasMore := window.hasMore ordered.length page.length }

end Collection

end Mdbase.Query
