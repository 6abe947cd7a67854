import Mdbase.Query.FileTime
import Mdbase.Query.Order

/-!
# Pages of file metadata

A query that reads nothing but file metadata is answered page by page, either by
SQLite from the cache or in memory from all loaded records. This module embeds
both: `load_query_metadata_page_connection` with SQLite's filter, order and
window, and the metadata branch of the query executor over the records of
`load_file_records_from_cache`.
-/

namespace Mdbase.Query

open Library Mdbase.Runtime

/-- A parsed record of the ordinary query engine. -/
structure FileRecord where
  relPath : String
  sourceRevision : String
  rawFrontmatter : Value
  effectiveFrontmatter : Value
  body : String
  typeNames : List String
  fileSize : Nat
  fileMtimeIso : Option String
  fileCtimeIso : Option String
  deriving DecidableEq

/-- What is kept of a malformed record. -/
structure InvalidRecordStub where
  relPath : String
  typeNames : List String
  fileSize : Nat
  fileMtimeIso : Option String
  fileCtimeIso : Option String
  sourceRevision : String
  reason : String
  deriving DecidableEq

/-- A record of the collection as a query loads it. -/
inductive LocalRecord where
  | parsed (record : FileRecord)
  | invalid (stub : InvalidRecordStub)
  deriving DecidableEq

namespace LocalRecord

/-- `LocalRecord::path`. -/
def path : LocalRecord → String
  | .parsed record => record.relPath
  | .invalid stub => stub.relPath

/-- `LocalRecord::types`. -/
def types : LocalRecord → List String
  | .parsed record => record.typeNames
  | .invalid stub => stub.typeNames

/-- The size of the file of a record. -/
def fileSize : LocalRecord → Nat
  | .parsed record => record.fileSize
  | .invalid stub => stub.fileSize

/-- The modification time of the file of a record. -/
def fileMtimeIso : LocalRecord → Option String
  | .parsed record => record.fileMtimeIso
  | .invalid stub => stub.fileMtimeIso

/-- The creation time of the file of a record. -/
def fileCtimeIso : LocalRecord → Option String
  | .parsed record => record.fileCtimeIso
  | .invalid stub => stub.fileCtimeIso

end LocalRecord

/-- A row of the `files` table with its rows of `file_types`. The JSON columns are
given by the values that they hold. -/
structure CachedRow where
  path : String
  frontmatter : Value
  effective : Option Value
  body : String
  size : Nat
  mtimeNs : I64
  ctimeNs : Option I64
  sourceRevision : String
  failureReason : Option String
  typeNames : List String

/-- The `files` table: paths are its primary key, rows have numbers of `i64`. -/
structure CacheTable where
  rows : List CachedRow
  distinct : (rows.map CachedRow.path).Nodup
  countable : rows.length ≤ i64Max

namespace CachedRow

/-- The modification time of a row; zero stands for an unknown time. -/
def mtimeIso (row : CachedRow) : Option String :=
  if row.mtimeNs.1 ≠ 0 then some (nsToIso row.mtimeNs) else none

/-- The creation time of a row. -/
def ctimeIso (row : CachedRow) : Option String := row.ctimeNs.map fun nanos => nsToIso nanos.1

/-- The record of a row with given types, effective frontmatter and body. -/
def toRecord (row : CachedRow) (typeNames : List String) (effective : Value) (body : String) :
    LocalRecord :=
  match row.failureReason with
  | some reason =>
    .invalid
      { relPath := row.path
        typeNames := row.typeNames
        fileSize := row.size
        fileMtimeIso := row.mtimeIso
        fileCtimeIso := row.ctimeIso
        sourceRevision := row.sourceRevision
        reason := reason }
  | none =>
    .parsed
      { relPath := row.path
        sourceRevision := row.sourceRevision
        rawFrontmatter := row.frontmatter
        effectiveFrontmatter := effective
        body := body
        typeNames := typeNames
        fileSize := row.size
        fileMtimeIso := row.mtimeIso
        fileCtimeIso := row.ctimeIso }

/-- The record that `load_file_records_from_cache` makes of a row. Types that were
never stored are determined again. -/
def loaded (determine : Value → String → List String) (includeBodies : Bool) (row : CachedRow) :
    LocalRecord :=
  row.toRecord
    (if row.typeNames.isEmpty then determine row.frontmatter row.path else row.typeNames)
    (row.effective.getD row.frontmatter) (if includeBodies then row.body else "")

/-- The record that `load_query_metadata_page_connection` makes of a row. -/
def selected (row : CachedRow) : LocalRecord := row.toRecord row.typeNames row.frontmatter row.body

end CachedRow

/-- The part of the ordered records that a query asks for. -/
structure Window where
  offset : Nat
  limit : Option Nat
  deriving DecidableEq

/-- A page of records. -/
structure Page where
  records : List LocalRecord
  total : Nat
  hasMore : Bool
  deriving DecidableEq

/-- `str::eq_ignore_ascii_case`, `str::to_ascii_lowercase` and SQLite's `lower`
change only the letters A to Z. -/
def asciiLower (text : String) : String := text.map Char.toLower

/-- `str::eq_ignore_ascii_case`. -/
def eqIgnoreAsciiCase (left right : String) : Bool := asciiLower left = asciiLower right

/-- The last part of a record path, `Path::file_name`. -/
def fileName (path : String) : String := String.ofList ((path.toList.splitOn '/').getLast?.getD [])

/-- The folder of a record path, `Path::parent`. -/
def folderOf (path : String) : String :=
  String.ofList (List.intercalate ['/'] (path.toList.splitOn '/').dropLast)

/-- An optional text as a JSON value. -/
def textOrNull : Option String → Value
  | some text => .string text
  | none => .null

/-- `record_metadata_value`. -/
def recordMetadataValue (record : LocalRecord) (field : String) : Value :=
  match field with
  | "file.path" => .string record.path
  | "file.name" => .string (fileName record.path)
  | "file.folder" => .string (folderOf record.path)
  | "file.size" => .number (.posInt record.fileSize)
  | "file.mtime" => textOrNull record.fileMtimeIso
  | "file.ctime" => textOrNull record.fileCtimeIso
  | _ => .null

/-- The comparison of the metadata branch: clause after clause, then the path. -/
def compareRecords : (orderBy : List OrderBy) → (left right : LocalRecord) → Ordering
  | [], left, right => compare left.path right.path
  | order :: rest, left, right =>
    (compareValues (recordMetadataValue left order.field)
      (recordMetadataValue right order.field) order.direction).then
      (compareRecords rest left right)

/-- A record has one of the wanted types, or every type is wanted. -/
def wanted (types : List String) (record : LocalRecord) : Bool :=
  types.isEmpty || record.types.any fun actual => types.any (eqIgnoreAsciiCase actual)

/-- The records that a window shows of an ordered sequence of any kind. -/
def Window.slice {α : Type} (window : Window) (ordered : List α) : List α :=
  let available := ordered.drop (min window.offset ordered.length)
  match window.limit with
  | some limit => available.take limit
  | none => available

/-- Whether records remain behind a page. -/
def Window.hasMore (window : Window) (total count : Nat) : Bool :=
  min window.offset total + count < total

/-- The metadata branch of the executor over loaded records. -/
def memoryPage (types : List String) (orderBy : List OrderBy) (window : Window)
    (records : List LocalRecord) : Page :=
  let ordered := sortBy (compareRecords orderBy) (records.filter (wanted types))
  let page := window.slice ordered
  { records := page
    total := ordered.length
    hasMore := window.hasMore ordered.length page.length }

/-- A term of the `ORDER BY` clause. -/
inductive SqlTerm where
  | path
  | size
  | mtimeMissing
  | mtimeSecond
  | ctimeMissing
  | ctimeSecond
  deriving DecidableEq

/-- Two rows under a term. A comparison has the value 0 or 1, NULL comes first,
integer division rounds towards zero, texts are compared by their bytes. -/
def SqlTerm.compareRows : SqlTerm → (left right : CachedRow) → Ordering
  | .path, left, right => compare left.path right.path
  | .size, left, right => compare left.size right.size
  | .mtimeMissing, left, right =>
    compare (decide (left.mtimeNs.1 = 0)) (decide (right.mtimeNs.1 = 0))
  | .mtimeSecond, left, right => compare (seconds left.mtimeNs) (seconds right.mtimeNs)
  | .ctimeMissing, left, right => compare left.ctimeNs.isNone right.ctimeNs.isNone
  | .ctimeSecond, left, right =>
    compare (left.ctimeNs.map fun nanos => seconds nanos.1)
      (right.ctimeNs.map fun nanos => seconds nanos.1)

/-- The terms of an ordering clause; other fields have no exact SQL order. -/
def sqlTerms (field : String) : Option (List SqlTerm) :=
  match field with
  | "file.path" => some [.path]
  | "file.size" => some [.size]
  | "file.mtime" => some [.mtimeMissing, .mtimeSecond]
  | "file.ctime" => some [.ctimeMissing, .ctimeSecond]
  | _ => none

/-- Rows under the terms of one clause, all in its direction. -/
def compareTerms (direction : Direction) : List SqlTerm → (left right : CachedRow) → Ordering
  | [], _, _ => .eq
  | term :: rest, left, right =>
    (direction.apply (term.compareRows left right)).then
      (compareTerms direction rest left right)

/-- Rows under the whole `ORDER BY` clause, which ends in the path. -/
def compareSql : List (List SqlTerm × Direction) → (left right : CachedRow) → Ordering
  | [], left, right => SqlTerm.path.compareRows left right
  | (terms, direction) :: rest, left, right =>
    (compareTerms direction terms left right).then (compareSql rest left right)

/-- The clauses of an ordering, if SQLite can represent all of them. -/
def sqlOrder (orderBy : List OrderBy) : Option (List (List SqlTerm × Direction)) :=
  orderBy.mapM fun order => (sqlTerms order.field).map (·, order.direction)

/-- The type filter of the statement. -/
def sqlWanted (types : List String) (row : CachedRow) : Bool :=
  types.isEmpty || row.typeNames.any fun actual => asciiLower actual ∈ types.map asciiLower

/-- `LIMIT ? OFFSET ?` with the bounds of `i64`; no limit is passed as -1. -/
def sqlWindow {α : Type} (window : Window) (ordered : List α) : List α :=
  let available := ordered.drop (min window.offset i64Max)
  match window.limit with
  | some limit => available.take (min limit i64Max)
  | none => available

/-- The page that `load_query_metadata_page_connection` selects, with the total
that it counts and the executor's answer to whether there is more. -/
def sqlPage (types : List String) (orderBy : List OrderBy) (window : Window)
    (rows : List CachedRow) : Option Page :=
  (sqlOrder orderBy).map fun order =>
    let kept := rows.filter (sqlWanted types)
    let page := sqlWindow window (sortBy (compareSql order) kept)
    { records := page.map CachedRow.selected
      total := kept.length
      hasMore := window.hasMore kept.length page.length }

end Mdbase.Query
