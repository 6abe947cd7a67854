import Mdbase.Cache.Conflicts
import Mdbase.Frontmatter.Document

/-!
# Staged mutations

A mutation is planned on a working set: the files of a shadow of the collection. A create
and an update check the request against the working set and write one record there, a
delete removes one. What is planned does not depend on whether it is a dry run, but a dry
run leaves the file that it would delete.
-/

namespace Mdbase.Mutation

open Library
open Mdbase.Cache (SpecProfile)
open Mdbase.Frontmatter (DocumentLayout Mapping RecordFormat YamlLibrary frontmatterState
  parseRecordLayout)
open Mdbase.Query (Diagnostic)
open Mdbase.Runtime (Value)
open Mdbase.Validation (Types UniqueCorpusEntry UniquenessLibrary uniqueValueIssues)

/-- The paths of the directories above a path, with what has been read of it in front. -/
def ancestorsFrom : (seen rest : List Char) → List String
  | _, [] => []
  | seen, c :: rest =>
    if c = '/' then String.ofList seen.reverse :: ancestorsFrom (c :: seen) rest
    else ancestorsFrom (c :: seen) rest

/-- The paths of the directories above a path. -/
def ancestors (path : String) : List String := ancestorsFrom [] path.toList

/-- The bytes of a file: those of a text, or bytes that are not UTF-8. -/
inductive Content where
  | text (document : Text)
  | binary (bytes : List UInt8)
  deriving DecidableEq

/-- A file and its path. -/
structure StoredFile where
  path : String
  content : Content
  deriving DecidableEq

/-- The files of a directory tree; its folders are those that hold files. -/
abbrev Files := Table StoredFile.path

/-- The content of the file at a path. -/
def Files.contentAt (files : Files) (path : String) : Option Content :=
  (files.get? path).map (·.content)

/-- `is_in_nested_collection`. -/
def Files.isNested (files : Files) (path : String) : Bool :=
  (ancestors path).any fun folder => (files.get? (folder ++ "/mdbase.yaml")).isSome

/-- `entry_exists`, where a failed inspection counts as an entry: a file, a folder, or a
path below a file. -/
def Files.occupied (files : Files) (path : String) : Bool :=
  files.entries.any fun file =>
    file.path = path ∨ path ∈ ancestors file.path ∨ file.path ∈ ancestors path

/-- `CreateRequest`. -/
structure CreateRequest where
  path : Option String := none
  typeName : Option String := none
  contract : Option String := none
  contractVersion : Option String := none
  frontmatter : Value := .object []
  body : Text := []
  ifRevision : Option String := none
  includeDocument : Bool := false
  deriving DecidableEq

/-- `UpdateRequest`. -/
structure UpdateRequest where
  path : String
  patch : Value := .object []
  unset : List String := []
  document : Option Text := none
  body : Option Text := none
  ifRevision : Option String := none
  includeDocument : Bool := false
  deriving DecidableEq

/-- `DeleteRequest`. -/
structure DeleteRequest where
  path : String
  checkBacklinks : Bool := false
  ifRevision : Option String := none
  deriving DecidableEq

/-- `RenameRequest`. -/
structure RenameRequest where
  source : String
  destination : String
  updateRefs : Bool := true
  ifRevision : Option String := none
  includeDocument : Bool := false
  deriving DecidableEq

/-- `MdbaseError`, without the failures that other operations have. -/
inductive MdbaseError where
  | migrationRequired (operation : String)
  | invalidRequest (message : String)
  | operation (diagnostics : List Diagnostic)
  | invalidResult (message : String)
  deriving DecidableEq

/-- `Diagnostic::error`. -/
def errorDiagnostic (code message : String) (path : Option String := none) : Diagnostic where
  severity := "error"
  code := code
  message := message
  path := path
  field := none
  typeName := none
  schemaLocation := none
  details := none

/-- `MutationFailure::operation`, as a typed error. -/
def failure (code message : String) (path : Option String := none) : MdbaseError :=
  .operation [errorDiagnostic code message path]

/-- `RecordLoadOutcome`. -/
inductive RecordLoadOutcome where
  | parsed (document : Text) (layout : DocumentLayout) (raw effective : Value)
  | invalidFrontmatter (document : Text) (layout : DocumentLayout) (effective : Value)
  | invalidUtf8

/-- `document`. -/
def RecordLoadOutcome.document : RecordLoadOutcome → Option Text
  | .parsed document .. | .invalidFrontmatter document .. => some document
  | .invalidUtf8 => none

/-- `layout`. -/
def RecordLoadOutcome.layout : RecordLoadOutcome → Option DocumentLayout
  | .parsed _ layout .. | .invalidFrontmatter _ layout _ => some layout
  | .invalidUtf8 => none

/-- `raw_frontmatter`. -/
def RecordLoadOutcome.raw : RecordLoadOutcome → Option Value
  | .parsed _ _ raw _ => some raw
  | .invalidFrontmatter .. | .invalidUtf8 => none

/-- `effective_frontmatter`. -/
def RecordLoadOutcome.effective : RecordLoadOutcome → Option Value
  | .parsed _ _ _ effective | .invalidFrontmatter _ _ effective => some effective
  | .invalidUtf8 => none

/-- `AuthoritativeCollectionSnapshotEntry`. -/
structure SnapshotEntry where
  path : String
  revision : String
  types : List String
  outcome : RecordLoadOutcome

/-- `Severity`. -/
inductive Severity where
  | error
  | warning
  | info
  deriving DecidableEq

/-- `Issue`, as far as mutations read it. -/
structure Issue where
  code : String
  message : String
  path : Option String
  field : Option String
  severity : Severity
  typeName : Option String
  deriving DecidableEq

/-- The record that a create or an update settles before its checks. -/
structure WriteDraft where
  path : String
  types : List String
  frontmatter : Value
  deriving DecidableEq

/-- What a create or an update stores. -/
structure WriteOutput where
  frontmatter : Value
  body : Text
  document : Text
  deriving DecidableEq

/-- The frontmatter of a record with its links rewritten. -/
structure FrontmatterRewrite where
  mapping : Mapping
  changed : Bool
  updates : List Value
  warnings : List Diagnostic

/-- The body of a record with its links rewritten. -/
structure BodyRewrite where
  body : Text
  changed : Bool

/-- The rename whose references are rewritten. -/
structure Renaming where
  source : String
  destination : String
  sourceId : Option String
  deriving DecidableEq

/-- The settings and types of a collection, with the parts of its code that plan the
content of one record. -/
structure MutationLibrary where
  specProfile : SpecProfile
  /-- `settings.default_validation`. -/
  defaultValidation : String
  /-- `settings.id_field`. -/
  idField : String
  definitions : Types
  uniqueness : UniquenessLibrary
  yaml : YamlLibrary
  /-- The text of the emitter's error. -/
  emitterError : Mapping → String
  /-- `content_revision`. -/
  revision : Content → String
  /-- `validate_record_path`, without nested collections. -/
  isRecordName : String → Bool
  /-- The configuration, types, contracts, schemas, migrations and views. -/
  isResource : String → Bool
  /-- `validate_file_path`, without nested collections. -/
  isOrdinaryName : String → Bool
  /-- `RecordFormat::for_path`. -/
  recordFormat : String → RecordFormat
  /-- `yaml_mapping_to_json`. -/
  toJson : Mapping → Value
  /-- `determine_types_for_path`. -/
  typesOf : Value → String → List String
  /-- `determine_types_for_path_only`. -/
  typesByPath : String → List String
  /-- `apply_defaults` and `coerce_types`. -/
  withDefaults : Value → List String → Value
  /-- `evaluate_computed_fields`. -/
  withComputed : Value → List String → String → Text → Value
  /-- `validate`. -/
  validate : Value → List String → String → List Issue
  /-- `prepare_create` and the part of `create_core` before its checks: membership,
  lifecycle rules, generated values and the path. -/
  createDraft : List SnapshotEntry → CreateRequest → Except MdbaseError WriteDraft
  /-- `write_nulls`, `write_empty_lists`, `revalidate` and the serializer, for a create. -/
  createOutput : CreateRequest → WriteDraft → Except MdbaseError WriteOutput
  /-- `classify_document` of the replacement in an update. -/
  checkReplacement : UpdateRequest → Except MdbaseError Unit
  /-- The patch, membership, lifecycle rules and generated values of an update. -/
  updateDraft : List SnapshotEntry → SnapshotEntry → UpdateRequest → Except MdbaseError WriteDraft
  /-- `write_nulls`, `revalidate` and the serializer, for an update. -/
  updateOutput : SnapshotEntry → UpdateRequest → WriteDraft → Except MdbaseError WriteOutput
  /-- `build_backlinks_index_for_snapshot`, at one path. -/
  backlinks : List SnapshotEntry → String → Except MdbaseError (List String)
  /-- `required_link_values`. -/
  requiredLinkValues : Value → List String → List String
  /-- `check_link_exists`, by the index of a snapshot. -/
  linkIssues : List SnapshotEntry → Value → List String → String → List Issue
  /-- `update_fm_links`, for a record at the path that the rename leaves it. -/
  updateFmLinks : List SnapshotEntry → Renaming → String → List String → Mapping →
    Except MdbaseError FrontmatterRewrite
  /-- `update_body_links`, for a record at the path that the rename leaves it. -/
  updateBodyLinks : List SnapshotEntry → Renaming → String → Text → Except MdbaseError BodyRewrite

variable (library : MutationLibrary)

/-- `validate_record_path`. -/
def isRecordPath (files : Files) (path : String) : Bool :=
  library.isRecordName path && !files.isNested path

/-- `mutation_record_path_diagnostic`. -/
def checkRecordPath (files : Files) (path : String) : Except MdbaseError Unit :=
  if isRecordPath library files path then .ok ()
  else .error (failure "path_traversal" "path is not an ordinary record path" (some path))

/-- `classify_bytes`. -/
def classifyBytes (path : String) : Content → List String × RecordLoadOutcome
  | .binary _ => (library.typesByPath path, .invalidUtf8)
  | .text document =>
    let layout := parseRecordLayout library.yaml (library.recordFormat path) document
    let parsed (raw : Value) :=
      let types := library.typesOf raw path
      (types, RecordLoadOutcome.parsed document layout raw (library.withDefaults raw types))
    match frontmatterState layout.frontmatter with
    | .absent => parsed (.object [])
    | .mapping entries => parsed (library.toJson entries)
    | .invalidYaml | .null | .nonMapping _ =>
      let types := library.typesByPath path
      (types, .invalidFrontmatter document layout (library.withDefaults (.object []) types))

/-- The snapshot entry of a file. -/
def snapshotEntry (file : StoredFile) : SnapshotEntry where
  path := file.path
  revision := library.revision file.content
  types := (classifyBytes library file.path file.content).1
  outcome := (classifyBytes library file.path file.content).2

/-- `load_record`. -/
def loadRecord (files : Files) (path : String) : Except MdbaseError SnapshotEntry :=
  match files.get? path with
  | some file => .ok (snapshotEntry library file)
  | none => .error (failure "file_not_found" ("File not found: " ++ path) (some path))

/-- `capture_collection_snapshot_current`. -/
def captureSnapshot (files : Files) : List SnapshotEntry :=
  (files.entries.filter fun file => isRecordPath library files file.path).map
    (snapshotEntry library)

/-- `unique_corpus`. -/
def uniqueCorpus (snapshot : List SnapshotEntry) : List UniqueCorpusEntry :=
  snapshot.filterMap fun entry => entry.outcome.effective.map fun effective =>
    ⟨entry.path, effective, entry.types⟩

/-- `write_uniqueness_issues`; a canonical collection has no identity field. -/
def writeUniquenessIssues (files : Files) (draft : WriteDraft) : List Issue :=
  (uniqueValueIssues library.uniqueness library.definitions
    ⟨draft.path, library.withDefaults draft.frontmatter draft.types, draft.types⟩
    (uniqueCorpus (captureSnapshot library files))).map fun issue =>
      { code := "duplicate_value"
        message := issue.message
        path := some issue.path
        field := some issue.key.field
        severity := .error
        typeName := some issue.typeName }

/-- `diagnostic_from_issue`. -/
def diagnosticFromIssue (issue : Issue) : Diagnostic where
  severity := match issue.severity with
    | .error => "error"
    | .warning => "warning"
    | .info => "info"
  code := issue.code
  message := issue.message
  path := issue.path
  field := issue.field
  typeName := issue.typeName
  schemaLocation := none
  details := none

/-- `MutationFailure::validation`. -/
def validationFailure (issues : List Issue) : MdbaseError :=
  .operation (issues.map diagnosticFromIssue)

/-- The validation of a created record. -/
def checkCreated (files : Files) (draft : WriteDraft) : Except MdbaseError Unit :=
  if library.defaultValidation = "error" then
    let issues := library.validate draft.frontmatter draft.types draft.path ++
      writeUniquenessIssues library files draft
    if issues.any fun issue => issue.severity = .error then .error (validationFailure issues)
    else .ok ()
  else if library.defaultValidation = "warn" then
    let issues := library.validate draft.frontmatter draft.types draft.path
    if issues.any fun issue => issue.code = "unknown_field" ∧ issue.severity = .error then
      .error (validationFailure issues)
    else .ok ()
  else .ok ()

/-- The validation of an updated record. -/
def checkUpdated (files : Files) (draft : WriteDraft) : Except MdbaseError Unit :=
  if library.defaultValidation = "error" then
    let issues := library.validate draft.frontmatter draft.types draft.path
    let uniqueness := writeUniquenessIssues library files draft
    if (issues.any fun issue => issue.severity = .error) ∨ uniqueness ≠ [] then
      .error (validationFailure (issues ++ uniqueness))
    else .ok ()
  else .ok ()

/-- `PlannedRecord`, without warnings. -/
structure PlannedRecord where
  path : String
  types : List String
  frontmatter : Value
  effective : Value
  body : Text
  content : Content
  beforeRevision : Option String
  includeDocument : Bool
  deriving DecidableEq

/-- The record that a write plans. -/
def plannedRecord (draft : WriteDraft) (output : WriteOutput) (beforeRevision : Option String)
    (includeDocument : Bool) : PlannedRecord where
  path := draft.path
  types := draft.types
  frontmatter := output.frontmatter
  effective := library.withComputed (library.withDefaults draft.frontmatter draft.types)
    draft.types draft.path output.body
  body := output.body
  content := .text output.document
  beforeRevision := beforeRevision
  includeDocument := includeDocument

/-- `create_core`, up to the write. -/
def planCreate (files : Files) (request : CreateRequest) : Except MdbaseError PlannedRecord := do
  let draft ← library.createDraft (captureSnapshot library files) request
  checkRecordPath library files draft.path
  if files.occupied draft.path then
    .error (failure "path_conflict" ("File already exists: " ++ draft.path))
  else if request.ifRevision.isSome then
    .error (failure "concurrent_modification"
      ("File '" ++ draft.path ++ "' no longer matches the requested revision"))
  else
    checkCreated library files draft
    let output ← library.createOutput request draft
    .ok (plannedRecord library draft output none request.includeDocument)

/-- A request names a revision that a file does not have. -/
def revisionConflicts (ifRevision : Option String) (revision : String) : Bool :=
  ifRevision.any (· ≠ revision)

/-- The error for a file that changed. -/
def modifiedExternally (path : String) : MdbaseError :=
  failure "concurrent_modification" ("File '" ++ path ++ "' was modified externally") (some path)

/-- `prepare_update` and `update_core`, up to the write. -/
def planUpdate (files : Files) (request : UpdateRequest) : Except MdbaseError PlannedRecord := do
  let entry ← loadRecord library files request.path
  library.checkReplacement request
  if entry.outcome.raw.isNone ∧ request.document.isNone then
    .error (failure "invalid_frontmatter" "Invalid frontmatter" (some request.path))
  else if revisionConflicts request.ifRevision entry.revision then
    .error (modifiedExternally request.path)
  else
    let draft ← library.updateDraft (captureSnapshot library files) entry request
    checkRecordPath library files request.path
    checkUpdated library files { draft with path := request.path }
    let output ← library.updateOutput entry request draft
    .ok (plannedRecord library { draft with path := request.path } output (some entry.revision)
      request.includeDocument)

/-- `validate_update_shape`. -/
def validateUpdateShape (request : UpdateRequest) : Except MdbaseError Unit :=
  if request.document.isSome ∧
      (request.body.isSome ∨ request.unset ≠ [] ∨ request.patch ≠ .object []) then
    .error (.invalidRequest "document cannot be combined with patch, unset, or body")
  else .ok ()

/-- A planned record is written. -/
def PlannedRecord.write (record : PlannedRecord) (files : Files) : Files :=
  files.insert ⟨record.path, record.content⟩

/-- A plan is carried out, or leaves the files. -/
def publish (files : Files) (plan : Except MdbaseError PlannedRecord) :
    Except MdbaseError PlannedRecord × Files :=
  match plan with
  | .ok record => (.ok record, record.write files)
  | .error error => (.error error, files)

/-- `staged_create`. -/
def stagedCreate (files : Files) (request : CreateRequest) :
    Except MdbaseError PlannedRecord × Files :=
  publish files (planCreate library files request)

/-- `staged_update`. -/
def stagedUpdate (files : Files) (request : UpdateRequest) :
    Except MdbaseError PlannedRecord × Files :=
  publish files (validateUpdateShape request >>= fun _ => planUpdate library files request)

/-- `PlannedDelete`. -/
structure PlannedDelete where
  path : String
  beforeRevision : String
  brokenLinks : List String
  deleted : Bool
  deriving DecidableEq

/-- The records that link to the one that is deleted, if the request asks for them. -/
def brokenLinks (files : Files) (request : DeleteRequest) : Except MdbaseError (List String) :=
  if request.checkBacklinks then library.backlinks (captureSnapshot library files) request.path
  else .ok []

/-- `prepare_delete`: the revision of the record, and who links to it. -/
def prepareDelete (files : Files) (request : DeleteRequest) :
    Except MdbaseError (String × List String) := do
  checkRecordPath library files request.path
  let entry ← loadRecord library files request.path
  let links ← brokenLinks library files request
  if revisionConflicts request.ifRevision entry.revision then
    .error (modifiedExternally request.path)
  else .ok (entry.revision, links)

/-- `delete_planned`. -/
def deletePlanned (files : Files) (request : DeleteRequest) (dryRun : Bool)
    (beforeRevision : String) (links : List String) :
    Except MdbaseError PlannedDelete × Files :=
  match loadRecord library files request.path with
  | .error error => (.error error, files)
  | .ok current =>
    if current.revision ≠ beforeRevision ∨
        revisionConflicts request.ifRevision current.revision then
      (.error (modifiedExternally request.path), files)
    else
      (.ok ⟨request.path, beforeRevision, links, !dryRun⟩,
        if dryRun then files else files.erase request.path)

/-- `staged_delete`. -/
def stagedDelete (files : Files) (request : DeleteRequest) (dryRun : Bool) :
    Except MdbaseError PlannedDelete × Files :=
  match prepareDelete library files request with
  | .error error => (.error error, files)
  | .ok (beforeRevision, links) => deletePlanned library files request dryRun beforeRevision links

end Mdbase.Mutation
