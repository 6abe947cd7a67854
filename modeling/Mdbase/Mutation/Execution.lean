import Mdbase.Library.Comparison
import Mdbase.Mutation.Rename

/-!
# The execution of mutations

A typed mutation is staged on a shadow of the collection, projected to the record that the
caller gets, and committed as the difference of the shadow from its baseline. A batch stages
its items one after the other on one shadow and stops at the first that fails; a dry run is
the same without the commit. A rename of the runtime prepares the same difference for a
transaction of its own.
-/

namespace Mdbase.Mutation

open Library
open Mdbase.Frontmatter (frontmatterState parseRecordLayout)
open Mdbase.Query (Diagnostic)
open Mdbase.Runtime (Value)

variable (library : MutationLibrary)

/-- `RecordDocument`, without facts of the file. -/
structure RecordDocument where
  path : String
  revision : String
  types : List String
  frontmatter : Value
  effective : Value
  body : Text
  document : Option Text
  deriving DecidableEq

/-- The diagnostics of an error. -/
def MdbaseError.diagnostics : MdbaseError → List Diagnostic
  | .operation diagnostics => diagnostics
  | .migrationRequired _ | .invalidRequest _ | .invalidResult _ => []

/-- The error of a record whose frontmatter cannot be read. -/
def invalidFrontmatter (message path : String) : MdbaseError :=
  failure "invalid_frontmatter" message (some path)

/-- A read of settled frontmatter. -/
def evaluateFrontmatter (path : String) (document body : Text) (includeDocument : Bool)
    (raw : Value) : Except MdbaseError RecordDocument :=
  let types := library.typesOf raw path
  let issues := if library.defaultValidation = "off" then [] else library.validate raw types path
  if library.defaultValidation = "warn" ∨ !issues.any (fun issue => issue.severity = .error) then
    .ok
      { path := path
        revision := library.revision (.text document)
        types := types
        frontmatter := raw
        effective := library.withComputed (library.withDefaults raw types) types path body
        body := body
        document := if includeDocument then some document else none }
  else
    .error (.operation (issues.map fun issue =>
      { diagnosticFromIssue issue with severity := "error", path := some (issue.path.getD path) }))

/-- `evaluate_document`. -/
def evaluateDocument (path : String) (document : Text) (includeDocument : Bool) :
    Except MdbaseError RecordDocument :=
  let layout := parseRecordLayout library.yaml (library.recordFormat path) document
  let finish := evaluateFrontmatter library path document layout.body includeDocument
  match frontmatterState layout.frontmatter with
  | .invalidYaml => .error (invalidFrontmatter "Failed to parse YAML frontmatter" path)
  | .mapping entries => finish (library.toJson entries)
  | .null =>
    if library.defaultValidation = "error" then
      .error (invalidFrontmatter "Frontmatter is null" path)
    else finish (.object [])
  | .absent => finish (.object [])
  | .nonMapping _ =>
    if library.defaultValidation = "off" ∨ library.defaultValidation = "warn" then
      finish (.object [])
    else .error (invalidFrontmatter "Frontmatter must be a YAML mapping" path)

/-- `evaluate_typed_read` of an exact source. -/
def evaluateTypedRead (files : Files) (path : String) (document : Text)
    (includeDocument : Bool) : Except MdbaseError RecordDocument :=
  if isRecordPath library files path then evaluateDocument library path document includeDocument
  else .error (failure "file_not_found" ("File not found: " ++ path) (some path))

/-- `opaque_projection`: the record as it was planned. -/
def plannedProjection (planned : PlannedRecord) (document : Text) : RecordDocument where
  path := planned.path
  revision := library.revision planned.content
  types := planned.types
  frontmatter := planned.frontmatter
  effective := planned.effective
  body := planned.body
  document := if planned.includeDocument then some document else none

/-- `project_record_facts`. -/
def projectRecord (files : Files) (planned : PlannedRecord) : Except MdbaseError RecordDocument :=
  match planned.content with
  | .binary _ => .error (.invalidResult "invalid utf-8 sequence")
  | .text document =>
    match evaluateTypedRead library files planned.path document planned.includeDocument with
    | .ok record => .ok record
    | .error error =>
      if error.diagnostics.any fun item => item.code = "invalid_frontmatter" then
        .ok (plannedProjection library planned document)
      else .error error

/-- `should_copy_file`, without nested collections. -/
def isCopied (path : String) : Bool := library.isResource path || library.isRecordName path

/-- An ordinary file contributes its existence only. -/
def contributed (file : StoredFile) : StoredFile :=
  if isCopied library file.path then file else { file with content := .text [] }

theorem path_contributed (file : StoredFile) : (contributed library file).path = file.path := by
  unfold contributed
  split
  next => rfl
  next => rfl

/-- The files of `shadow_collection`. -/
def shadowFiles (files : Files) : Files :=
  (files.filter fun file =>
    (isCopied library file.path || library.isOrdinaryName file.path) &&
      !files.isNested file.path).image (contributed library) (path_contributed library)

/-- `collect_collection_files`, also the baseline of a shadow. -/
def collectFiles (files : Files) : Files :=
  files.filter fun file => isCopied library file.path && !files.isNested file.path

/-- The paths whose content differs, in order. -/
def changedPaths (baseline desired : Files) : List String :=
  (sortBy compare ((baseline.entries ++ desired.entries).map (·.path)).dedup).filter fun path =>
    baseline.contentAt path ≠ desired.contentAt path

/-- `apply_entry`. -/
def applyEntry (desired files : Files) (path : String) : Files :=
  match desired.get? path with
  | some file => files.insert file
  | none => files.erase path

/-- `commit_shadow`, without failures of the storage. -/
def commitShadow (files baseline desired : Files) : Except MdbaseError Files :=
  let paths := changedPaths baseline desired
  if paths.any fun path => !isRecordPath library files path then
    .error (failure "path_traversal" "path is not an ordinary record path")
  else if paths.any fun path =>
      (files.contentAt path).map library.revision ≠
        (baseline.contentAt path).map library.revision then
    .error (failure "concurrent_modification" "A file was modified externally.")
  else .ok (paths.foldl (applyEntry desired) files)

/-- A value is returned with the commit of a shadow. -/
def commitWith {α : Type} (files shadow : Files) (value : α) : Except MdbaseError α × Files :=
  match commitShadow library files (collectFiles library files) (collectFiles library shadow) with
  | .ok committed => (.ok value, committed)
  | .error error => (.error error, files)

/-- `execute_shadow`. -/
def executeShadow (files : Files)
    (operation : Files → Except MdbaseError PlannedRecord × Files) :
    Except MdbaseError RecordDocument × Files :=
  if library.specProfile ≠ .v03 then (.error (.migrationRequired "mutation"), files)
  else
    match operation (shadowFiles library files) with
    | (.error error, _) => (.error error, files)
    | (.ok planned, shadow) =>
      match projectRecord library shadow planned with
      | .error error => (.error error, files)
      | .ok record => commitWith library files shadow record

/-- `create`. -/
def create (files : Files) (request : CreateRequest) : Except MdbaseError RecordDocument × Files :=
  executeShadow library files fun shadow => stagedCreate library shadow request

/-- `update`. -/
def update (files : Files) (request : UpdateRequest) : Except MdbaseError RecordDocument × Files :=
  match validateUpdateShape request with
  | .error error => (.error error, files)
  | .ok () => executeShadow library files fun shadow => stagedUpdate library shadow request

/-- `delete`, by `execute_delete_shadow`. -/
def delete (files : Files) (request : DeleteRequest) : Except MdbaseError PlannedDelete × Files :=
  if library.specProfile ≠ .v03 then (.error (.migrationRequired "mutation"), files)
  else
    match stagedDelete library (shadowFiles library files) request false with
    | (.error error, _) => (.error error, files)
    | (.ok planned, shadow) => commitWith library files shadow planned

/-- `execute_rename_shadow`. -/
def executeRenameShadow (files : Files) (request : RenameRequest) :
    Except MdbaseError (PlannedRename × RecordDocument) × Files :=
  if library.specProfile ≠ .v03 then (.error (.migrationRequired "rename"), files)
  else
    match stagedRename library (shadowFiles library files) request false with
    | (.error error, _) => (.error error, files)
    | (.ok planned, shadow) =>
      match projectRecord library shadow planned.destination with
      | .error error => (.error error, files)
      | .ok record => commitWith library files shadow (planned, record)

/-- The diagnostic of a reference that could not be rewritten. -/
def failureDiagnostic (code : String) (failed : ReferenceFailure) : Diagnostic :=
  errorDiagnostic code (failed.message.getD "Some reference updates failed") (some failed.path)

/-- A warning, whatever its severity was. -/
def asWarning (diagnostic : Diagnostic) : Diagnostic := { diagnostic with severity := "warning" }

/-- `rename_diagnostics`. -/
def renameDiagnostics (planned : PlannedRename) : List Diagnostic :=
  planned.warnings.map asWarning ++
    planned.failures.map (failureDiagnostic "rename_ref_update_failed")

/-- Is there an error among diagnostics? -/
def hasError (diagnostics : List Diagnostic) : Bool :=
  diagnostics.any fun item => item.severity = "error"

/-- `RenameResult`. -/
structure RenameResult where
  document : RecordDocument
  source : String
  destination : String
  referencesUpdated : List Value
  deriving DecidableEq

/-- `result` of a planned rename. -/
def PlannedRename.result (planned : PlannedRename) (document : RecordDocument) : RenameResult where
  document := document
  source := planned.source
  destination := planned.destination.path
  referencesUpdated := planned.referencesUpdated

/-- `rename`. -/
def rename (files : Files) (request : RenameRequest) : Except MdbaseError RenameResult × Files :=
  match executeRenameShadow library files request with
  | (.error error, after) => (.error error, after)
  | (.ok (planned, document), after) =>
    if hasError (renameDiagnostics planned) then
      (.error (.operation (renameDiagnostics planned)), after)
    else (.ok (planned.result document), after)

/-- `BatchOperation`. -/
inductive BatchOperation where
  | create (request : CreateRequest)
  | update (request : UpdateRequest)
  | delete (request : DeleteRequest)
  | rename (request : RenameRequest)
  deriving DecidableEq

/-- `kind`. -/
def BatchOperation.kind : BatchOperation → String
  | .create _ => "create"
  | .update _ => "update"
  | .delete _ => "delete"
  | .rename _ => "rename"

/-- The paths that an operation names. -/
def BatchOperation.paths : BatchOperation → List String
  | .create request => request.path.toList
  | .update request => [request.path]
  | .delete request => [request.path]
  | .rename request => [request.source, request.destination]

/-- `BatchOperationResult`. -/
inductive BatchOperationResult where
  | none
  | record (document : RecordDocument)
  | delete (planned : PlannedDelete)
  | deletePreflight (planned : PlannedDelete)
  | rename (result : RenameResult) (failed : List ReferenceFailure)
  | renamePreflight (planned : PlannedRename)
  deriving DecidableEq

/-- The outcome of one item: whether it is valid, its result and its diagnostics. -/
abbrev Evaluated := Except MdbaseError (Bool × BatchOperationResult × List Diagnostic)

/-- `record_result`. -/
def recordResult (files : Files) (planned : PlannedRecord) : Evaluated :=
  (projectRecord library files planned).map fun document => (true, .record document, [])

/-- `delete_result`. -/
def deleteResult (planned : PlannedDelete) : Evaluated :=
  .ok (true, if planned.deleted then .delete planned else .deletePreflight planned, [])

/-- The diagnostics of `rename_result`. -/
def batchRenameDiagnostics (planned : PlannedRename) : List Diagnostic :=
  planned.warnings.map asWarning ++
    planned.failures.map fun failed => failureDiagnostic failed.reason failed

/-- `rename_result`. -/
def renameResult (files : Files) (planned : PlannedRename) : Evaluated :=
  let diagnostics := batchRenameDiagnostics planned
  let valid := !hasError diagnostics
  if planned.dryRun then .ok (valid, .renamePreflight planned, diagnostics)
  else
    (projectRecord library files planned.destination).map fun document =>
      (valid, .rename (planned.result document) planned.failures, diagnostics)

/-- The plan of an item is turned into its outcome. -/
def evaluated {α : Type} (staged : Except MdbaseError α × Files)
    (result : Files → α → Evaluated) : Evaluated × Files :=
  (staged.1 >>= result staged.2, staged.2)

/-- `evaluate_item`. -/
def evaluateItem (dryRun : Bool) (files : Files) : BatchOperation → Evaluated × Files
  | .create request => evaluated (stagedCreate library files request) (recordResult library)
  | .update request => evaluated (stagedUpdate library files request) (recordResult library)
  | .delete request => evaluated (stagedDelete library files request dryRun) fun _ => deleteResult
  | .rename request => evaluated (stagedRename library files request dryRun) (renameResult library)

/-- `BatchItemResult`. -/
structure BatchItemResult where
  index : Nat
  kind : String
  valid : Bool
  result : BatchOperationResult
  diagnostics : List Diagnostic
  deriving DecidableEq

/-- `diagnostics_from_error`. -/
def diagnosticsFromError (error : MdbaseError) : List Diagnostic :=
  if error.diagnostics.isEmpty then [errorDiagnostic "invalid_request" "invalid request"]
  else error.diagnostics

/-- The result of an item. -/
def itemResult (index : Nat) (operation : BatchOperation) : Evaluated → BatchItemResult
  | .ok (valid, result, diagnostics) => ⟨index, operation.kind, valid, result, diagnostics⟩
  | .error error => ⟨index, operation.kind, false, .none, diagnosticsFromError error⟩

/-- `execute_items`, from an index on: the items up to the first that fails, and the working
set that they leave. -/
def executeItems (dryRun : Bool) (files : Files) :
    Nat → List BatchOperation → List BatchItemResult × Files
  | _, [] => ([], files)
  | index, operation :: operations =>
    let outcome := evaluateItem library dryRun files operation
    let item := itemResult index operation outcome.1
    if item.valid then
      let rest := executeItems dryRun outcome.2 (index + 1) operations
      (item :: rest.1, rest.2)
    else ([item], outcome.2)

/-- `BatchExecution` with its `BatchResult`. -/
structure BatchExecution where
  items : List BatchItemResult
  preflight : Bool
  dryRun : Bool
  diagnostics : List Diagnostic
  deriving DecidableEq

/-- `failed`. -/
def BatchExecution.failed (execution : BatchExecution) : Nat :=
  (execution.items.filter fun item => !item.valid).length

/-- `aggregate`. -/
def aggregate (items : List BatchItemResult) (preflight dryRun : Bool) : BatchExecution where
  items := items
  preflight := preflight
  dryRun := dryRun
  diagnostics := items.flatMap (·.diagnostics)

/-- The records that items wrote. -/
def writtenRecords (items : List BatchItemResult) : List RecordDocument :=
  items.filterMap fun item =>
    match item.result with
    | .record document => some document
    | _ => none

/-- `written_link_issues`. -/
def writtenLinkIssues (files : Files) (written : List RecordDocument) : List Issue :=
  written.flatMap fun record =>
    if library.requiredLinkValues record.effective record.types = [] then []
    else
      library.linkIssues (captureSnapshot library files) record.effective record.types record.path

/-- An item with the link issues of the record that it wrote. -/
def withLinkIssues (issues : List Issue) (item : BatchItemResult) : BatchItemResult :=
  match item.result with
  | .record document =>
    let failures := issues.filter fun issue => issue.path = some document.path
    if failures.isEmpty then item
    else
      { item with
        valid := false
        diagnostics := item.diagnostics ++ failures.map diagnosticFromIssue }
  | _ => item

/-- `reject_unresolved_links`. -/
def rejectUnresolvedLinks (files : Files) (execution : BatchExecution) : BatchExecution :=
  if library.defaultValidation ≠ "error" then execution
  else
    { execution with
      items := execution.items.map
        (withLinkIssues (writtenLinkIssues library files (writtenRecords execution.items))) }

/-- `execute_atomic`. -/
def executeAtomic (files : Files) (operations : List BatchOperation) (dryRun : Bool) :
    Except MdbaseError BatchExecution × Files :=
  let run := executeItems library dryRun (shadowFiles library files) 0 operations
  let execution := aggregate run.1 true dryRun
  if dryRun ∨ execution.failed ≠ 0 then (.ok execution, files)
  else
    let checked := rejectUnresolvedLinks library run.2 execution
    if checked.failed ≠ 0 then (.ok checked, files)
    else commitWith library files run.2 { checked with preflight := false }

/-- `validate_request`. -/
def validateRequest (operations : List BatchOperation) : Except MdbaseError Unit :=
  if operations.isEmpty then .error (.invalidRequest "batch operations must not be empty")
  else if (operations.flatMap (·.paths)).Nodup then .ok ()
  else .error (failure "duplicate_batch_path" "Batch path is used more than once.")

/-- `batch`, for a request that is not partial or a dry run. -/
def batch (files : Files) (operations : List BatchOperation) (dryRun : Bool) :
    Except MdbaseError BatchExecution × Files :=
  if library.specProfile ≠ .v03 then (.error (.migrationRequired "batch"), files)
  else
    match validateRequest operations with
    | .error error => (.error error, files)
    | .ok () =>
      match executeAtomic library files operations dryRun with
      | (.error error, after) => (.error error, after)
      | (.ok execution, after) =>
        if execution.failed ≠ 0 then (.error (.operation execution.diagnostics), after)
        else (.ok execution, after)

/-- What a rename of the runtime ends with. -/
inductive RuntimeRename where
  | failed (error : MdbaseError)
  | noMutation (diagnostics : List Diagnostic)
  | committed (result : BatchOperationResult)
  deriving DecidableEq

/-- `prepare_single_runtime` of a rename, with the commit of what it prepares. -/
def runtimeRename (files : Files) (request : RenameRequest) : RuntimeRename × Files :=
  match stagedRename library (shadowFiles library files) request false with
  | (.error error, _) => (.noMutation error.diagnostics, files)
  | (.ok planned, shadow) =>
    match renameResult library shadow planned with
    | .error error => (.failed error, files)
    | .ok (false, _, diagnostics) => (.noMutation diagnostics, files)
    | .ok (true, result, diagnostics) =>
      if (collectFiles library shadow).entries = (collectFiles library files).entries then
        (.noMutation diagnostics, files)
      else
        match commitWith library files shadow result with
        | (.ok result, after) => (.committed result, after)
        | (.error error, after) => (.failed error, after)

end Mdbase.Mutation
