import Mdbase.Mutation.Staging

/-!
# Renames

A rename moves one record and rewrites the references to it. The rewrites are planned
before the record moves, each at the path that the rename leaves its record, and a record
whose new frontmatter the emitter rejects is a failure that the plan carries along. The
rewrites are executed after the move, each against the revision that it was planned on.
-/

namespace Mdbase.Mutation

open Library
open Mdbase.Frontmatter (DocumentLayout Mapping serializeDocumentWithBom serializeRecord)
open Mdbase.Query (Diagnostic)
open Mdbase.Runtime (Value)

/-- `ReferenceRewritePlan`. -/
structure ReferenceRewritePlan where
  executionPath : String
  expectedRevision : String
  output : Text
  updates : List Value
  deriving DecidableEq

/-- A reference that could not be rewritten. -/
structure ReferenceFailure where
  path : String
  reason : String
  message : Option String
  deriving DecidableEq

/-- What the planner finds for one record. -/
inductive ReferenceStep where
  | untouched
  | planned (plan : ReferenceRewritePlan)
  | failed (failure : ReferenceFailure)
  deriving DecidableEq

/-- The plan in a step. -/
def ReferenceStep.plan? : ReferenceStep → Option ReferenceRewritePlan
  | .planned plan => some plan
  | .untouched | .failed _ => none

/-- The failure in a step. -/
def ReferenceStep.failure? : ReferenceStep → Option ReferenceFailure
  | .failed failure => some failure
  | .untouched | .planned _ => none

/-- The path that a rename leaves a record. -/
def Renaming.executionPath (move : Renaming) (path : String) : String :=
  if path = move.source then move.destination else path

variable (library : MutationLibrary)

/-- The text of a record with its links rewritten. -/
def rewrittenDocument (path : String) (document : Text) (layout : DocumentLayout)
    (frontmatter : FrontmatterRewrite) (body : BodyRewrite) : Option Text :=
  if frontmatter.changed then
    serializeRecord library.yaml (library.recordFormat path) layout.hadBom frontmatter.mapping
      body.body
  else if layout.hasFrontmatter then
    some (document.take (document.length - layout.body.length) ++ body.body)
  else serializeDocumentWithBom library.yaml layout.hadBom [] body.body

/-- The frontmatter of a record with its links rewritten, if it is a mapping. -/
def rewriteFrontmatter (snapshot : List SnapshotEntry) (move : Renaming) (path : String)
    (types : List String) (layout : DocumentLayout) : Except MdbaseError FrontmatterRewrite :=
  match layout.frontmatter with
  | some (.mapping mapping) => library.updateFmLinks snapshot move path types mapping
  | _ => .ok ⟨[], false, [], []⟩

/-- The update that a rewritten body is reported as. -/
def bodyUpdate (path : String) : Value :=
  .object [("location", .string "body"), ("path", .string path)]

/-- One record in `plan_reference_rewrites`, with its warnings. -/
def planReferenceRewrite (snapshot : List SnapshotEntry) (move : Renaming)
    (entry : SnapshotEntry) : Except MdbaseError (List Diagnostic × ReferenceStep) :=
  match entry.outcome.document, entry.outcome.layout with
  | some document, some layout => do
      let path := move.executionPath entry.path
      let frontmatter ← rewriteFrontmatter library snapshot move path entry.types layout
      let body ← library.updateBodyLinks snapshot move path layout.body
      if !frontmatter.changed && !body.changed then .ok (frontmatter.warnings, .untouched)
      else
        match rewrittenDocument library path document layout frontmatter body with
        | some output =>
          .ok (frontmatter.warnings,
            .planned
              { executionPath := path
                expectedRevision := entry.revision
                output := output
                updates := frontmatter.updates ++
                  if body.changed then [bodyUpdate path] else [] })
        | none =>
          .ok (frontmatter.warnings,
            .failed ⟨path, "frontmatter_serialization_failed",
              some (library.emitterError frontmatter.mapping)⟩)
  | _, _ => .ok ([], .untouched)

/-- `plan_reference_rewrites`. -/
def planReferenceRewrites (snapshot : List SnapshotEntry) (move : Renaming) :
    Except MdbaseError (List (List Diagnostic × ReferenceStep)) :=
  snapshot.mapM (planReferenceRewrite library snapshot move)

/-- The state of `execute_reference_rewrites`. -/
structure RewriteRun where
  files : Files
  updated : List Value
  failures : List ReferenceFailure

/-- One plan in `execute_reference_rewrites`. -/
def executeReferenceRewrite (run : RewriteRun) (plan : ReferenceRewritePlan) : RewriteRun :=
  match loadRecord library run.files plan.executionPath with
  | .error _ =>
    { run with
      failures := run.failures ++
        [⟨plan.executionPath, "io_error", some "Reference record is no longer available"⟩] }
  | .ok current =>
    if current.revision ≠ plan.expectedRevision then
      { run with
        failures := run.failures ++ [⟨plan.executionPath, "concurrent_modification", none⟩] }
    else
      { run with
        files := run.files.insert ⟨plan.executionPath, .text plan.output⟩
        updated := run.updated ++ plan.updates }

/-- `execute_reference_rewrites`. -/
def executeReferenceRewrites (run : RewriteRun) (plans : List ReferenceRewritePlan) :
    RewriteRun :=
  plans.foldl (executeReferenceRewrite library) run

/-- `PreparedRename`. -/
structure PreparedRename where
  request : RenameRequest
  entry : SnapshotEntry
  document : Text
  plans : List ReferenceRewritePlan
  warnings : List Diagnostic
  failures : List ReferenceFailure

/-- The id of a record. -/
def recordId (entry : SnapshotEntry) : Option String :=
  (entry.outcome.raw.bind (·.get library.idField)).bind Value.asStr

/-- The rename that a request asks for. -/
def renamingOf (request : RenameRequest) (entry : SnapshotEntry) : Renaming where
  source := request.source
  destination := request.destination
  sourceId := recordId library entry

/-- The reference rewrites of a rename. -/
def referenceSteps (files : Files) (request : RenameRequest) (entry : SnapshotEntry) :
    Except MdbaseError (List (List Diagnostic × ReferenceStep)) :=
  if request.updateRefs then
    planReferenceRewrites library (captureSnapshot library files) (renamingOf library request entry)
  else .ok []

/-- `prepare_rename`. -/
def prepareRename (files : Files) (request : RenameRequest) :
    Except MdbaseError PreparedRename := do
  checkRecordPath library files request.source
  checkRecordPath library files request.destination
  let entry ← loadRecord library files request.source
  if files.occupied request.destination then
    .error (failure "path_conflict" ("Target already exists: " ++ request.destination)
      (some request.destination))
  else if revisionConflicts request.ifRevision entry.revision then
    .error (failure "concurrent_modification"
      ("File '" ++ request.source ++ "' no longer matches the requested revision")
      (some request.source))
  else
    match entry.outcome.document with
    | none =>
      .error (failure "invalid_frontmatter" "Invalid frontmatter: invalid_utf8"
        (some request.source))
    | some document => do
        let steps ← referenceSteps library files request entry
        .ok
          { request := request
            entry := entry
            document := document
            plans := steps.filterMap (·.2.plan?)
            warnings := steps.flatMap (·.1)
            failures := steps.filterMap (·.2.failure?) }

/-- `PlannedRename`. -/
structure PlannedRename where
  source : String
  destination : PlannedRecord
  referencesAffected : List Value
  referencesUpdated : List Value
  warnings : List Diagnostic
  failures : List ReferenceFailure
  dryRun : Bool
  deriving DecidableEq

/-- The text that a rename stores at its destination, if that is rewritten too. -/
def PreparedRename.destinationDocument (prepared : PreparedRename) : Text :=
  ((prepared.plans.find? fun plan =>
    plan.executionPath = prepared.request.destination).map (·.output)).getD prepared.document

/-- The record at the destination, with a text. -/
def PreparedRename.record (prepared : PreparedRename) (document : Text) : PlannedRecord where
  path := prepared.request.destination
  types := prepared.entry.types
  frontmatter := prepared.entry.outcome.raw.getD (.object [])
  effective := prepared.entry.outcome.effective.getD (.object [])
  body := (Mdbase.Frontmatter.parseDocumentLayout library.yaml document).body
  content := .text document
  beforeRevision := some prepared.entry.revision
  includeDocument := prepared.request.includeDocument

/-- The files after the move itself. -/
def movedFiles (files : Files) (request : RenameRequest) (content : Content) : Files :=
  (files.erase request.source).insert ⟨request.destination, content⟩

/-- `rename_planned`. -/
def renamePlanned (files : Files) (prepared : PreparedRename) (dryRun : Bool) :
    Except MdbaseError PlannedRename × Files :=
  let request := prepared.request
  let affected := prepared.plans.flatMap (·.updates)
  if dryRun then
    (.ok
      { source := request.source
        destination := prepared.record library prepared.destinationDocument
        referencesAffected := affected
        referencesUpdated := []
        warnings := prepared.warnings
        failures := prepared.failures
        dryRun := true }, files)
  else
    match files.get? request.source with
    | none => (.error (failure "file_not_found" ("File not found: " ++ request.source)), files)
    | some current =>
      if library.revision current.content ≠ prepared.entry.revision ∨
          revisionConflicts request.ifRevision (library.revision current.content) then
        (.error (failure "concurrent_modification"
          ("File '" ++ request.source ++ "' was modified externally")), files)
      else if files.occupied request.destination then
        (.error (failure "path_conflict" ("Target already exists: " ++ request.destination)), files)
      else
        let moved : RewriteRun := ⟨movedFiles files request current.content, [], []⟩
        let run :=
          if request.updateRefs then executeReferenceRewrites library moved prepared.plans
          else moved
        let failures := prepared.failures ++ run.failures
        let document :=
          if failures.any fun failure => failure.path = request.destination then
            prepared.document
          else prepared.destinationDocument
        (.ok
          { source := request.source
            destination := prepared.record library document
            referencesAffected := affected
            referencesUpdated := run.updated
            warnings := prepared.warnings
            failures := failures
            dryRun := false }, run.files)

/-- `staged_rename`. -/
def stagedRename (files : Files) (request : RenameRequest) (dryRun : Bool) :
    Except MdbaseError PlannedRename × Files :=
  match prepareRename library files request with
  | .error error => (.error error, files)
  | .ok prepared => renamePlanned library files prepared dryRun

end Mdbase.Mutation
