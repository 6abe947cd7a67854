import Mdbase.Mutation.Moves

/-!
# Errors of mutations

A caller reads an error as a mutation that did not happen. Creates, updates, deletes and
batches report every failure before they commit. A rename is committed before it looks at
the references that could not be rewritten, and then reports them as an error; a batch and
the runtime look at them first and refuse the rename.
-/

namespace Mdbase.Mutation

open Library
open Mdbase.Frontmatter (serializeDocumentWithBom serializeInner serializeRecord)
open Mdbase.Query (Diagnostic)

variable {library : MutationLibrary} {files : Files}

/-- A typed mutation. -/
inductive TypedMutation where
  | create (request : CreateRequest)
  | update (request : UpdateRequest)
  | delete (request : DeleteRequest)
  | rename (request : RenameRequest)
  | batch (operations : List BatchOperation) (dryRun : Bool)

/-- The error of a call. -/
def errorOf {α : Type} : Except MdbaseError α → Option MdbaseError
  | .error error => some error
  | .ok _ => none

/-- The error of a mutation, and the files that it leaves. -/
def TypedMutation.run (library : MutationLibrary) (files : Files) :
    TypedMutation → Option MdbaseError × Files
  | .create request => (Mutation.create library files request).map errorOf id
  | .update request => (Mutation.update library files request).map errorOf id
  | .delete request => (Mutation.delete library files request).map errorOf id
  | .rename request => (Mutation.rename library files request).map errorOf id
  | .batch operations dryRun => (Mutation.batch library files operations dryRun).map errorOf id

/-- An error means that no file changed. -/
def TypedMutation.ErrorLeavesFiles (library : MutationLibrary) (files : Files)
    (mutation : TypedMutation) : Prop :=
  (mutation.run library files).1 ≠ none → (mutation.run library files).2 = files

/-- A single rename, a rename in a batch and a rename of the runtime leave the same files. -/
def MovesAlike (library : MutationLibrary) (files : Files) (request : RenameRequest) : Prop :=
  (batch library files [.rename request] false).2 = (rename library files request).2 ∧
    (runtimeRename library files request).2 = (rename library files request).2

/-- A mutation reports what it did. -/
def TypedMutation.Honest (library : MutationLibrary) (files : Files) (mutation : TypedMutation) :
    Prop :=
  mutation.ErrorLeavesFiles library files ∧
    ∀ request, mutation = .rename request → MovesAlike library files request

/-- The links of a record are rewritten in frontmatter that the emitter then rejects. -/
def IsUnwritable (library : MutationLibrary) (snapshot : List SnapshotEntry) (move : Renaming)
    (entry : SnapshotEntry) : Prop :=
  ∃ document layout frontmatter body,
    entry.outcome.document = some document ∧ entry.outcome.layout = some layout ∧
      rewriteFrontmatter library snapshot move (move.executionPath entry.path) entry.types
          layout = .ok frontmatter ∧
        library.updateBodyLinks snapshot move (move.executionPath entry.path) layout.body =
            .ok body ∧
          frontmatter.changed = true ∧
            serializeRecord library.yaml (library.recordFormat (move.executionPath entry.path))
              layout.hadBom frontmatter.mapping body.body = none

/-- The checks of a rename other than that its references can be written: it can be prepared,
its record can be read at the destination, and that is outside nested collections. -/
def PassesChecks (library : MutationLibrary) (files : Files) (request : RenameRequest)
    (prepared : PreparedRename) : Prop :=
  prepareRename library (shadowFiles library files) request = .ok prepared ∧
    (∃ document,
      projectRecord library
        (movedFiles (shadowFiles library files) request (.text prepared.document))
        (prepared.record library prepared.settledDocument) = .ok document) ∧
      files.isNested request.destination = false

/-- A rename that passes its checks would rewrite a reference that cannot be written. -/
def StrandsReferences (library : MutationLibrary) (files : Files) (request : RenameRequest) :
    Prop :=
  ∃ prepared, PassesChecks library files request prepared ∧ request.updateRefs = true ∧
    ∃ entry ∈ captureSnapshot library (shadowFiles library files),
      IsUnwritable library (captureSnapshot library (shadowFiles library files))
        (renamingOf library request prepared.entry) entry

variable {layout : Mdbase.Frontmatter.DocumentLayout} {frontmatter : FrontmatterRewrite}

theorem rewrittenDocument_eq_none {path : String} {document : Text} {body : BodyRewrite} :
    rewrittenDocument library path document layout frontmatter body = none ↔
      frontmatter.changed = true ∧
        serializeRecord library.yaml (library.recordFormat path) layout.hadBom
          frontmatter.mapping body.body = none := by
  unfold rewrittenDocument
  cases frontmatter.changed with
  | true => simp
  | false =>
    cases layout.hasFrontmatter with
    | true => simp
    | false => simp [serializeDocumentWithBom, serializeInner]

variable {snapshot : List SnapshotEntry}

theorem isUnwritable_iff {move : Renaming} {entry : SnapshotEntry} {document : Text}
    {body : BodyRewrite}
    (documentIs : entry.outcome.document = some document)
    (layoutIs : entry.outcome.layout = some layout)
    (frontmatterIs : rewriteFrontmatter library snapshot move (move.executionPath entry.path)
      entry.types layout = .ok frontmatter)
    (bodyIs : library.updateBodyLinks snapshot move (move.executionPath entry.path) layout.body =
      .ok body) :
    IsUnwritable library snapshot move entry ↔
      rewrittenDocument library (move.executionPath entry.path) document layout frontmatter body =
        none := by
  rw [rewrittenDocument_eq_none]
  constructor
  · rintro ⟨otherDocument, otherLayout, otherFrontmatter, otherBody, -, sameLayout,
      sameFrontmatter, sameBody, rejected⟩
    obtain rfl := Option.some.inj (layoutIs.symm.trans sameLayout)
    obtain rfl := Except.ok.inj (frontmatterIs.symm.trans sameFrontmatter)
    obtain rfl := Except.ok.inj (bodyIs.symm.trans sameBody)
    exact rejected
  · intro rejected
    exact ⟨document, layout, frontmatter, body, documentIs, layoutIs, frontmatterIs, bodyIs,
      rejected⟩

theorem failure_planReferenceRewrite {move : Renaming}
    {entry : SnapshotEntry} {step : List Diagnostic × ReferenceStep}
    (planned : planReferenceRewrite library snapshot move entry = .ok step) :
    step.2.failure? ≠ none ↔ IsUnwritable library snapshot move entry := by
  unfold planReferenceRewrite at planned
  split at planned
  next document layout documentIs layoutIs =>
    simp only [bind, Except.bind] at planned
    split at planned
    next => cases planned
    rename_i frontmatter frontmatterIs
    split at planned
    next => cases planned
    rename_i body bodyIs
    rw [isUnwritable_iff documentIs layoutIs frontmatterIs bodyIs]
    split at planned
    next untouched =>
      obtain rfl := Except.ok.inj planned
      rw [Bool.and_eq_true, Bool.not_eq_true'] at untouched
      rw [rewrittenDocument_eq_none, untouched.1]
      simp [ReferenceStep.failure?]
    split at planned
    next output here =>
      obtain rfl := Except.ok.inj planned
      simp [ReferenceStep.failure?, here]
    next here =>
      obtain rfl := Except.ok.inj planned
      simp [ReferenceStep.failure?, here]
  rename_i absent
  obtain rfl := Except.ok.inj planned
  have readable : ¬IsUnwritable library snapshot move entry := by
    rintro ⟨document, layout, _, _, documentIs, layoutIs, -⟩
    exact absent document layout documentIs layoutIs
  simp [ReferenceStep.failure?, readable]

variable {request : RenameRequest}

theorem PreparedRename.Fits.failures_iff {prepared : PreparedRename}
    (fits : prepared.Fits library files request) :
    prepared.failures ≠ [] ↔ request.updateRefs = true ∧
      ∃ entry ∈ captureSnapshot library files,
        IsUnwritable library (captureSnapshot library files)
          (renamingOf library request prepared.entry) entry := by
  obtain ⟨steps, stepsOk, -, -, failuresEq⟩ := fits.steps
  rw [failuresEq, Ne, List.filterMap_eq_nil_iff, not_forall]
  unfold referenceSteps at stepsOk
  cases updates : request.updateRefs with
  | false =>
    rw [updates] at stepsOk
    obtain rfl := Except.ok.inj stepsOk
    simp
  | true =>
    rw [updates, if_pos rfl] at stepsOk
    simp only [true_and]
    constructor
    · rintro ⟨step, failed⟩
      obtain ⟨member, failed⟩ := Classical.not_imp.mp failed
      obtain ⟨entry, entryMember, planned⟩ := exists_item_of_mapM_ok stepsOk member
      exact ⟨entry, entryMember, (failure_planReferenceRewrite planned).mp failed⟩
    · rintro ⟨entry, entryMember, rejected⟩
      obtain ⟨step, member, planned⟩ := exists_image_of_mapM_ok stepsOk entryMember
      exact ⟨step, fun none =>
        (failure_planReferenceRewrite planned).mpr rejected (none member)⟩

variable {error : MdbaseError}

theorem commitWith_error {α : Type} {shadow : Files} {value : α}
    (refused : (commitWith library files shadow value).1 = .error error) :
    (commitWith library files shadow value).2 = files := by
  unfold commitWith at refused ⊢
  split at refused
  next => cases refused
  next => rfl

theorem executeShadow_error {operation : Files → Except MdbaseError PlannedRecord × Files}
    {error : MdbaseError} (refused : (executeShadow library files operation).1 = .error error) :
    (executeShadow library files operation).2 = files := by
  unfold executeShadow at refused ⊢
  split at refused
  next profile => rw [if_pos profile]
  rename_i profile
  rw [if_neg profile]
  split at refused
  next => rfl
  split at refused
  next => rfl
  next => exact commitWith_error refused

theorem update_error {request : UpdateRequest}
    (refused : (update library files request).1 = .error error) :
    (update library files request).2 = files := by
  unfold update at refused ⊢
  split at refused
  next => rfl
  next => exact executeShadow_error refused

theorem delete_error {request : DeleteRequest}
    (refused : (delete library files request).1 = .error error) :
    (delete library files request).2 = files := by
  unfold delete at refused ⊢
  split at refused
  next profile => rw [if_pos profile]
  rename_i profile
  rw [if_neg profile]
  split at refused
  next => rfl
  next => exact commitWith_error refused

theorem executeAtomic_refused {operations : List BatchOperation} {dryRun : Bool}
    (refused : ∀ execution, (executeAtomic library files operations dryRun).1 = .ok execution →
        execution.failed ≠ 0) :
    (executeAtomic library files operations dryRun).2 = files := by
  unfold executeAtomic at refused ⊢
  dsimp only at refused ⊢
  split at refused
  next early => rw [if_pos early]
  rename_i early
  rw [if_neg early]
  split at refused
  next rejected => rw [if_pos rejected]
  rename_i rejected
  rw [if_neg rejected]
  unfold commitWith at refused ⊢
  split at refused
  next => exact absurd (refused _ rfl) rejected
  next => rfl

theorem batch_error {operations : List BatchOperation} {dryRun : Bool}
    (refused : (batch library files operations dryRun).1 = .error error) :
    (batch library files operations dryRun).2 = files := by
  unfold batch at refused ⊢
  split at refused
  next profile => rw [if_pos profile]
  rename_i profile
  rw [if_neg profile]
  split at refused
  next => rfl
  split at refused
  next failed after same =>
    have unchanged := @executeAtomic_refused library files operations dryRun
      (fun execution done => by rw [same] at done; cases done)
    rwa [same] at unchanged
  rename_i execution after same
  split at refused
  next failed =>
    rw [if_pos failed]
    have unchanged := @executeAtomic_refused library files operations dryRun
      (fun other done => by rw [same] at done; exact Except.ok.inj done ▸ failed)
    rwa [same] at unchanged
  next => cases refused

theorem executeAtomic_single (operation : BatchOperation) :
    executeAtomic library files [operation] false =
      let outcome := evaluateItem library false (shadowFiles library files) operation
      let item := itemResult 0 operation outcome.1
      let checked := rejectUnresolvedLinks library outcome.2 (aggregate [item] true false)
      if item.valid = false then (.ok (aggregate [item] true false), files)
      else if checked.failed ≠ 0 then (.ok checked, files)
      else commitWith library files outcome.2 { checked with preflight := false } := by
  unfold executeAtomic
  simp only [executeItems]
  by_cases valid : (itemResult 0 operation
      (evaluateItem library false (shadowFiles library files) operation).1).valid = true
  · simp [valid, aggregate, BatchExecution.failed]
  · simp [valid, aggregate, BatchExecution.failed]

theorem batch_single (canonical : library.specProfile = .v03) {operation : BatchOperation}
    (accepted : validateRequest [operation] = .ok ()) :
    (batch library files [operation] false).2 =
      (executeAtomic library files [operation] false).2 := by
  unfold batch
  rw [if_neg (not_not.mpr canonical), accepted]
  dsimp only
  split
  next same => rw [same]
  rename_i same
  rw [same]
  split
  next => rfl
  next => rfl

theorem hasError_append (warnings : List Diagnostic) (failures : List Diagnostic)
    (errors : ∀ item ∈ failures, item.severity = "error") :
    hasError (warnings.map asWarning ++ failures) = true ↔ failures ≠ [] := by
  simp only [hasError, List.any_append, List.any_map, Bool.or_eq_true, List.any_eq_true,
    Function.comp_apply, asWarning, decide_eq_true_eq, String.reduceEq, and_false, exists_false,
    false_or]
  constructor
  · rintro ⟨item, member, -⟩
    exact List.ne_nil_of_mem member
  · intro nonempty
    obtain ⟨item, member⟩ := List.exists_mem_of_ne_nil failures nonempty
    exact ⟨item, member, errors item member⟩

theorem hasError_renameDiagnostics (planned : PlannedRename) :
    hasError (renameDiagnostics planned) = true ↔ planned.failures ≠ [] := by
  rw [renameDiagnostics, hasError_append]
  · simp
  · simp [failureDiagnostic, errorDiagnostic]

theorem hasError_batchRenameDiagnostics (planned : PlannedRename) :
    hasError (batchRenameDiagnostics planned) = true ↔ planned.failures ≠ [] := by
  rw [batchRenameDiagnostics, hasError_append]
  · simp
  · simp [failureDiagnostic, errorDiagnostic]

theorem Files.isNested_congr {left right : Files}
    (keys : ∀ path, (left.get? path).isSome = (right.get? path).isSome) (path : String) :
    left.isNested path = right.isNested path := by
  simp only [Files.isNested, keys]

theorem projectRecord_congr {left right : Files} {planned : PlannedRecord}
    (same : left.isNested planned.path = right.isNested planned.path) :
    projectRecord library left planned = projectRecord library right planned := by
  unfold projectRecord evaluateTypedRead isRecordPath
  rw [same]

theorem validateRequest_rename (apart : request.source ≠ request.destination) :
    validateRequest [.rename request] = .ok () := by
  simp [validateRequest, BatchOperation.paths, apart]

variable {request : RenameRequest} {prepared : PreparedRename} {planned : PlannedRename}
  {after : Files}

theorem PreparedRename.Moves.removed {before : Files} (fits : prepared.Fits library before request)
    (moves : prepared.Moves library before planned after) :
    after.contentAt request.source = none := by
  have keys := moves.keys request.source
  rw [fits.asked, movedFiles, Table.get?_insert, if_neg fits.ne, Table.get?_erase, if_pos rfl,
    Option.isSome_none] at keys
  rw [Files.contentAt_eq_none]
  simpa using keys

theorem PreparedRename.Moves.commit_iff
    (fits : prepared.Fits library (shadowFiles library files) request)
    (moves : prepared.Moves library (shadowFiles library files) planned after)
    (advances : Advances library (shadowFiles library files) after) :
    (∃ committed, commitShadow library files (collectFiles library files)
        (collectFiles library after) = .ok committed) ↔
      files.isNested request.destination = false := by
  rw [advances.commit_iff]
  constructor
  · intro outside
    refine outside request.destination fun same => ?_
    rw [Files.contentAt_eq_none.mpr (get?_of_not_occupied fits.free),
      Files.contentAt_eq_none] at same
    have present := moves.keys request.destination
    rw [same, fits.asked, movedFiles, Table.get?_insert, if_pos rfl] at present
    cases present
  · intro outside path changed
    by_cases present : ((shadowFiles library files).get? path).isSome
    · exact (get?_shadowFiles present).2
    · by_cases stored : (after.get? path).isSome
      · rcases moves.of_present stored with old | rfl
        · exact absurd old present
        · rw [fits.asked]
          exact outside
      · refine absurd ?_ changed
        rw [Option.not_isSome_iff_eq_none] at present stored
        rw [Files.contentAt_eq_none.mpr present, Files.contentAt_eq_none.mpr stored]

/-- What the three renames leave. -/
inductive RenameOutcome (library : MutationLibrary) (files : Files) (request : RenameRequest) :
    Prop where
  | refused (fails : ∀ prepared, ¬PassesChecks library files request prepared)
      (single : (rename library files request).2 = files)
      (inBatch : (batch library files [.rename request] false).2 = files)
      (inRuntime : (runtimeRename library files request).2 = files)
  | committed (prepared : PreparedRename) (after : Files)
      (passes : PassesChecks library files request prepared)
      (fits : prepared.Fits library (shadowFiles library files) request)
      (moved : after ≠ files)
      (single : (rename library files request).2 = after)
      (reported : errorOf (rename library files request).1 ≠ none ↔ prepared.failures ≠ [])
      (inBatch : (batch library files [.rename request] false).2 =
        if prepared.failures = [] then after else files)
      (inRuntime : (runtimeRename library files request).2 =
        if prepared.failures = [] then after else files)

theorem batch_rename_refused (canonical : library.specProfile = .v03)
    (invalid : ∀ result diagnostics,
      (evaluateItem library false (shadowFiles library files) (.rename request)).1 ≠
        .ok (true, result, diagnostics)) :
    (batch library files [.rename request] false).2 = files := by
  cases accepted : validateRequest [.rename request] with
  | error error =>
    unfold batch
    rw [if_neg (not_not.mpr canonical), accepted]
  | ok value =>
    rw [batch_single canonical accepted, executeAtomic_single]
    dsimp only
    rw [if_pos]
    rw [← Bool.not_eq_true, valid_itemResult]
    rintro ⟨result, diagnostics, done⟩
    exact invalid result diagnostics done

theorem batch_rename_valid (canonical : library.specProfile = .v03)
    (apart : request.source ≠ request.destination) {result : RenameResult}
    {failed : List ReferenceFailure} {diagnostics : List Diagnostic}
    (valid : (evaluateItem library false (shadowFiles library files) (.rename request)).1 =
      .ok (true, .rename result failed, diagnostics)) :
    (batch library files [.rename request] false).2 =
      (commitWith library files
        (evaluateItem library false (shadowFiles library files) (.rename request)).2 ()).2 := by
  rw [batch_single canonical (validateRequest_rename apart), executeAtomic_single]
  dsimp only
  rw [valid]
  have checked : (rejectUnresolvedLinks library
      (evaluateItem library false (shadowFiles library files) (.rename request)).2
      (aggregate [itemResult 0 (.rename request)
        (.ok (true, .rename result failed, diagnostics))] true false)).failed = 0 := by
    unfold rejectUnresolvedLinks
    split
    next => simp [aggregate, BatchExecution.failed, itemResult]
    next => simp [aggregate, BatchExecution.failed, itemResult, withLinkIssues]
  rw [if_neg (by simp [itemResult]), if_neg (not_not.mpr checked)]
  unfold commitWith
  split
  next => rfl
  next => rfl

/-- A rename is refused and changes nothing, or it commits what was prepared; a batch takes it back
if a rewrite failed. -/
theorem rename_outcome (canonical : library.specProfile = .v03) (request : RenameRequest) :
    RenameOutcome library files request := by
  have profile : ¬library.specProfile ≠ .v03 := not_not.mpr canonical
  cases prepares : prepareRename library (shadowFiles library files) request with
  | error error =>
    refine .refused ?_ ?_ (batch_rename_refused canonical ?_) ?_
    · rintro prepared ⟨done, -⟩
      rw [prepares] at done
      cases done
    · rw [rename, executeRenameShadow, if_neg profile, stagedRename_error prepares]
    · intro result diagnostics done
      simp [evaluateItem, evaluated, stagedRename_error prepares, bind, Except.bind] at done
    · rw [runtimeRename, stagedRename_error prepares]
  | ok prepared =>
    have fits := prepareRename_ok prepares
    obtain ⟨planned, after, executed, moves⟩ := fits.moves
    have staged : stagedRename library (shadowFiles library files) request false =
        (.ok planned, after) := by
      rw [stagedRename_ok prepares, executed]
    have projects : projectRecord library after planned.destination =
        projectRecord library
          (movedFiles (shadowFiles library files) request (.text prepared.document))
          (prepared.record library prepared.settledDocument) := by
      rw [moves.destination, ← fits.asked]
      exact projectRecord_congr (Files.isNested_congr moves.keys _)
    cases projected : projectRecord library after planned.destination with
    | error error =>
      refine .refused ?_ ?_ (batch_rename_refused canonical ?_) ?_
      · rintro other ⟨done, ⟨document, reads⟩, -⟩
        obtain rfl := Except.ok.inj (prepares.symm.trans done)
        rw [← projects, projected] at reads
        cases reads
      · rw [rename, executeRenameShadow, if_neg profile, staged]
        dsimp only
        rw [projected]
      · intro result diagnostics done
        simp [evaluateItem, evaluated, staged, bind, Except.bind, renameResult, moves.dryRun,
          projected, Except.map] at done
      · rw [runtimeRename, staged]
        simp [renameResult, moves.dryRun, projected, Except.map]
    | ok document =>
      have advances := (Advances.start files).moves moves projected
      have single : executeRenameShadow library files request =
          commitWith library files after (planned, document) := by
        rw [executeRenameShadow, if_neg profile, staged]
        dsimp only
        rw [projected]
      have item : evaluateItem library false (shadowFiles library files) (.rename request) =
          (.ok (!hasError (batchRenameDiagnostics planned),
            .rename (planned.result document) planned.failures,
            batchRenameDiagnostics planned), after) := by
        simp [evaluateItem, evaluated, staged, bind, Except.bind, renameResult, moves.dryRun,
          projected, Except.map]
      have changed : (collectFiles library after).entries ≠
          (collectFiles library files).entries := by
        intro same
        have differs := (advances.mem_changedPaths request.source).mpr (by
          rw [moves.removed fits, Files.contentAt, fits.stored]
          simp)
        rw [mem_changedPaths] at differs
        refine differs ?_
        rw [Files.contentAt, Files.contentAt, Table.get?, Table.get?, same]
      have inRuntime : (runtimeRename library files request).2 =
          if hasError (batchRenameDiagnostics planned) then files
          else (commitWith library files after ()).2 := by
        rw [runtimeRename, staged]
        simp only [renameResult, moves.dryRun, projected, Except.map]
        cases failed : hasError (batchRenameDiagnostics planned) with
        | true => simp
        | false =>
          simp only [Bool.not_false, Bool.false_eq_true, if_false, if_neg changed]
          unfold commitWith
          cases commitShadow library files (collectFiles library files)
              (collectFiles library after) with
          | error error => rfl
          | ok committed => rfl
      have failedIff : hasError (batchRenameDiagnostics planned) = true ↔
          prepared.failures ≠ [] := by
        rw [hasError_batchRenameDiagnostics, moves.failures]
      have inBatch : (batch library files [.rename request] false).2 =
          if hasError (batchRenameDiagnostics planned) then files
          else (commitWith library files after ()).2 := by
        cases failed : hasError (batchRenameDiagnostics planned) with
        | true =>
          rw [if_pos rfl]
          refine batch_rename_refused canonical fun result diagnostics done => ?_
          rw [item, failed] at done
          cases done
        | false =>
          rw [if_neg Bool.false_ne_true, batch_rename_valid canonical fits.ne
            (by rw [item, failed]; rfl), item]
      cases done : commitShadow library files (collectFiles library files)
          (collectFiles library after) with
      | error error =>
        have refusedCommit : ¬files.isNested request.destination = false := by
          rw [← moves.commit_iff fits advances, done]
          rintro ⟨committed, impossible⟩
          cases impossible
        have unchanged : (commitWith library files after ()).2 = files := by
          rw [commitWith, done]
        refine .refused ?_ ?_ ?_ ?_
        · rintro other ⟨-, -, outside⟩
          exact refusedCommit outside
        · rw [rename, single, commitWith, done]
        · rw [inBatch, unchanged, ite_self]
        · rw [inRuntime, unchanged, ite_self]
      | ok committed =>
        have outside := (moves.commit_iff fits advances).mp ⟨committed, done⟩
        have value : (commitWith library files after ()).2 = committed := by
          rw [commitWith, done]
        have conditional :
            (if hasError (batchRenameDiagnostics planned) then files else committed) =
              if prepared.failures = [] then committed else files := by
          by_cases failed : prepared.failures = []
          · rw [if_pos failed, if_neg (mt failedIff.mp (not_not.mpr failed))]
          · rw [if_neg failed, if_pos (failedIff.mpr failed)]
        refine .committed prepared committed
          ⟨prepares, ⟨document, projects ▸ projected⟩, outside⟩ fits ?_ ?_ ?_ ?_ ?_
        · rintro rfl
          have content := advances.contentAt_commit done request.source
          have stored := Option.isSome_of_eq_some fits.stored
          rw [moves.removed fits, if_pos (by rw [Files.contentAt, fits.stored]; simp),
            Files.contentAt_eq_none] at content
          have present := (get?_shadowFiles stored).1
          rw [content] at present
          cases present
        · rw [rename, single, commitWith, done]
          dsimp only
          split
          next => rfl
          next => rfl
        · rw [rename, single, commitWith, done]
          dsimp only
          rw [← moves.failures, ← hasError_renameDiagnostics]
          cases hasError (renameDiagnostics planned) with
          | true | false => simp [errorOf]
        · rw [inBatch, value, conditional]
        · rw [inRuntime, value, conditional]

/-- A mutation reports what it did unless it is a rename that strands references. -/
theorem honest_iff (library : MutationLibrary) (canonical : library.specProfile = .v03)
    (files : Files) (mutation : TypedMutation) :
    mutation.Honest library files ↔
      ∀ request, mutation = .rename request → ¬StrandsReferences library files request := by
  have others (apart : ∀ request, mutation ≠ .rename request)
      (unchanged : mutation.ErrorLeavesFiles library files) :
      mutation.Honest library files ↔
        ∀ request, mutation = .rename request → ¬StrandsReferences library files request :=
    ⟨fun _ request same => absurd same (apart request),
      fun _ => ⟨unchanged, fun request same => absurd same (apart request)⟩⟩
  have reported {α : Type} {result : Except MdbaseError α} (refused : errorOf result ≠ none) :
      ∃ error, result = .error error := by
    cases result with
    | error error => exact ⟨error, rfl⟩
    | ok value => exact absurd rfl refused
  cases mutation with
  | create request =>
    refine others (fun _ => by simp) fun refused => ?_
    obtain ⟨error, refused⟩ := reported refused
    exact @executeShadow_error library files
      (fun shadow => stagedCreate library shadow request) error refused
  | update request =>
    refine others (fun _ => by simp) fun refused => ?_
    obtain ⟨error, refused⟩ := reported refused
    exact update_error refused
  | delete request =>
    refine others (fun _ => by simp) fun refused => ?_
    obtain ⟨error, refused⟩ := reported refused
    exact delete_error refused
  | batch operations dryRun =>
    refine others (fun _ => by simp) fun refused => ?_
    obtain ⟨error, refused⟩ := reported refused
    exact batch_error refused
  | rename request =>
    have strands {prepared : PreparedRename}
        (fits : prepared.Fits library (shadowFiles library files) request)
        (passes : PassesChecks library files request prepared) :
        StrandsReferences library files request ↔ prepared.failures ≠ [] := by
      rw [fits.failures_iff]
      constructor
      · rintro ⟨other, otherPasses, stranded⟩
        obtain rfl := Except.ok.inj (passes.1.symm.trans otherPasses.1)
        exact stranded
      · exact fun stranded => ⟨prepared, passes, stranded⟩
    have statement : (TypedMutation.rename request).Honest library files ↔
        (errorOf (rename library files request).1 ≠ none →
          (rename library files request).2 = files) ∧ MovesAlike library files request :=
      ⟨fun honest => ⟨honest.1, honest.2 request rfl⟩,
        fun honest => ⟨honest.1, fun other same => TypedMutation.rename.inj same ▸ honest.2⟩⟩
    rw [statement]
    simp only [TypedMutation.rename.injEq, forall_eq']
    rcases @rename_outcome library files canonical request with
      ⟨fails, single, inBatch, inRuntime⟩ |
      ⟨prepared, after, passes, fits, moved, single, errorIff, inBatch, inRuntime⟩
    · refine ⟨fun _ => ?_, fun _ => ⟨fun _ => single, ?_, ?_⟩⟩
      · rintro ⟨prepared, passes, -⟩
        exact fails prepared passes
      · rw [inBatch, single]
      · rw [inRuntime, single]
    · rw [strands fits passes, not_not, MovesAlike, single, errorIff, inBatch, inRuntime]
      constructor
      · rintro ⟨unchanged, -⟩
        by_contra failed
        exact moved (unchanged failed)
      · intro none
        exact ⟨fun failed => absurd none failed, if_pos none, if_pos none⟩

/-- Frontmatter with a tagged mapping as a key. -/
def taggedKeySource : String :=
  "holder:\n  ? !key\n    nested: key\n  : !value\n    nested: '[[target]]'\n"

/-- The mapping in `taggedKeySource`, with a link to a target. -/
def taggedKeyMapping (target : String) : Mdbase.Frontmatter.Mapping :=
  [(.string "holder",
    .mapping
      [(.tagged "!key" (.mapping [(.string "nested", .string "key")]),
        .tagged "!value" (.mapping [(.string "nested", .string target)]))])]

/-- A library that reads `taggedKeySource` and cannot write it. -/
def taggedKeyLibrary : MutationLibrary where
  specProfile := .v03
  defaultValidation := "warn"
  idField := "id"
  definitions := []
  uniqueness := ⟨id, fun _ _ => none, fun _ => "", fun _ _ => false⟩
  yaml :=
    { fromStr := fun source =>
        if source = taggedKeySource.toList then some (.mapping (taggedKeyMapping "[[target]]"))
        else none
      toString := fun _ => none }
  emitterError := fun _ => "serializing nested enums in YAML is not supported yet"
  revision := fun _ => "sha256:0"
  isRecordName := fun path => ['.', 'm', 'd'].isSuffixOf path.toList
  isResource := fun path => path = "mdbase.yaml"
  isOrdinaryName := fun _ => false
  recordFormat := fun _ => .markdown
  toJson := fun _ => .object []
  typesOf := fun _ _ => []
  typesByPath := fun _ => []
  withDefaults := fun raw _ => raw
  withComputed := fun effective _ _ _ => effective
  validate := fun _ _ _ => []
  createDraft := fun _ _ => .error (.invalidRequest "")
  createOutput := fun _ _ => .error (.invalidRequest "")
  checkReplacement := fun _ => .ok ()
  updateDraft := fun _ _ _ => .error (.invalidRequest "")
  updateOutput := fun _ _ _ => .error (.invalidRequest "")
  backlinks := fun _ _ => .ok []
  requiredLinkValues := fun _ _ => []
  linkIssues := fun _ _ _ _ => []
  updateFmLinks := fun _ _ _ _ _ => .ok ⟨taggedKeyMapping "[[moved]]", true, [], []⟩
  updateBodyLinks := fun _ _ _ body => .ok ⟨body, false⟩

/-- A record, and a record that links to it below a tagged key. -/
def taggedKeyFiles : Files where
  entries :=
    [⟨"ref.md", .text ("---\n" ++ taggedKeySource ++ "---\n").toList⟩,
      ⟨"target.md", .text "target\n".toList⟩]
  sorted := by decide

/-- The rename of the record. -/
def taggedKeyRename : RenameRequest where
  source := "target.md"
  destination := "moved.md"

/-- The same library, but for an emitter that writes every mapping. -/
def writingLibrary : MutationLibrary :=
  { taggedKeyLibrary with
    yaml := { taggedKeyLibrary.yaml with toString := fun _ => some taggedKeySource.toList } }

/-- A rename that rewrites the reference reports what it did. -/
theorem honest_iff_rewritten :
    (TypedMutation.rename taggedKeyRename).Honest writingLibrary taggedKeyFiles := by
  refine (honest_iff writingLibrary rfl taggedKeyFiles _).mpr fun request _ strands => ?_
  obtain ⟨_, _, _, _, _, _, layout, frontmatter, body, _, _, _, _, _, rejected⟩ := strands
  have written : ∃ text, serializeInner writingLibrary.yaml frontmatter.mapping body.body =
      some text := by
    rw [serializeInner]
    split
    · exact ⟨_, rfl⟩
    · exact ⟨_, rfl⟩
  obtain ⟨text, written⟩ := written
  exact absurd (written.symm.trans (Option.map_eq_none_iff.mp rejected)) (by simp)

/-- The rename returns an error, and the record is gone from where it was. -/
theorem rename_error_moves :
    ¬∀ (library : MutationLibrary) (_ : library.specProfile = .v03) (files : Files)
      (mutation : TypedMutation), mutation.Honest library files := by
  intro honest
  have unchanged := (honest taggedKeyLibrary rfl taggedKeyFiles (.rename taggedKeyRename)).1
    (by decide +kernel)
  have moved : Files.contentAt ((TypedMutation.rename taggedKeyRename).run taggedKeyLibrary
      taggedKeyFiles).2 "target.md" = none := by decide +kernel
  rw [unchanged] at moved
  revert moved
  decide +kernel

end Mdbase.Mutation
