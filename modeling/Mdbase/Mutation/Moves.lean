import Mdbase.Mutation.WorkingSet

/-!
# What a rename does

A rename that passes its checks moves its record and executes the rewrites that it planned.
Every plan is executed on the revision that it was planned on, so the failures of the rename
are those of its plan. With what the other mutations do to a working set, the items of a
batch advance it as long as they are valid.
-/

namespace Mdbase.Mutation

open Library

variable {library : MutationLibrary} {files : Files} {request : RenameRequest}

/-- A rewrite of references writes the planned text over the expected one, or writes nothing. -/
theorem executeReferenceRewrite_cases (run : RewriteRun) (plan : ReferenceRewritePlan) :
    (∃ file, run.files.get? plan.executionPath = some file ∧
        library.revision file.content = plan.expectedRevision ∧
        executeReferenceRewrite library run plan =
          { files := run.files.insert ⟨plan.executionPath, .text plan.output⟩
            updated := run.updated ++ plan.updates
            failures := run.failures }) ∨
      ((executeReferenceRewrite library run plan).files = run.files ∧
        ∀ file, run.files.get? plan.executionPath = some file →
          library.revision file.content ≠ plan.expectedRevision) := by
  unfold executeReferenceRewrite loadRecord
  cases found : run.files.get? plan.executionPath with
  | none => exact .inr ⟨rfl, fun file none => by cases none⟩
  | some file =>
    by_cases same : library.revision file.content = plan.expectedRevision
    · left
      exact ⟨file, rfl, same, by simp [snapshotEntry, same]⟩
    · right
      refine ⟨by simp [snapshotEntry, same], fun other equal => ?_⟩
      rwa [← Option.some.inj equal]

theorem isSome_executeReferenceRewrites (plans : List ReferenceRewritePlan) (run : RewriteRun)
    (path : String) :
    ((executeReferenceRewrites library run plans).files.get? path).isSome =
      (run.files.get? path).isSome := by
  induction plans generalizing run with
  | nil => rfl
  | cons plan plans ih =>
    have step : ((executeReferenceRewrite library run plan).files.get? path).isSome =
        (run.files.get? path).isSome := by
      rcases @executeReferenceRewrite_cases library run plan with
        ⟨file, found, -, done⟩ | ⟨same, -⟩
      · rw [done, Table.get?_insert]
        split
        next here => rw [here, found]; rfl
        next => rfl
      · rw [same]
    exact (ih (executeReferenceRewrite library run plan)).trans step

variable {path : String}

theorem contentAt_executeReferenceRewrites (plans : List ReferenceRewritePlan)
    (run : RewriteRun) (apart : path ∉ plans.map (·.executionPath)) :
    (executeReferenceRewrites library run plans).files.contentAt path =
      run.files.contentAt path := by
  induction plans generalizing run with
  | nil => rfl
  | cons plan plans ih =>
    rw [List.map_cons, List.mem_cons, not_or] at apart
    have step : (executeReferenceRewrite library run plan).files.contentAt path =
        run.files.contentAt path := by
      rcases @executeReferenceRewrite_cases library run plan with
        ⟨file, -, -, done⟩ | ⟨same, -⟩
      · rw [done, Files.contentAt_insert, if_neg apart.1]
      · rw [same]
    exact (ih (executeReferenceRewrite library run plan) apart.2).trans step

/-- The files have the revisions that plans were made on. -/
def Ready (library : MutationLibrary) (files : Files) (plans : List ReferenceRewritePlan) : Prop :=
  ∀ plan ∈ plans, ∃ file, files.get? plan.executionPath = some file ∧
    library.revision file.content = plan.expectedRevision

theorem failures_executeReferenceRewrites {plans : List ReferenceRewritePlan} (run : RewriteRun)
    (distinct : (plans.map (·.executionPath)).Nodup) (ready : Ready library run.files plans) :
    (executeReferenceRewrites library run plans).failures = run.failures := by
  induction plans generalizing run with
  | nil => rfl
  | cons plan plans ih =>
    rw [List.map_cons, List.nodup_cons] at distinct
    obtain ⟨stored, found, current⟩ := ready plan List.mem_cons_self
    rcases @executeReferenceRewrite_cases library run plan with
      ⟨file, -, -, done⟩ | ⟨-, stale⟩
    · have later : Ready library (executeReferenceRewrite library run plan).files plans := by
        intro other member
        obtain ⟨file, otherFound, otherCurrent⟩ := ready other (List.mem_cons_of_mem _ member)
        refine ⟨file, ?_, otherCurrent⟩
        rw [done, Table.get?_insert_of_ne]
        · exact otherFound
        · rintro same
          exact distinct.1 (List.mem_map.mpr ⟨other, member, same⟩)
      refine (ih _ distinct.2 later).trans ?_
      rw [done]
    · exact absurd current (stale stored found)

variable {move : Renaming}

theorem planReferenceRewrite_planned {snapshot : List SnapshotEntry} {entry : SnapshotEntry}
    {step : List Mdbase.Query.Diagnostic × ReferenceStep} {plan : ReferenceRewritePlan}
    (planned : planReferenceRewrite library snapshot move entry = .ok step)
    (here : step.2.plan? = some plan) :
    plan.executionPath = move.executionPath entry.path ∧
      plan.expectedRevision = entry.revision := by
  unfold planReferenceRewrite at planned
  split at planned
  next =>
    simp only [bind, Except.bind] at planned
    split at planned
    next => cases planned
    split at planned
    next => cases planned
    split at planned
    next =>
      obtain rfl := Except.ok.inj planned
      cases here
    split at planned
    next =>
      obtain rfl := Except.ok.inj planned
      obtain rfl := Option.some.inj here
      exact ⟨rfl, rfl⟩
    obtain rfl := Except.ok.inj planned
    cases here
  obtain rfl := Except.ok.inj planned
  cases here

theorem plannedPaths_sublist {snapshot entries : List SnapshotEntry}
    {steps : List (List Mdbase.Query.Diagnostic × ReferenceStep)}
    (all : List.Forall₂ (fun entry step =>
      planReferenceRewrite library snapshot move entry = .ok step) entries steps) :
    ((steps.filterMap (·.2.plan?)).map (·.executionPath)).Sublist
      (entries.map fun entry => move.executionPath entry.path) := by
  induction all with
  | nil => exact List.Sublist.slnil
  | @cons entry step entries steps planned _ ih =>
    rw [List.filterMap_cons, List.map_cons]
    split
    next => exact ih.cons _
    next plan here =>
      rw [List.map_cons, (planReferenceRewrite_planned planned here).1]
      exact ih.cons_cons _

theorem Renaming.executionPath_inj {left right : String}
    (leftApart : left ≠ move.destination) (rightApart : right ≠ move.destination)
    (same : move.executionPath left = move.executionPath right) : left = right := by
  unfold Renaming.executionPath at same
  split_ifs at same with leftHere rightHere rightHere
  · exact leftHere.trans rightHere.symm
  · exact absurd same.symm rightApart
  · exact absurd same leftApart
  · exact same

theorem get?_of_not_occupied (free : files.occupied path = false) : files.get? path = none := by
  rw [Table.get?_eq_none_iff]
  rintro file member rfl
  have apart := List.any_eq_false.mp free file member
  simp at apart

theorem mem_captureSnapshot {entry : SnapshotEntry} :
    entry ∈ captureSnapshot library files ↔
      ∃ file ∈ files, isRecordPath library files file.path = true ∧
        snapshotEntry library file = entry := by
  simp [captureSnapshot, Table.mem_def, and_assoc]

theorem nodup_captureSnapshot : ((captureSnapshot library files).map (·.path)).Nodup := by
  have paths : (captureSnapshot library files).map (·.path) =
      (files.entries.filter fun file => isRecordPath library files file.path).map
        StoredFile.path := by
    rw [captureSnapshot, List.map_map]
    rfl
  rw [paths]
  exact Table.nodup_keys files _

theorem document_classifyBytes (path : String) (content : Content) (document : Text) :
    (classifyBytes library path content).2.document = some document ↔ content = .text document := by
  cases content with
  | binary bytes => simp [classifyBytes, RecordLoadOutcome.document]
  | text stored =>
    simp only [classifyBytes, Content.text.injEq]
    split
    all_goals simp [RecordLoadOutcome.document]

/-- What a prepared rename has been checked for. -/
structure PreparedRename.Fits (library : MutationLibrary) (files : Files)
    (request : RenameRequest) (prepared : PreparedRename) : Prop where
  asked : prepared.request = request
  source : isRecordPath library files request.source = true
  destination : isRecordPath library files request.destination = true
  stored : files.get? request.source = some ⟨request.source, .text prepared.document⟩
  entry : prepared.entry = snapshotEntry library ⟨request.source, .text prepared.document⟩
  free : files.occupied request.destination = false
  revision : revisionConflicts request.ifRevision prepared.entry.revision = false
  steps : ∃ steps, referenceSteps library files request prepared.entry = .ok steps ∧
    prepared.plans = steps.filterMap (·.2.plan?) ∧
      prepared.warnings = steps.flatMap (·.1) ∧ prepared.failures = steps.filterMap (·.2.failure?)

theorem checkRecordPath_ok {value : Unit}
    (checked : checkRecordPath library files path = .ok value) :
    isRecordPath library files path = true := by
  unfold checkRecordPath at checked
  split at checked
  next here => exact here
  next => cases checked

variable {prepared : PreparedRename}

/-- What a prepared rename says of the request and the files. -/
theorem prepareRename_ok (done : prepareRename library files request = .ok prepared) :
    prepared.Fits library files request := by
  simp only [prepareRename, bind, Except.bind] at done
  split at done
  next => cases done
  rename_i sourceOk
  split at done
  next => cases done
  rename_i destinationOk
  split at done
  next => cases done
  rename_i entry loaded
  split at done
  next => cases done
  rename_i free
  split at done
  next => cases done
  rename_i current
  split at done
  next => cases done
  rename_i document here
  split at done
  next => cases done
  rename_i steps stepsOk
  obtain rfl := Except.ok.inj done
  unfold loadRecord at loaded
  split at loaded
  next file found =>
    obtain rfl := Except.ok.inj loaded
    obtain ⟨path, content⟩ := file
    have path_eq : path = request.source := Table.key_of_get? found
    subst path_eq
    have content_eq := (document_classifyBytes _ _ _).mp here
    dsimp only at content_eq
    subst content_eq
    exact
      { asked := rfl
        source := checkRecordPath_ok sourceOk
        destination := checkRecordPath_ok destinationOk
        stored := found
        entry := rfl
        free := eq_false_of_ne_true free
        revision := eq_false_of_ne_true current
        steps := ⟨steps, stepsOk, rfl, rfl, rfl⟩ }
  next => cases loaded

variable {prepared : PreparedRename}

theorem PreparedRename.Fits.ne (fits : prepared.Fits library files request) :
    request.source ≠ request.destination := by
  intro same
  have absent := get?_of_not_occupied fits.free
  rw [← same, fits.stored] at absent
  cases absent

theorem contentAt_movedFiles (content : Content) (path : String) :
    (movedFiles files request content).contentAt path =
      if path = request.destination then some content
      else if path = request.source then none else files.contentAt path := by
  rw [movedFiles, Files.contentAt_insert, Files.contentAt_erase]

theorem PreparedRename.Fits.get?_moved (fits : prepared.Fits library files request)
    {file : StoredFile} (member : file ∈ files) (sourceId : Option String) :
    ∃ moved, (movedFiles files request (.text prepared.document)).get?
        (Renaming.executionPath ⟨request.source, request.destination, sourceId⟩ file.path) =
          some moved ∧ moved.content = file.content := by
  unfold Renaming.executionPath movedFiles
  by_cases here : file.path = request.source
  · have same : file = ⟨request.source, .text prepared.document⟩ :=
      Table.eq_of_get? member (by rw [here]; exact fits.stored)
    refine ⟨⟨request.destination, .text prepared.document⟩, ?_, by rw [same]⟩
    rw [if_pos here]
    exact Table.get?_insert_self _ _
  · have apart : file.path ≠ request.destination :=
      Table.get?_eq_none_iff.mp (get?_of_not_occupied fits.free) file member
    refine ⟨file, ?_, rfl⟩
    rw [if_neg here, Table.get?_insert, if_neg apart, Table.get?_erase, if_neg here]
    exact Table.get?_key member

theorem PreparedRename.Fits.plans (fits : prepared.Fits library files request) :
    (prepared.plans.map (·.executionPath)).Nodup ∧
      ∀ plan ∈ prepared.plans, request.updateRefs = true ∧
        ∃ file ∈ files, isRecordPath library files file.path = true ∧
          plan.executionPath = (renamingOf library request prepared.entry).executionPath
            file.path ∧ plan.expectedRevision = library.revision file.content := by
  obtain ⟨steps, stepsOk, plansEq, -, -⟩ := fits.steps
  rw [plansEq]
  unfold referenceSteps at stepsOk
  split at stepsOk
  next updates =>
    refine ⟨?_, fun plan member => ⟨updates, ?_⟩⟩
    · refine (plannedPaths_sublist (forall₂_of_mapM_ok stepsOk)).nodup ?_
      have injective : ∀ left ∈ captureSnapshot library files,
          ∀ right ∈ captureSnapshot library files,
            (renamingOf library request prepared.entry).executionPath left.path =
              (renamingOf library request prepared.entry).executionPath right.path →
                left = right := by
        intro left leftMember right rightMember same
        obtain ⟨leftFile, leftIn, -, rfl⟩ := mem_captureSnapshot.mp leftMember
        obtain ⟨rightFile, rightIn, -, rfl⟩ := mem_captureSnapshot.mp rightMember
        have leftApart := Table.get?_eq_none_iff.mp (get?_of_not_occupied fits.free) _ leftIn
        have rightApart := Table.get?_eq_none_iff.mp (get?_of_not_occupied fits.free) _ rightIn
        have paths : leftFile.path = rightFile.path :=
          Renaming.executionPath_inj leftApart rightApart same
        rw [Table.key_injective leftIn rightIn paths]
      exact List.Nodup.map_on injective (List.Nodup.of_map _ nodup_captureSnapshot)
    · obtain ⟨step, stepMember, here⟩ := List.mem_filterMap.mp member
      obtain ⟨entry, entryMember, planned⟩ := exists_item_of_mapM_ok stepsOk stepMember
      obtain ⟨file, fileIn, recordPath, rfl⟩ := mem_captureSnapshot.mp entryMember
      have about := planReferenceRewrite_planned planned here
      exact ⟨file, fileIn, recordPath, about⟩
  obtain rfl := Except.ok.inj stepsOk
  simp

/-- The text that a prepared rename leaves at its destination. -/
def PreparedRename.settledDocument (prepared : PreparedRename) : Text :=
  if prepared.failures.any fun failure => failure.path = prepared.request.destination then
    prepared.document
  else prepared.destinationDocument

/-- What a rename that is carried out leaves. -/
structure PreparedRename.Moves (library : MutationLibrary) (files : Files)
    (prepared : PreparedRename) (planned : PlannedRename) (after : Files) : Prop where
  destination : planned.destination = prepared.record library prepared.settledDocument
  failures : planned.failures = prepared.failures
  warnings : planned.warnings = prepared.warnings
  dryRun : planned.dryRun = false
  keys : ∀ path, (after.get? path).isSome =
    ((movedFiles files prepared.request (.text prepared.document)).get? path).isSome
  names : ∀ path, after.contentAt path ≠ files.contentAt path → library.isRecordName path = true

theorem isRecordName_of_isRecordPath
    (here : isRecordPath library files path = true) : library.isRecordName path = true := by
  rw [isRecordPath, Bool.and_eq_true] at here
  exact here.1

/-- A prepared rename can be carried out, and moves what it says. -/
theorem PreparedRename.Fits.moves (fits : prepared.Fits library files request) :
    ∃ planned after, renamePlanned library files prepared false = (.ok planned, after) ∧
      prepared.Moves library files planned after := by
  have requestEq := fits.asked
  subst requestEq
  obtain ⟨distinct, about⟩ := fits.plans
  have revisionEq : prepared.entry.revision = library.revision (.text prepared.document) := by
    rw [fits.entry]
    rfl
  have current : ¬(library.revision (.text prepared.document) ≠ prepared.entry.revision ∨
      revisionConflicts prepared.request.ifRevision
        (library.revision (.text prepared.document)) = true) := by
    rw [← revisionEq, fits.revision]
    simp
  set moved : RewriteRun :=
    ⟨movedFiles files prepared.request (.text prepared.document), [], []⟩ with movedEq
  set run := if prepared.request.updateRefs then
    executeReferenceRewrites library moved prepared.plans else moved with runEq
  have ready : Ready library moved.files prepared.plans := by
    intro plan member
    obtain ⟨-, file, fileIn, -, path, revision⟩ := about plan member
    obtain ⟨there, found, content⟩ := fits.get?_moved fileIn (recordId library prepared.entry)
    exact ⟨there, by rw [path]; exact found, by rw [content, revision]⟩
  have failures : run.failures = [] := by
    rw [runEq]
    split
    next => exact failures_executeReferenceRewrites moved distinct ready
    next => rfl
  have keys (path : String) : (run.files.get? path).isSome = (moved.files.get? path).isSome := by
    rw [runEq]
    split
    next => exact isSome_executeReferenceRewrites prepared.plans moved path
    next => rfl
  have untouched {path : String} (apart : path ∉ prepared.plans.map (·.executionPath)) :
      run.files.contentAt path = moved.files.contentAt path := by
    rw [runEq]
    split
    next => exact contentAt_executeReferenceRewrites prepared.plans moved apart
    next => rfl
  have executed : renamePlanned library files prepared false =
      (.ok
        { source := prepared.request.source
          destination := prepared.record library prepared.settledDocument
          referencesAffected := prepared.plans.flatMap (·.updates)
          referencesUpdated := run.updated
          warnings := prepared.warnings
          failures := prepared.failures
          dryRun := false }, run.files) := by
    unfold renamePlanned
    rw [if_neg Bool.false_ne_true, fits.stored]
    dsimp only
    rw [if_neg current, if_neg (ne_true_of_eq_false fits.free), ← movedEq, ← runEq, failures,
      List.append_nil]
    rfl
  refine ⟨_, run.files, executed, ?_⟩
  refine ⟨rfl, rfl, rfl, rfl, keys, fun path changed => ?_⟩
  · by_cases planned : path ∈ prepared.plans.map (·.executionPath)
    · obtain ⟨plan, member, rfl⟩ := List.mem_map.mp planned
      obtain ⟨-, file, -, recordPath, executionPath, -⟩ := about plan member
      rw [executionPath, Renaming.executionPath]
      split
      next => exact isRecordName_of_isRecordPath fits.destination
      next => exact isRecordName_of_isRecordPath recordPath
    · rw [untouched planned, movedEq, contentAt_movedFiles] at changed
      by_cases there : path = prepared.request.destination
      · rw [there]
        exact isRecordName_of_isRecordPath fits.destination
      · by_cases here : path = prepared.request.source
        · rw [here]
          exact isRecordName_of_isRecordPath fits.source
        · rw [if_neg there, if_neg here] at changed
          exact absurd rfl changed

theorem PreparedRename.Moves.of_present {planned : PlannedRename} {after : Files}
    (moves : prepared.Moves library files planned after) (present : (after.get? path).isSome) :
    (files.get? path).isSome ∨ path = prepared.request.destination := by
  rw [moves.keys path, movedFiles, Table.get?_insert] at present
  by_cases here : path = prepared.request.destination
  · exact .inr here
  · left
    rw [if_neg here, Table.get?_erase] at present
    split at present
    next => simp at present
    next => exact present

variable {before : Files} {document : RecordDocument} {planned : PlannedRecord}

theorem isRecordPath_of_projectRecord
    (projected : projectRecord library files planned = .ok document) :
    isRecordPath library files planned.path = true := by
  unfold projectRecord evaluateTypedRead at projected
  split at projected
  next => cases projected
  by_cases here : isRecordPath library files planned.path = true
  · exact here
  · rw [if_neg here] at projected
    simp [failure, errorDiagnostic, MdbaseError.diagnostics] at projected

variable {request : RenameRequest}

theorem stagedRename_error {error : MdbaseError}
    (refused : prepareRename library files request = .error error) (dryRun : Bool) :
    stagedRename library files request dryRun = (.error error, files) := by
  rw [stagedRename, refused]

theorem stagedRename_ok
    (done : prepareRename library files request = .ok prepared) (dryRun : Bool) :
    stagedRename library files request dryRun = renamePlanned library files prepared dryRun := by
  rw [stagedRename, done]

theorem Advances.moves (advances : Advances library before files)
    {planned : PlannedRename} {after : Files} (moves : prepared.Moves library files planned after)
    (projected : projectRecord library after planned.destination = .ok document) :
    Advances library before after := by
  have here := isRecordPath_of_projectRecord projected
  rw [moves.destination, PreparedRename.record, isRecordPath, Bool.and_eq_true,
    Bool.not_eq_true'] at here
  refine ⟨fun path changed => ?_, Files.flat_of_keys advances.flat fun path present => ?_⟩
  · by_cases same : after.contentAt path = files.contentAt path
    · rw [same] at changed
      exact advances.names path changed
    · exact moves.names path same
  · rcases moves.of_present present with old | rfl
    · exact .inl old
    · exact .inr here.2

variable {operation : BatchOperation}

theorem valid_itemResult {index : Nat} {outcome : Evaluated} :
    (itemResult index operation outcome).valid = true ↔
      ∃ result diagnostics, outcome = .ok (true, result, diagnostics) := by
  cases outcome with
  | error error => simp [itemResult]
  | ok answer =>
    obtain ⟨valid, result, diagnostics⟩ := answer
    simp [itemResult]

end Mdbase.Mutation
