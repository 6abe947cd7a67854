import Mdbase.Transactions.Outcome

/-!
# Transition evidence

The files that a transaction changes and the canonical changes it reports describe one
mutation. The evidence of a journal assigns every changed file to the change that it
belongs to; it outlives the list of the files, and the list made again from it gives the
same evidence, whatever its order.
-/

namespace Mdbase.Transactions

open Mdbase.Provider (RecordChange RecordChangeKind ResourceChange ResourceChangeKind
  CanonicalChange)

/-- `TransactionScope`. -/
inductive TransactionScope where
  | records
  | resources
  | systemMigration
  deriving DecidableEq

/-- A file with its revisions before and after: what journal entries and evidence share. -/
structure Transition where
  path : String
  beforeRevision : Option String
  afterRevision : Option String
  deriving DecidableEq

/-- `TransitionRole`. -/
inductive TransitionRole where
  | direct
  | renameSource
  | renameDestination
  deriving DecidableEq

/-- `TransitionEvidence`. -/
structure TransitionEvidence extends Transition where
  operation : OperationKind
  changeIndex : Nat
  role : TransitionRole
  deriving DecidableEq

/-- The order of the roles. -/
def TransitionRole.code : TransitionRole → Nat
  | .direct => 0
  | .renameSource => 1
  | .renameDestination => 2

/-- A missing revision comes before all others. -/
def revisionKey : Option String → WithBot String
  | some revision => (revision : WithBot String)
  | none => ⊥

/-- The key that `sort_transition_evidence` compares. -/
def TransitionEvidence.sortKey (evidence : TransitionEvidence) :
    String ×ₗ WithBot String ×ₗ WithBot String ×ₗ String ×ₗ Nat ×ₗ Nat :=
  toLex (evidence.path, toLex (revisionKey evidence.beforeRevision,
    toLex (revisionKey evidence.afterRevision, toLex (evidence.operation.debugName,
      toLex (evidence.changeIndex, evidence.role.code)))))

/-- `sort_transition_evidence`. -/
def sortTransitionEvidence (evidence : List TransitionEvidence) : List TransitionEvidence :=
  evidence.insertionSort fun left right => left.sortKey ≤ right.sortKey

/-- Files that are still to be assigned are taken by a change, or the change does not fit
them: the flags say which files are taken. -/
abbrev Acceptor := List Transition → List Bool → Option (List Bool)

/-- `consume_one`. -/
def consumeOne (predicate : Transition → Bool) : Acceptor := fun transitions consumed =>
  match (transitions.zip consumed).zipIdx.filter fun ((transition, taken), _) =>
      !taken && predicate transition with
  | [(_, index)] => some (consumed.set index true)
  | _ => none

/-- One change takes two files. -/
def consumeBoth (first second : Transition → Bool) : Acceptor := fun transitions consumed => do
  let trial ← consumeOne first transitions consumed
  consumeOne second transitions trial

/-- A change that fits no files. -/
def refuse : Acceptor := fun _ _ => none

/-- `consume_created`. -/
def consumeCreated (record : RecordChange) (repair : Bool) : Acceptor :=
  consumeOne fun transition => transition.path = record.path ∧
    transition.beforeRevision.isSome = repair ∧ transition.afterRevision = record.afterRevision

/-- `consume_updated`. -/
def consumeUpdated (record : RecordChange) : Acceptor :=
  consumeOne fun transition => transition.path = record.path ∧
    transition.beforeRevision = record.beforeRevision ∧
    transition.afterRevision = record.afterRevision

/-- `consume_deleted`. -/
def consumeDeleted (record : RecordChange) : Acceptor :=
  consumeOne fun transition => transition.path = record.path ∧
    transition.beforeRevision = record.beforeRevision ∧ transition.afterRevision = none

/-- `consume_update_to_invalid`. -/
def consumeUpdateToInvalid (record : RecordChange) : Acceptor :=
  consumeOne fun transition => transition.path = record.path ∧
    transition.beforeRevision = record.beforeRevision ∧ transition.afterRevision.isSome

/-- `consume_renamed`. -/
def consumeRenamed (record : RecordChange) (source : String) : Acceptor :=
  consumeBoth
    (fun transition => transition.path = source ∧
      transition.beforeRevision = record.beforeRevision ∧ transition.afterRevision = none)
    (fun transition => transition.path = record.path ∧
      transition.beforeRevision = none ∧ transition.afterRevision = record.afterRevision)

/-- `consume_rename_created`. -/
def consumeRenameCreated (record : RecordChange) (source : String) : Acceptor :=
  consumeBoth
    (fun transition => transition.path = record.path ∧
      transition.beforeRevision = none ∧ transition.afterRevision = record.afterRevision)
    (fun transition => transition.path = source ∧
      transition.beforeRevision = record.afterRevision ∧ transition.afterRevision = none)

/-- `consume_rename_deleted`. -/
def consumeRenameDeleted (record : RecordChange) (target : String) : Acceptor :=
  consumeBoth
    (fun transition => transition.path = record.path ∧
      transition.beforeRevision = record.beforeRevision ∧ transition.afterRevision = none)
    (fun transition => transition.path = target ∧
      transition.beforeRevision = none ∧ transition.afterRevision = record.beforeRevision)

/-- `canonical_record_shape`. -/
def canonicalRecordShape (record : RecordChange) : Bool :=
  match record.kind with
  | .created => record.source.isNone ∧ record.beforeRevision.isNone ∧ record.afterRevision.isSome
  | .updated => record.source.isNone ∧ record.beforeRevision.isSome ∧ record.afterRevision.isSome
  | .deleted => record.source.isNone ∧ record.beforeRevision.isSome ∧ record.afterRevision.isNone
  | .renamed => record.beforeRevision.isSome ∧ record.afterRevision.isSome ∧
      record.source.any fun source => source ≠ record.path

/-- `batch_item_affects_path`. -/
def batchItemAffectsPath (item : BatchItemResult) (path : String) : Bool :=
  match item.result with
  | .record document => document.path = path
  | .delete deleted _ => deleted = path
  | .rename source target _ => source = path ∨ target = path
  | _ => false

/-- The operation of a batch item, by its name. -/
def batchItemKind (item : BatchItemResult) : Option OperationKind :=
  if item.kind = "create" then some .create
  else if item.kind = "update" then some .update
  else if item.kind = "delete" then some .delete
  else if item.kind = "rename" then some .rename
  else none

/-- `unique_batch_item_kind`. -/
def uniqueBatchItemKind (operation : CanonicalOperationValue) (path : String) :
    Option OperationKind :=
  match operation with
  | .batch (some operations) =>
    match (operations.filter fun item => item.valid && batchItemAffectsPath item path).filterMap
        batchItemKind with
    | [kind] => some kind
    | _ => none
  | _ => none

/-- The paths of a rename among the items of a batch, if it is the rename of the record. -/
def batchRenamePaths (record : RecordChange) (item : BatchItemResult) : Option (String × String) :=
  match item.result with
  | .rename source target _ =>
    let matching : Bool := match record.kind with
      | .created => target = record.path
      | .deleted => source = record.path
      | .renamed => record.source = some source ∧ record.path = target
      | .updated => false
    if matching then some (source, target) else none
  | _ => none

/-- `rename_paths_for_record`. -/
def renamePathsForRecord (operation : CanonicalOperationValue) (kind : OperationKind)
    (record : RecordChange) : Option (String × String) :=
  match kind, operation with
  | .rename, .rename (some (.renamed source target _)) => some (source, target)
  | .batch, .batch (some operations) =>
    match (operations.filter fun item => item.valid && item.kind = "rename").filterMap
        (batchRenamePaths record) with
    | [paths] => some paths
    | _ => none
  | _, _ => none

/-- A rename takes its two files. -/
def acceptRenamed (operation : CanonicalOperationValue) (kind : OperationKind)
    (record : RecordChange) : Acceptor :=
  match renamePathsForRecord operation kind record with
  | some (source, target) =>
    if record.source = some source ∧ record.path = target then consumeRenamed record source
    else refuse
  | none => refuse

/-- The target of a rename whose source was no record. -/
def acceptRenameCreated (operation : CanonicalOperationValue) (kind : OperationKind)
    (record : RecordChange) : Acceptor :=
  match renamePathsForRecord operation kind record with
  | some (source, target) =>
    if record.path = target then consumeRenameCreated record source else refuse
  | none => refuse

/-- The source of a rename whose target is no record. -/
def acceptRenameDeleted (operation : CanonicalOperationValue) (kind : OperationKind)
    (record : RecordChange) : Acceptor :=
  match renamePathsForRecord operation kind record with
  | some (source, target) =>
    if record.path = source then consumeRenameDeleted record target else refuse
  | none => refuse

/-- The files that a record change takes, by the operation and the kind of the change. -/
def acceptRecord (operation : CanonicalOperationValue) (kind : OperationKind)
    (record : RecordChange) : Acceptor :=
  match kind, record.kind with
  | .create, .created => consumeCreated record false
  | .update, .created => consumeCreated record true
  | .update, .updated => consumeUpdated record
  | .update, .deleted => consumeUpdateToInvalid record
  | .delete, .deleted => consumeDeleted record
  | .rename, .renamed => acceptRenamed operation kind record
  | .rename, .created => acceptRenameCreated operation kind record
  | .rename, .deleted => acceptRenameDeleted operation kind record
  | .rename, .updated => consumeUpdated record
  | .batch, .created =>
    match uniqueBatchItemKind operation record.path with
    | some .rename => acceptRenameCreated operation kind record
    | some .update => consumeCreated record true
    | _ => consumeCreated record false
  | .batch, .updated => consumeUpdated record
  | .batch, .deleted =>
    match uniqueBatchItemKind operation record.path with
    | some .rename => acceptRenameDeleted operation kind record
    | some .update => consumeUpdateToInvalid record
    | _ => consumeDeleted record
  | .batch, .renamed => acceptRenamed operation kind record
  | _, _ => refuse

/-- The operation that the evidence of a record change names. -/
def recordMapping (operation : CanonicalOperationValue) (kind : OperationKind)
    (record : RecordChange) : OperationKind :=
  if kind = .batch then (uniqueBatchItemKind operation record.path).getD .batch else kind

/-- The role of a file in a record change. -/
def recordRole (kind : OperationKind) (record : RecordChange) (path : String) : TransitionRole :=
  match record.kind with
  | .renamed => if record.source = some path then .renameSource else .renameDestination
  | .created =>
    if kind = .rename then
      if path = record.path then .renameDestination else .renameSource
    else .direct
  | .deleted =>
    if kind = .rename then
      if path = record.path then .renameSource else .renameDestination
    else .direct
  | .updated => .direct

/-- What the evidence says of a change: the files it takes, and the operation and the role
of each of them. -/
structure Assignment where
  accept : Acceptor
  operation : OperationKind
  role : String → TransitionRole

/-- The files that have been taken since the flags were the first ones. -/
def takenSince (assignment : Assignment) (changeIndex : Nat) (transitions : List Transition)
    (before after : List Bool) : List TransitionEvidence :=
  ((transitions.zip (before.zip after)).filter fun (_, was, now) => !was && now).map
    fun (transition, _) => {
      toTransition := transition
      operation := assignment.operation
      changeIndex := changeIndex
      role := assignment.role transition.path }

/-- The loop over the changes. -/
def assignChanges (transitions : List Transition) :
    (changeIndex : Nat) → List Assignment → List Bool → Option (List TransitionEvidence)
  | _, [], consumed => if consumed.all id then some [] else none
  | changeIndex, assignment :: rest, consumed => do
      let after ← assignment.accept transitions consumed
      let evidence ← assignChanges transitions (changeIndex + 1) rest after
      some (takenSince assignment changeIndex transitions consumed after ++ evidence)

/-- The assignment of a record change. -/
def recordAssignment (operation : CanonicalOperationValue) (kind : OperationKind)
    (record : RecordChange) : Assignment where
  accept := if canonicalRecordShape record then acceptRecord operation kind record else refuse
  operation := recordMapping operation kind record
  role := recordRole kind record

/-- The record of a change. -/
def changedRecord? : CanonicalChange → Option RecordChange
  | .record record => some record
  | .resource _ => none

/-- `record_transition_evidence`. -/
def recordTransitionEvidence (operation : CanonicalOperationValue) (kind : OperationKind)
    (changes : List CanonicalChange) (transitions : List Transition) :
    Option (List TransitionEvidence) := do
  let records ← changes.mapM changedRecord?
  if transitions = [] then none
  else if kind = .rename ∧ (records.filter fun record => record.kind ≠ .updated).length ≠ 1 then
    none
  else
    assignChanges transitions 0 (records.map (recordAssignment operation kind))
      (transitions.map fun _ => false)

/-- Does a resource change belong to the operation? -/
def resourceFamily (kind : OperationKind) (resource : ResourceChange) : Bool :=
  match kind with
  | .createViewSource => resource.kind = .viewSource ∧ resource.beforeRevision.isNone ∧
      resource.afterRevision.isSome
  | .updateViewSource => resource.kind = .viewSource ∧ resource.beforeRevision.isSome ∧
      resource.afterRevision.isSome
  | .deleteViewSource => resource.kind = .viewSource ∧ resource.beforeRevision.isSome ∧
      resource.afterRevision.isNone
  | .createType => resource.kind = .typeDefinition ∧ resource.beforeRevision.isNone ∧
      resource.afterRevision.isSome
  | .updateType => resource.kind = .typeDefinition ∧ resource.beforeRevision.isSome ∧
      resource.afterRevision.isSome
  | .applyTypePack => true
  | .applyCollectionSetup => true
  | _ => false

/-- The files that a resource change takes. -/
def acceptResource (kind : OperationKind) (change : CanonicalChange) : Acceptor :=
  match change with
  | .record _ => refuse
  | .resource resource =>
    if resource.beforeRevision.isNone ∧ resource.afterRevision.isNone then refuse
    else if resourceFamily kind resource then
      consumeOne fun transition => transition.path = resource.path ∧
        transition.beforeRevision = resource.beforeRevision ∧
        transition.afterRevision = resource.afterRevision
    else refuse

/-- The assignment of a resource change. -/
def resourceAssignment (kind : OperationKind) (change : CanonicalChange) : Assignment where
  accept := acceptResource kind change
  operation := kind
  role := fun _ => .direct

/-- `resource_transition_evidence`. -/
def resourceTransitionEvidence (kind : OperationKind) (changes : List CanonicalChange)
    (transitions : List Transition) : Option (List TransitionEvidence) :=
  if transitions = [] then none
  else
    assignChanges transitions 0 (changes.map (resourceAssignment kind))
      (transitions.map fun _ => false)

/-- `expected_transition_evidence_for`. -/
def expectedTransitionEvidenceFor (scope : TransactionScope) (operation : CanonicalOperationValue)
    (kind : OperationKind) (changes : List CanonicalChange) (transitions : List Transition) :
    Option (List TransitionEvidence) :=
  match scope with
  | .records => recordTransitionEvidence operation kind changes transitions
  | .resources => resourceTransitionEvidence kind changes transitions
  | .systemMigration => none

/-- A file with its flag. -/
abbrev Flagged := Transition × Bool

/-- The file is not taken, and the predicate fits it. -/
def open_ (predicate : Transition → Bool) (flagged : Flagged) : Bool :=
  !flagged.2 && predicate flagged.1

/-- The flag of a file after the files that fit the predicate have been taken. -/
def take_ (predicate : Transition → Bool) (flagged : Flagged) : Bool :=
  flagged.2 || predicate flagged.1

variable {transitions : List Transition} {consumed : List Bool}

/-- One transition is consumed exactly when a single open one fits. -/
theorem consumeOne_eq (predicate : Transition → Bool)
    (same : transitions.length = consumed.length) :
    consumeOne predicate transitions consumed =
      if (transitions.zip consumed).countP (open_ predicate) = 1 then
        some ((transitions.zip consumed).map (take_ predicate))
      else none := by
  have count : (transitions.zip consumed).countP (open_ predicate) =
      ((transitions.zip consumed).zipIdx.filter fun pair =>
        open_ predicate pair.1).length := by
    conv_lhs => rw [← List.zipIdx_map_fst 0 (transitions.zip consumed)]
    rw [List.countP_map, List.countP_eq_length_filter]
    rfl
  unfold consumeOne
  split
  next index alone =>
    have alone : ((transitions.zip consumed).zipIdx.filter fun pair =>
      open_ predicate pair.1) = [(_, index)] := alone
    rw [count, alone]
    simp only [List.length_singleton, if_true, Option.some.injEq]
    refine List.ext_getElem? fun position => ?_
    rcases lt_or_ge position consumed.length with inside | beyond
    · obtain ⟨transition, found⟩ : ∃ transition, transitions[position]? = some transition :=
        ⟨_, List.getElem?_eq_getElem (by omega)⟩
      obtain ⟨taken, flag⟩ : ∃ taken, consumed[position]? = some taken :=
        ⟨_, List.getElem?_eq_getElem inside⟩
      have here : (transitions.zip consumed)[position]? = some (transition, taken) :=
        List.getElem?_zip_eq_some.mpr ⟨found, flag⟩
      have only : open_ predicate (transition, taken) = true ↔ index = position := by
        have member : ((transition, taken), position) ∈ (transitions.zip consumed).zipIdx :=
          List.mk_mem_zipIdx_iff_getElem?.mpr here
        constructor
        · intro fits
          have kept : ((transition, taken), position) ∈
              (transitions.zip consumed).zipIdx.filter fun pair => open_ predicate pair.1 :=
            List.mem_filter.mpr ⟨member, fits⟩
          rw [alone, List.mem_singleton, Prod.mk.injEq] at kept
          exact kept.2.symm
        · intro same
          have kept : (_, index) ∈ (transitions.zip consumed).zipIdx.filter fun pair =>
              open_ predicate pair.1 := alone ▸ List.mem_singleton_self _
          obtain ⟨at_, fits⟩ := List.mem_filter.mp kept
          have at_ := List.mk_mem_zipIdx_iff_getElem?.mp at_
          rw [same, here] at at_
          rw [← Option.some.inj at_] at fits
          exact fits
      rw [List.getElem?_map, here, List.getElem?_set]
      by_cases same : index = position
      · have fits := only.mpr same
        simp only [open_, Bool.and_eq_true] at fits
        rw [if_pos same, if_pos (same ▸ inside)]
        simp [take_, fits.2]
      · have closed := mt only.mp same
        rw [if_neg same, flag]
        cases taken <;> simp_all [open_, take_]
    · rw [List.getElem?_eq_none (by simpa using beyond), List.getElem?_eq_none (by simp; omega)]
  rename_i several
  have several : ∀ flagged index, ((transitions.zip consumed).zipIdx.filter fun pair =>
    open_ predicate pair.1) ≠ [(flagged, index)] := several
  have not_one : (transitions.zip consumed).countP (open_ predicate) ≠ 1 := by
    intro one
    rw [count] at one
    obtain ⟨⟨flagged, index⟩, alone⟩ := List.length_eq_one_iff.mp one
    exact several flagged index alone
  rw [if_neg not_one]

variable {consumed after : List Bool} {predicate : Transition → Bool}

theorem eq_of_consumeOne (same : transitions.length = consumed.length)
    (accepted : consumeOne predicate transitions consumed = some after) :
    after = (transitions.zip consumed).map (take_ predicate) := by
  rw [consumeOne_eq predicate same] at accepted
  split at accepted
  next => exact (Option.some.inj accepted).symm
  next => exact absurd accepted (by simp)

/-- What a change takes does not depend on the order of the files: there is one predicate
for the files it takes, and whether it accepts is the same for every order. -/
structure Equivariant (accept : Acceptor) : Prop where
  takes : ∃ predicate : Transition → Bool, ∀ transitions consumed after,
    transitions.length = consumed.length → accept transitions consumed = some after →
      after = (transitions.zip consumed).map (take_ predicate)
  agrees : ∀ transitions consumed others flags, transitions.length = consumed.length →
    others.length = flags.length → (transitions.zip consumed).Perm (others.zip flags) →
    (accept transitions consumed).isSome = true → (accept others flags).isSome = true

theorem Equivariant.refuse : Equivariant refuse where
  takes := ⟨fun _ => false, fun _ _ _ _ accepted => by simp [Transactions.refuse] at accepted⟩
  agrees := fun _ _ _ _ _ _ _ accepted => by simp [Transactions.refuse] at accepted

theorem Equivariant.consumeOne (predicate : Transition → Bool) :
    Equivariant (consumeOne predicate) where
  takes := ⟨predicate, fun _ _ _ same accepted => eq_of_consumeOne same accepted⟩
  agrees := by
    intro transitions consumed others flags same same' order accepted
    rw [consumeOne_eq predicate same] at accepted
    rw [consumeOne_eq predicate same', ← order.countP_eq]
    split at accepted
    next one => rw [if_pos one]; rfl
    next => exact absurd accepted (by simp)

theorem zip_take (predicate : Transition → Bool) (same : transitions.length = consumed.length) :
    transitions.zip ((transitions.zip consumed).map (take_ predicate)) =
      (transitions.zip consumed).map fun flagged => (flagged.1, take_ predicate flagged) := by
  induction transitions generalizing consumed with
  | nil => rfl
  | cons transition rest ih =>
    cases consumed with
    | nil => simp at same
    | cons taken flags => simp [ih (Nat.succ.inj same)]

theorem Equivariant.consumeBoth (first second : Transition → Bool) :
    Equivariant (consumeBoth first second) where
  takes := by
    refine ⟨fun transition => first transition || second transition,
      fun transitions consumed after same accepted => ?_⟩
    obtain ⟨trial, taken, accepted⟩ := Option.bind_eq_some_iff.mp accepted
    obtain rfl := eq_of_consumeOne same taken
    rw [eq_of_consumeOne (by simp [same]) accepted, zip_take first same, List.map_map]
    refine List.map_congr_left fun flagged _ => ?_
    simp [take_, Bool.or_assoc]
  agrees := by
    intro transitions consumed others flags same same' order accepted
    obtain ⟨after, accepted⟩ := Option.isSome_iff_exists.mp accepted
    obtain ⟨trial, taken, accepted⟩ := Option.bind_eq_some_iff.mp accepted
    obtain ⟨trial', taken'⟩ := Option.isSome_iff_exists.mp
      ((Equivariant.consumeOne first).agrees _ _ _ _ same same' order (by rw [taken]; rfl))
    have trial_eq := eq_of_consumeOne same taken
    have trial_eq' := eq_of_consumeOne same' taken'
    have order' : (transitions.zip trial).Perm (others.zip trial') := by
      rw [trial_eq, trial_eq', zip_take first same, zip_take first same']
      exact order.map _
    have final := (Equivariant.consumeOne second).agrees _ _ _ _ (by simp [trial_eq, same])
      (by simp [trial_eq', same']) order' (by rw [accepted]; rfl)
    unfold Transactions.consumeBoth
    simpa [taken'] using final

/-- The acceptors that changes have: they take no files, one, or two. -/
inductive Consumer : Acceptor → Prop where
  | refuse : Consumer refuse
  | one (predicate : Transition → Bool) : Consumer (consumeOne predicate)
  | both (first second : Transition → Bool) : Consumer (consumeBoth first second)

theorem Consumer.equivariant {accept : Acceptor} (consumer : Consumer accept) :
    Equivariant accept := by
  cases consumer with
  | refuse => exact .refuse
  | one predicate => exact .consumeOne predicate
  | both first second => exact .consumeBoth first second

theorem Consumer.acceptRenamed (operation : CanonicalOperationValue) (kind : OperationKind)
    (record : RecordChange) : Consumer (acceptRenamed operation kind record) := by
  unfold Transactions.acceptRenamed
  split
  next =>
    split
    next => exact .both _ _
    next => exact .refuse
  next => exact .refuse

theorem Consumer.acceptRenameCreated (operation : CanonicalOperationValue)
    (kind : OperationKind) (record : RecordChange) :
    Consumer (acceptRenameCreated operation kind record) := by
  unfold Transactions.acceptRenameCreated
  split
  next =>
    split
    next => exact .both _ _
    next => exact .refuse
  next => exact .refuse

theorem Consumer.acceptRenameDeleted (operation : CanonicalOperationValue)
    (kind : OperationKind) (record : RecordChange) :
    Consumer (acceptRenameDeleted operation kind record) := by
  unfold Transactions.acceptRenameDeleted
  split
  next =>
    split
    next => exact .both _ _
    next => exact .refuse
  next => exact .refuse

theorem Consumer.acceptRecord (operation : CanonicalOperationValue) (kind : OperationKind)
    (record : RecordChange) : Consumer (acceptRecord operation kind record) := by
  unfold Transactions.acceptRecord
  split
  case h_6 => exact .acceptRenamed operation _ record
  case h_7 => exact .acceptRenameCreated operation _ record
  case h_8 => exact .acceptRenameDeleted operation _ record
  case h_10 =>
    split
    next => exact .acceptRenameCreated operation _ record
    next => exact .one _
    next => exact .one _
  case h_12 =>
    split
    next => exact .acceptRenameDeleted operation _ record
    next => exact .one _
    next => exact .one _
  case h_13 => exact .acceptRenamed operation _ record
  case h_14 => exact .refuse
  all_goals exact .one _

theorem Consumer.recordAssignment (operation : CanonicalOperationValue) (kind : OperationKind)
    (record : RecordChange) : Consumer (recordAssignment operation kind record).accept := by
  unfold Transactions.recordAssignment
  dsimp only
  split
  next => exact .acceptRecord operation kind record
  next => exact .refuse

theorem Consumer.acceptResource (kind : OperationKind) (change : CanonicalChange) :
    Consumer (acceptResource kind change) := by
  unfold Transactions.acceptResource
  split
  next => exact .refuse
  split
  next => exact .refuse
  split
  next => exact .one _
  next => exact .refuse

theorem exists_open_of_consumeOne (same : transitions.length = consumed.length)
    (accepted : consumeOne predicate transitions consumed = some after) :
    ∃ flagged ∈ transitions.zip consumed, open_ predicate flagged = true := by
  rw [consumeOne_eq predicate same] at accepted
  split at accepted
  next one => exact List.countP_pos_iff.mp (by omega)
  next => cases accepted

theorem Consumer.takes_open {accept : Acceptor} (consumer : Consumer accept)
    (same : transitions.length = consumed.length)
    (accepted : accept transitions consumed = some after) :
    ∃ predicate : Transition → Bool, after = (transitions.zip consumed).map (take_ predicate) ∧
      ∃ flagged ∈ transitions.zip consumed, open_ predicate flagged = true := by
  cases consumer with
  | refuse => cases accepted
  | one predicate =>
    exact ⟨predicate, eq_of_consumeOne same accepted, exists_open_of_consumeOne same accepted⟩
  | both first second =>
    obtain ⟨trial, taken, accepted⟩ := Option.bind_eq_some_iff.mp accepted
    obtain ⟨flagged, member, opened⟩ := exists_open_of_consumeOne same taken
    obtain rfl := eq_of_consumeOne same taken
    refine ⟨fun transition => first transition || second transition, ?_, flagged, member, ?_⟩
    · rw [eq_of_consumeOne (by simp [same]) accepted, zip_take first same, List.map_map]
      refine List.map_congr_left fun flagged _ => ?_
      simp [take_, Bool.or_assoc]
    · simp only [open_, Bool.and_eq_true] at opened ⊢
      exact ⟨opened.1, by rw [opened.2, Bool.true_or]⟩

theorem takenSince_take (assignment : Assignment) (changeIndex : Nat)
    (predicate : Transition → Bool) (same : transitions.length = consumed.length) :
    takenSince assignment changeIndex transitions consumed
        ((transitions.zip consumed).map (take_ predicate)) =
      ((transitions.zip consumed).filter (open_ predicate)).map fun flagged => {
        toTransition := flagged.1
        operation := assignment.operation
        changeIndex := changeIndex
        role := assignment.role flagged.1.path } := by
  unfold takenSince
  induction transitions generalizing consumed with
  | nil => rfl
  | cons transition rest ih =>
    cases consumed with
    | nil => simp at same
    | cons taken flags =>
      have later := ih (Nat.succ.inj same)
      cases taken <;> cases fits : predicate transition <;> simp_all [open_, take_]

variable {evidence : List TransitionEvidence} {changeIndex : Nat}

theorem assignChanges_cons_eq_some_iff {assignment : Assignment} {rest : List Assignment} :
    assignChanges transitions changeIndex (assignment :: rest) consumed = some evidence ↔
      ∃ after later, assignment.accept transitions consumed = some after ∧
        assignChanges transitions (changeIndex + 1) rest after = some later ∧
        evidence = takenSince assignment changeIndex transitions consumed after ++ later := by
  simp only [assignChanges, Option.bind_eq_bind, Option.bind_eq_some_iff, Option.some.injEq]
  constructor
  · rintro ⟨after, accepted, later, assigned, rfl⟩
    exact ⟨after, later, accepted, assigned, rfl⟩
  · rintro ⟨after, later, accepted, assigned, rfl⟩
    exact ⟨after, accepted, later, assigned, rfl⟩

variable {assignments : List Assignment} {transitions others : List Transition}

/-- The order of the transitions does not matter to the assignment. -/
theorem assignChanges_perm (equivariant : ∀ assignment ∈ assignments, Equivariant assignment.accept)
    {consumed flags : List Bool}
    (same : transitions.length = consumed.length) (same' : others.length = flags.length)
    (order : (transitions.zip consumed).Perm (others.zip flags))
    (assigned : assignChanges transitions changeIndex assignments consumed = some evidence) :
    ∃ again, assignChanges others changeIndex assignments flags = some again ∧
      evidence.Perm again := by
  induction assignments generalizing consumed flags changeIndex evidence with
  | nil =>
    unfold assignChanges at assigned ⊢
    split at assigned
    next all =>
      obtain rfl := Option.some.inj assigned
      have all' : flags.all id = true := by
        rw [List.all_eq_true] at all ⊢
        intro flag member
        obtain ⟨transition, paired⟩ : ∃ transition, (transition, flag) ∈ others.zip flags := by
          have : flag ∈ (others.zip flags).map Prod.snd := by
            rwa [List.map_snd_zip (le_of_eq same'.symm)]
          obtain ⟨⟨transition, _⟩, paired, rfl⟩ := List.mem_map.mp this
          exact ⟨transition, paired⟩
        exact all flag (List.of_mem_zip (order.mem_iff.mpr paired)).2
      exact ⟨[], if_pos all', .refl _⟩
    next => exact absurd assigned (by simp)
  | cons assignment rest ih =>
    obtain ⟨after, later, accepted, remaining, rfl⟩ := assignChanges_cons_eq_some_iff.mp assigned
    have fits := equivariant assignment List.mem_cons_self
    obtain ⟨predicate, takes⟩ := fits.takes
    obtain ⟨after', accepted'⟩ := Option.isSome_iff_exists.mp
      (fits.agrees _ _ _ _ same same' order (by rw [accepted]; rfl))
    obtain rfl := takes _ _ _ same accepted
    obtain rfl := takes _ _ _ same' accepted'
    have flagged : ((transitions.zip ((transitions.zip consumed).map (take_ predicate)))).Perm
        (others.zip ((others.zip flags).map (take_ predicate))) := by
      rw [zip_take predicate same, zip_take predicate same']
      exact order.map _
    obtain ⟨later', assigned', order'⟩ :=
      ih (fun other member => equivariant other (List.mem_cons_of_mem _ member))
        (by simp [same]) (by simp [same']) flagged remaining
    refine ⟨_, assignChanges_cons_eq_some_iff.mpr ⟨_, later', accepted', assigned', rfl⟩, ?_⟩
    rw [takenSince_take assignment changeIndex predicate same,
      takenSince_take assignment changeIndex predicate same']
    exact ((order.filter _).map _).append order'

theorem assignChanges_transitions
    (equivariant : ∀ assignment ∈ assignments, Equivariant assignment.accept)
    (same : transitions.length = consumed.length)
    (assigned : assignChanges transitions changeIndex assignments consumed = some evidence) :
    (evidence.map TransitionEvidence.toTransition).Perm
      (((transitions.zip consumed).filter fun flagged => !flagged.2).map Prod.fst) := by
  induction assignments generalizing consumed changeIndex evidence with
  | nil =>
    unfold assignChanges at assigned
    split at assigned
    next all =>
      obtain rfl := Option.some.inj assigned
      have none_open : ((transitions.zip consumed).filter fun flagged => !flagged.2) = [] := by
        rw [List.filter_eq_nil_iff]
        intro flagged member
        have := List.all_eq_true.mp all flagged.2 (List.of_mem_zip member).2
        simpa using this
      rw [none_open]
      exact .refl _
    next => exact absurd assigned (by simp)
  | cons assignment rest ih =>
    obtain ⟨after, later, accepted, remaining, rfl⟩ := assignChanges_cons_eq_some_iff.mp assigned
    obtain ⟨predicate, takes⟩ := (equivariant assignment List.mem_cons_self).takes
    obtain rfl := takes _ _ _ same accepted
    have tail := ih (fun other member => equivariant other (List.mem_cons_of_mem _ member))
      (by simp [same]) remaining
    rw [zip_take predicate same, List.filter_map, List.map_map] at tail
    rw [takenSince_take assignment changeIndex predicate same, List.map_append, List.map_map]
    -- The open files are those the change takes and those it leaves open.
    have split : ((transitions.zip consumed).filter (open_ predicate) ++
        (transitions.zip consumed).filter fun flagged => !take_ predicate flagged).Perm
        ((transitions.zip consumed).filter fun flagged => !flagged.2) := by
      have parts := List.filter_append_perm (fun flagged : Flagged => predicate flagged.1)
        ((transitions.zip consumed).filter fun flagged => !flagged.2)
      simp only [List.filter_filter] at parts
      convert parts using 2
      · refine List.filter_congr fun flagged _ => ?_
        simp [open_, Bool.and_comm]
      · refine List.filter_congr fun flagged _ => ?_
        simp [take_, Bool.and_comm]
    have joined := split.map Prod.fst
    rw [List.map_append] at joined
    exact (List.Perm.append (.refl _) tail).trans joined

theorem assignChanges_changeIndex
    (consumers : ∀ assignment ∈ assignments, Consumer assignment.accept)
    (same : transitions.length = consumed.length)
    (assigned : assignChanges transitions changeIndex assignments consumed = some evidence)
    (index : Nat) : (∃ item ∈ evidence, item.changeIndex = index) ↔
      changeIndex ≤ index ∧ index < changeIndex + assignments.length := by
  induction assignments generalizing consumed changeIndex evidence with
  | nil =>
    unfold assignChanges at assigned
    split at assigned
    next =>
      obtain rfl := Option.some.inj assigned
      simp
    next => cases assigned
  | cons assignment rest ih =>
    obtain ⟨after, later, accepted, remaining, rfl⟩ := assignChanges_cons_eq_some_iff.mp assigned
    obtain ⟨predicate, rfl, flagged, member, opened⟩ :=
      (consumers assignment List.mem_cons_self).takes_open same accepted
    have tail := ih (fun other member => consumers other (List.mem_cons_of_mem _ member))
      (by simp [same]) remaining
    have own : (∃ item ∈ takenSince assignment changeIndex transitions consumed
        ((transitions.zip consumed).map (take_ predicate)), item.changeIndex = index) ↔
        changeIndex = index := by
      rw [takenSince_take assignment changeIndex predicate same]
      constructor
      · rintro ⟨item, here, rfl⟩
        obtain ⟨_, -, rfl⟩ := List.mem_map.mp here
        rfl
      · rintro rfl
        exact ⟨_, List.mem_map.mpr ⟨flagged, List.mem_filter.mpr ⟨member, opened⟩, rfl⟩, rfl⟩
    simp only [List.mem_append, or_and_right, exists_or]
    rw [own, tail, List.length_cons]
    omega

theorem zip_untaken (transitions : List Transition) :
    transitions.zip (transitions.map fun _ => false) =
      transitions.map fun transition => (transition, false) := by
  induction transitions with
  | nil => rfl
  | cons transition rest ih => simpa using ih

theorem length_of_mapM_eq_some {α β : Type} {image : α → Option β} {items : List α}
    {images : List β} (all : items.mapM image = some images) : images.length = items.length := by
  induction items generalizing images with
  | nil =>
    cases all
    rfl
  | cons item rest ih =>
    rw [List.mapM_cons] at all
    obtain ⟨first, -, all⟩ := Option.bind_eq_some_iff.mp all
    obtain ⟨others, later, all⟩ := Option.bind_eq_some_iff.mp all
    cases all
    rw [List.length_cons, List.length_cons, ih later]

variable {scope : TransactionScope} {operation : CanonicalOperationValue} {kind : OperationKind}
  {changes : List CanonicalChange}

/-- Evidence assigns each change a consumer, whatever transitions it is derived from. -/
theorem expectedTransitionEvidenceFor_eq_some
    (expected : expectedTransitionEvidenceFor scope operation kind changes transitions =
      some evidence) :
    transitions ≠ [] ∧ ∃ assignments : List Assignment, assignments.length = changes.length ∧
      (∀ assignment ∈ assignments, Consumer assignment.accept) ∧
      ∀ others : List Transition, others ≠ [] →
        expectedTransitionEvidenceFor scope operation kind changes others =
          assignChanges others 0 assignments (others.map fun _ => false) := by
  cases scope with
  | records =>
    simp only [expectedTransitionEvidenceFor] at expected
    obtain ⟨records, all, assigned⟩ := Option.bind_eq_some_iff.mp expected
    split at assigned
    next => exact absurd assigned (by simp)
    rename_i some_files
    split at assigned
    next => exact absurd assigned (by simp)
    rename_i renames
    refine ⟨some_files, records.map (recordAssignment operation kind), ?_, ?_, ?_⟩
    · rw [List.length_map, length_of_mapM_eq_some all]
    · intro assignment member
      obtain ⟨record, _, rfl⟩ := List.mem_map.mp member
      exact .recordAssignment operation kind record
    · intro others others_files
      simp only [expectedTransitionEvidenceFor, recordTransitionEvidence, all,
        Option.bind_eq_bind, Option.bind_some, if_neg others_files, if_neg renames]
  | resources =>
    simp only [expectedTransitionEvidenceFor, resourceTransitionEvidence] at expected
    split at expected
    next => exact absurd expected (by simp)
    rename_i some_files
    refine ⟨some_files, changes.map (resourceAssignment kind), by simp, ?_, ?_⟩
    · intro assignment member
      obtain ⟨change, _, rfl⟩ := List.mem_map.mp member
      exact .acceptResource kind change
    · intro others others_files
      simp only [expectedTransitionEvidenceFor, resourceTransitionEvidence, if_neg others_files]
  | systemMigration => exact absurd expected (by simp [expectedTransitionEvidenceFor])

theorem expectedTransitionEvidenceFor_transitions
    (expected : expectedTransitionEvidenceFor scope operation kind changes transitions =
      some evidence) :
    (evidence.map TransitionEvidence.toTransition).Perm transitions := by
  obtain ⟨some_files, assignments, -, consumers, same⟩ :=
    expectedTransitionEvidenceFor_eq_some expected
  rw [same transitions some_files] at expected
  have taken := assignChanges_transitions
    (fun assignment member => (consumers assignment member).equivariant) (by simp) expected
  have untaken : ((transitions.map fun transition => (transition, false)).filter
      fun flagged => !flagged.2) = transitions.map fun transition => (transition, false) :=
    List.filter_eq_self.mpr (by simp)
  rw [zip_untaken, untaken, List.map_map] at taken
  simpa [Function.comp_def] using taken

theorem expectedTransitionEvidenceFor_perm
    (expected : expectedTransitionEvidenceFor scope operation kind changes transitions =
      some evidence) (order : transitions.Perm others) :
    ∃ again, expectedTransitionEvidenceFor scope operation kind changes others = some again ∧
      evidence.Perm again := by
  obtain ⟨some_files, assignments, -, consumers, same⟩ :=
    expectedTransitionEvidenceFor_eq_some expected
  have others_files : others ≠ [] := by
    rintro rfl
    exact some_files order.eq_nil
  rw [same transitions some_files] at expected
  rw [same others others_files]
  refine assignChanges_perm (fun assignment member => (consumers assignment member).equivariant)
    (by simp) (by simp) ?_ expected
  rw [zip_untaken, zip_untaken]
  exact order.map _

theorem revisionKey_injective : Function.Injective revisionKey := by
  intro left right same
  cases left <;> cases right <;> simp_all [revisionKey]

theorem TransitionRole.code_injective : Function.Injective TransitionRole.code := by
  intro left right same
  cases left <;> cases right <;> simp_all [TransitionRole.code]

theorem TransitionEvidence.sortKey_injective : Function.Injective TransitionEvidence.sortKey := by
  intro left right same
  simp only [TransitionEvidence.sortKey, EmbeddingLike.apply_eq_iff_eq, Prod.mk.injEq] at same
  obtain ⟨path, before, after, operation, changeIndex, role⟩ := same
  have before := revisionKey_injective before
  have after := revisionKey_injective after
  have operation := OperationKind.debugName_injective operation
  have role := TransitionRole.code_injective role
  obtain ⟨⟨_, _, _⟩, _, _, _⟩ := left
  obtain ⟨⟨_, _, _⟩, _, _, _⟩ := right
  simp_all

theorem sortTransitionEvidence_eq_iff {left right : List TransitionEvidence} :
    sortTransitionEvidence left = sortTransitionEvidence right ↔ left.Perm right := by
  have : Std.Total fun left right : TransitionEvidence => left.sortKey ≤ right.sortKey :=
    ⟨fun left right => le_total left.sortKey right.sortKey⟩
  have : IsTrans TransitionEvidence fun left right => left.sortKey ≤ right.sortKey :=
    ⟨fun _ _ _ => le_trans⟩
  constructor
  · intro same
    have sorted : (sortTransitionEvidence left).Perm left := List.perm_insertionSort _ left
    have sorted' : (sortTransitionEvidence right).Perm right := List.perm_insertionSort _ right
    exact sorted.symm.trans (same ▸ sorted')
  · intro order
    refine List.Perm.eq_of_pairwise ?_ (List.pairwise_insertionSort _ left)
      (List.pairwise_insertionSort _ right)
      ((List.perm_insertionSort _ left).trans (order.trans (List.perm_insertionSort _ right).symm))
    intro first second _ _ below above
    exact TransitionEvidence.sortKey_injective (le_antisymm below above)

/-- The evidence of a journal has every file once, names every change, and is found again from
the files that it lists itself. -/
theorem transitionEvidence_bijective {scope : TransactionScope}
    {operation : CanonicalOperationValue} {kind : OperationKind} {changes : List CanonicalChange}
    {transitions : List Transition} {evidence : List TransitionEvidence}
    (expected : expectedTransitionEvidenceFor scope operation kind changes transitions =
      some evidence) :
    (evidence.map TransitionEvidence.toTransition).Perm transitions ∧
      (∀ index, (∃ item ∈ evidence, item.changeIndex = index) ↔ index < changes.length) ∧
      ∃ again, expectedTransitionEvidenceFor scope operation kind changes
          (evidence.map TransitionEvidence.toTransition) = some again ∧
        sortTransitionEvidence again = sortTransitionEvidence evidence := by
  have files := expectedTransitionEvidenceFor_transitions expected
  refine ⟨files, fun index => ?_, ?_⟩
  · obtain ⟨some_files, assignments, length, consumers, same⟩ :=
      expectedTransitionEvidenceFor_eq_some expected
    rw [same transitions some_files] at expected
    rw [assignChanges_changeIndex consumers (by simp) expected, Nat.zero_add, length]
    exact and_iff_right (Nat.zero_le index)
  · obtain ⟨again, derived, order⟩ := expectedTransitionEvidenceFor_perm expected files.symm
    exact ⟨again, derived, sortTransitionEvidence_eq_iff.mpr order.symm⟩

/-- The evidence of a rename that rewrites a record with a link, whose files are listed in another
order. -/
theorem transitionEvidence_bijective_rename :
    let renamed : RecordChange := {
      kind := .renamed
      path := "b.md"
      source := some "a.md"
      beforeRevision := some "1"
      afterRevision := some "2"
      beforeTypes := []
      afterTypes := []
      changedFields := []
      bodyChanged := false }
    let referrer : RecordChange := { renamed with
      kind := .updated
      path := "c.md"
      source := none
      bodyChanged := true }
    let operation := .rename (some (.renamed "a.md" "b.md" ⟨"b.md", 3, "", .null⟩))
    let transitions : List Transition :=
      [⟨"c.md", some "1", some "2"⟩, ⟨"b.md", none, some "2"⟩, ⟨"a.md", some "1", none⟩]
    ∃ evidence, (evidence.map TransitionEvidence.toTransition).Perm transitions ∧
      (∀ index, (∃ item ∈ evidence, item.changeIndex = index) ↔ index < 2) ∧
      ∃ again, expectedTransitionEvidenceFor .records operation .rename
          [.record renamed, .record referrer] (evidence.map TransitionEvidence.toTransition) =
            some again ∧
        sortTransitionEvidence again = sortTransitionEvidence evidence := by
  intro renamed referrer operation transitions
  have expected : expectedTransitionEvidenceFor .records operation .rename
      [.record renamed, .record referrer] transitions = some [
        ⟨⟨"b.md", none, some "2"⟩, .rename, 0, .renameDestination⟩,
        ⟨⟨"a.md", some "1", none⟩, .rename, 0, .renameSource⟩,
        ⟨⟨"c.md", some "1", some "2"⟩, .rename, 1, .direct⟩] := by decide +kernel
  exact ⟨_, transitionEvidence_bijective expected⟩

end Mdbase.Transactions
