import Mdbase.Provider.Change

/-!
# Operation outcomes

A transaction keeps the outcome of its operation until the host has seen it. The outcome
is typed: its value belongs to one operation, and a valid outcome has a value.
-/

namespace Mdbase.Transactions

open Mdbase.Runtime (Value)

/-- `OperationKind`. -/
inductive OperationKind where
  | read
  | query
  | listViews
  | executeView
  | readViewSource
  | createViewSource
  | updateViewSource
  | deleteViewSource
  | validate
  | batch
  | create
  | update
  | delete
  | rename
  | listTypes
  | readType
  | createType
  | updateType
  | assessTypePack
  | applyTypePack
  | assessCollectionSetup
  | applyCollectionSetup
  deriving DecidableEq

/-- The name that `Debug` prints. -/
def OperationKind.debugName : OperationKind → String
  | .read => "Read"
  | .query => "Query"
  | .listViews => "ListViews"
  | .executeView => "ExecuteView"
  | .readViewSource => "ReadViewSource"
  | .createViewSource => "CreateViewSource"
  | .updateViewSource => "UpdateViewSource"
  | .deleteViewSource => "DeleteViewSource"
  | .validate => "Validate"
  | .batch => "Batch"
  | .create => "Create"
  | .update => "Update"
  | .delete => "Delete"
  | .rename => "Rename"
  | .listTypes => "ListTypes"
  | .readType => "ReadType"
  | .createType => "CreateType"
  | .updateType => "UpdateType"
  | .assessTypePack => "AssessTypePack"
  | .applyTypePack => "ApplyTypePack"
  | .assessCollectionSetup => "AssessCollectionSetup"
  | .applyCollectionSetup => "ApplyCollectionSetup"

/-- The operations, in the order of their declaration. -/
def OperationKind.all : List OperationKind :=
  [.read, .query, .listViews, .executeView, .readViewSource, .createViewSource,
    .updateViewSource, .deleteViewSource, .validate, .batch, .create, .update, .delete, .rename,
    .listTypes, .readType, .createType, .updateType, .assessTypePack, .applyTypePack,
    .assessCollectionSetup, .applyCollectionSetup]

theorem OperationKind.find_debugName (kind : OperationKind) :
    OperationKind.all.find? (fun other => other.debugName = kind.debugName) = some kind := by
  cases kind <;> decide +kernel

theorem OperationKind.debugName_injective : Function.Injective OperationKind.debugName := by
  intro left right same
  have found := left.find_debugName
  rw [same, right.find_debugName] at found
  exact (Option.some.inj found).symm

/-- `Diagnostic`, with the members that a commit conflict fills in. -/
structure Diagnostic where
  code : String
  message : String
  path : Option String
  deriving DecidableEq

/-- `RecordDocument`: its path, the facts of its file and the rest of it. -/
structure RecordDocument where
  path : String
  size : Nat
  mtime : String
  content : Value
  deriving DecidableEq

/-- `BatchOperationResult`. -/
inductive BatchOperationResult where
  | rename (source target : String) (document : RecordDocument)
  | renamePreflight (result : Value)
  | deletePreflight (result : Value)
  | record (document : RecordDocument)
  | delete (path : String) (result : Value)
  | empty
  deriving DecidableEq

/-- `BatchItemResult`. -/
structure BatchItemResult where
  kind : String
  valid : Bool
  result : BatchOperationResult
  diagnostics : List Diagnostic
  deriving DecidableEq

/-- `CanonicalRenameValue`. -/
inductive CanonicalRenameValue where
  | renamed (source target : String) (document : RecordDocument)
  | preflight (result : Value)
  deriving DecidableEq

/-- `WireOnlyOperationValue`. -/
inductive WireOnlyOperationValue where
  | validation (result : Value)
  | viewResource (result : Value)
  | typeResource (result : Value)
  deriving DecidableEq

/-- `OperationResult`, the outcome of protocol version 0.3. -/
structure OperationResult where
  valid : Bool
  result : Value
  diagnostics : List Diagnostic
  deriving DecidableEq

/-- `CanonicalOperationValue`. -/
inductive CanonicalOperationValue where
  | read (record : Option RecordDocument)
  | readMany (result : Option Value)
  | query (result : Option Value)
  | create (record : Option RecordDocument)
  | update (record : Option RecordDocument)
  | delete (result : Option Value)
  | rename (result : Option CanonicalRenameValue)
  | batch (operations : Option (List BatchItemResult))
  | assessTypePack (result : Option Value)
  | applyTypePack (result : Option Value)
  | assessCollectionSetup (result : Option Value)
  | applyCollectionSetup (result : Option Value)
  | viewResourceMutation (operation : OperationKind) (result : Value)
  | typeResourceMutation (operation : OperationKind) (result : Value)
  | cursorRelease (released : Bool)
  | wireOnly (value : WireOnlyOperationValue)
  | legacyRecoveredV03 (result : OperationResult)
  deriving DecidableEq

end Mdbase.Transactions
