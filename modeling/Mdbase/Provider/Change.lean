import Mdbase.Runtime.Value

/-!
# Canonical changes

The provider describes the effect of a mutation or of an observed edit as a batch of
canonical changes: at most one for each target, in the order of the targets.
-/

namespace Mdbase.Provider

open Mdbase.Runtime (u64Max)

/-- `CaptureLimitKind`. -/
inductive CaptureLimitKind where
  | entries
  | fileBytes
  | aggregateBytes
  | depth
  | resourceEntries
  | retainedBytes
  | arithmeticOverflow
  deriving DecidableEq

/-- `ProviderError`, as far as the feed and the pinned reads use it. -/
inductive ProviderError where
  | operationCancelled
  | operationDeadline
  | captureLimitExceeded (kind : CaptureLimitKind) (limit attempted : Nat)
  | generationExhausted
  | watermarkExhausted
  | invalidChangeSet (message : String)
  | transaction (code message : String)
  | changeFeedOwned
  | changeFeedFenced
  | invalidChangeFeedAck
  | changeFeedRetentionGap
  | changeFeedTransferMismatch
  | changeFeedCapacityExhausted
  | cursorCapacityExhausted
  | generationExpired
  | invalidReadCursor
  deriving DecidableEq

/-- `OperationStopReason`. -/
inductive OperationStopReason where
  | cancelled
  | deadline
  deriving DecidableEq

/-- An `OperationContext`, by the reason to stop, if any, that each of its checks finds. -/
abbrev Context := Nat → Option OperationStopReason

/-- `context.check()`, for the check with the given number. -/
def Context.check (context : Context) (number : Nat) : Except ProviderError Unit :=
  match context number with
  | some .cancelled => .error .operationCancelled
  | some .deadline => .error .operationDeadline
  | none => .ok ()

/-- A context that is neither cancelled nor late. -/
def Context.Open (context : Context) : Prop := ∀ number, context number = none

theorem Context.Open.check {context : Context} (open_ : context.Open) (number : Nat) :
    context.check number = .ok () := by
  simp [Context.check, open_ number]

/-- `saturating_add(1)` on `u64`. -/
def saturatingSucc (value : Nat) : Nat := min (value + 1) u64Max

/-- `checked_add(1)` on `u64`. -/
def checkedSucc (value : Nat) : Option Nat := if value < u64Max then some (value + 1) else none

/-- `CollectionGeneration`. -/
structure CollectionGeneration where
  runtimeEpoch : String
  sequence : Nat
  deriving DecidableEq, Inhabited

/-- `CollectionGeneration::successor`. -/
def CollectionGeneration.successor (generation : CollectionGeneration) :
    Except ProviderError CollectionGeneration :=
  match checkedSucc generation.sequence with
  | some sequence => .ok { generation with sequence := sequence }
  | none => .error .generationExhausted

/-- `RecordChangeKind`. -/
inductive RecordChangeKind where
  | created
  | updated
  | deleted
  | renamed
  deriving DecidableEq

/-- `RecordChange`. -/
structure RecordChange where
  kind : RecordChangeKind
  path : String
  source : Option String
  beforeRevision : Option String
  afterRevision : Option String
  beforeTypes : List String
  afterTypes : List String
  changedFields : List String
  bodyChanged : Bool
  deriving DecidableEq

/-- `ResourceChangeKind`. -/
inductive ResourceChangeKind where
  | configuration
  | typeDefinition
  | contract
  | viewSource
  | file
  | other
  deriving DecidableEq

/-- `ResourceChange`. -/
structure ResourceChange where
  kind : ResourceChangeKind
  path : String
  beforeRevision : Option String
  afterRevision : Option String
  deriving DecidableEq

/-- `CanonicalChange`. -/
inductive CanonicalChange where
  | record (change : RecordChange)
  | resource (change : ResourceChange)
  deriving DecidableEq

/-- `RecordChangeKind as u8`. -/
def RecordChangeKind.code : RecordChangeKind → Nat
  | .created => 0
  | .updated => 1
  | .deleted => 2
  | .renamed => 3

/-- `ResourceChangeKind as u8`. -/
def ResourceChangeKind.code : ResourceChangeKind → Nat
  | .configuration => 0
  | .typeDefinition => 1
  | .contract => 2
  | .viewSource => 3
  | .file => 4
  | .other => 5

/-- `ordering_key`. -/
def CanonicalChange.orderingKey : CanonicalChange → Nat ×ₗ String ×ₗ WithBot String ×ₗ Nat
  | .record change => toLex (0, toLex (change.path, toLex
      (match change.source with
        | some source => (source : WithBot String)
        | none => ⊥, change.kind.code)))
  | .resource change => toLex (1 + change.kind.code, toLex (change.path, toLex (⊥, 0)))

/-- The key of the first change is below that of the second. -/
def CanonicalChange.Below (left right : CanonicalChange) : Prop :=
  left.orderingKey < right.orderingKey

instance (left right : CanonicalChange) : Decidable (left.Below right) :=
  inferInstanceAs (Decidable (_ < _))

/-- `ChangeBatch`: changes in the order of their keys, which are all different. Its
descriptor is a function of the changes. -/
structure ChangeBatch where
  items : List CanonicalChange
  ordered : items.Pairwise CanonicalChange.Below

instance : DecidableEq ChangeBatch := fun left right =>
  decidable_of_iff (left.items = right.items)
    ⟨fun same => by cases left; cases right; cases same; rfl, fun same => same ▸ rfl⟩

/-- `ChangeBatch::new`. Sorted changes have equal neighbours exactly when they are not
all below those after them. -/
def ChangeBatch.new (items : List CanonicalChange) : Except ProviderError ChangeBatch :=
  let sorted := items.insertionSort fun left right => left.orderingKey ≤ right.orderingKey
  if ordered : sorted.Pairwise CanonicalChange.Below then .ok ⟨sorted, ordered⟩
  else .error (.invalidChangeSet
    "a canonical change batch contains duplicate target identities")

theorem ChangeBatch.new_items (batch : ChangeBatch) : ChangeBatch.new batch.items = .ok batch := by
  have sorted : batch.items.insertionSort (fun left right => left.orderingKey ≤ right.orderingKey) =
      batch.items := by
    refine List.Pairwise.insertionSort_eq (batch.ordered.imp ?_)
    exact fun below => le_of_lt below
  unfold ChangeBatch.new
  simp only [sorted, batch.ordered, dite_true]

/-- `RebuildReason`. -/
inductive RebuildReason where
  | recoveryReconciliation
  | externalChangeUncertain
  | controlResourceChange
  | changeFeedRetentionGap
  deriving DecidableEq

/-- `ChangeSet`. -/
inductive ChangeSet where
  | none
  | exact (batch : ChangeBatch)
  | collectionWide (reason : RebuildReason)
  deriving DecidableEq

/-- `ChangeOrigin`. -/
inductive ChangeOrigin where
  | knownMutation
  | filesystem
  | recoveryReconciliation
  deriving DecidableEq

/-- `RuntimeChangeEvent`, with the members of its identity. -/
structure RuntimeChangeEvent where
  id : String
  watermark : Nat
  generation : CollectionGeneration
  changes : ChangeSet
  origin : ChangeOrigin
  commitId : Option String
  deriving DecidableEq

end Mdbase.Provider
