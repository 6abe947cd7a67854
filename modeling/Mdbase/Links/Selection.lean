import Mdbase.Library.Comparison
import Mdbase.Links.CollectionPath
import Mdbase.Query.HostedReduction

/-!
# The selection among candidates

A name can belong to several records. Records that share a file name are ranked: first
those beside the source, then the ones closest to the root, then by their paths. Records
that share an id or a title are ambiguous.
-/

namespace Mdbase.Links

open Library
open Mdbase.Query (CatalogError)

/-- `RecordResolutionKeyKind`. -/
inductive RecordResolutionKeyKind where
  | path
  | basename
  | id
  | title
  deriving DecidableEq

/-- `ResolutionCandidateIdentity`. -/
structure ResolutionCandidateIdentity where
  recordId : String
  path : String
  deriving DecidableEq

/-- `ResolutionReason`. -/
inductive ResolutionReason where
  | configuredId
  | onlyCandidate
  | exactPath
  | sameDirectory
  | shallowestPath
  | lexicalTieBreak
  deriving DecidableEq

/-- `RankedResolution`. -/
inductive RankedResolution where
  | missing
  | resolved (recordId path : String) (reason : ResolutionReason)
      (selectedKind : RecordResolutionKeyKind) (candidateCount : Nat) (candidateDigest : String)
      (alternatives : List String) (alternativeCandidates : List ResolutionCandidateIdentity)
  | ambiguous (paths : List String)
  deriving DecidableEq

/-- The libraries that name lookups rest on. -/
structure ResolutionLibrary where
  /-- `str::to_lowercase`. -/
  toLowercase : String → String
  /-- The text of `digest_candidate_identities` for the kind and the ordered candidates. -/
  digest : RecordResolutionKeyKind → List ResolutionCandidateIdentity → Except CatalogError String

/-- `MAX_RESOLUTION_CANDIDATES`. -/
def maxResolutionCandidates : Nat := 16384

/-- `invalid_candidate_error`. -/
def invalidCandidateError : CatalogError where
  code := "invalid_resolution_candidate"
  message := "The authority returned an invalid relationship candidate."

/-- `resolution_budget_error`. -/
def resolutionBudgetError (kind : String) : CatalogError where
  code := "relationship_budget_exceeded"
  message := "The record exceeds the bounded " ++ kind ++ " budget."

/-- A candidate joins the others; a record has one path and a path has one record. -/
def addCandidate (found : List ResolutionCandidateIdentity)
    (candidate : ResolutionCandidateIdentity) :
    Except CatalogError (List ResolutionCandidateIdentity) :=
  if candidate.recordId.isEmpty then .error invalidCandidateError
  else
    match collectionPath candidate.path with
    | .error _ => .error invalidCandidateError
    | .ok path =>
      if found.any fun other => other.recordId = candidate.recordId ∧ other.path ≠ path then
        .error invalidCandidateError
      else if found.any fun other =>
          other.path = path ∧ other.recordId ≠ candidate.recordId then
        .error invalidCandidateError
      else if found.any fun other => other.path = path then .ok found
      else .ok (found ++ [⟨candidate.recordId, path⟩])

/-- The order of candidates by path. -/
def comparePath (left right : ResolutionCandidateIdentity) : Ordering :=
  (compare left.path right.path).then (compare left.recordId right.recordId)

/-- `false` before `true`. -/
def compareBool (left right : Bool) : Ordering := compare left.toNat right.toNat

/-- Is a path in another directory than the source? -/
def isElsewhere (sourceDirectory : Text) (path : String) : Bool := directory path ≠ sourceDirectory

/-- The order of candidates for a file name. -/
def compareRank (sourceDirectory : Text) (left right : ResolutionCandidateIdentity) : Ordering :=
  (compareBool (isElsewhere sourceDirectory left.path)
      (isElsewhere sourceDirectory right.path)).then
    ((compare (depth left.path) (depth right.path)).then (comparePath left right))

/-- Why the first of several ranked candidates is selected. -/
def rankedReason (sourceDirectory : Text) (candidates : List ResolutionCandidateIdentity) :
    ResolutionReason :=
  if candidates.length = 1 then .onlyCandidate
  else
    let beside := candidates.filter fun candidate => !isElsewhere sourceDirectory candidate.path
    if beside.length = 1 then .sameDirectory
    else
      let preferred := if beside.isEmpty then candidates else beside
      let depths : List Nat :=
        (preferred.map fun candidate => depth candidate.path).insertionSort (· ≤ ·)
      if depths.head? ≠ depths.tail.head? then .shallowestPath else .lexicalTieBreak

/-- Why the one candidate of a kind is selected. -/
def onlyReason : RecordResolutionKeyKind → ResolutionReason
  | .id => .configuredId
  | .path => .exactPath
  | .basename | .title => .onlyCandidate

/-- The resolution to the first of the ranked candidates, with the others in the order of
their paths. -/
def resolvedTo (library : ResolutionLibrary) (kind : RecordResolutionKeyKind)
    (reason : ResolutionReason) (winner : ResolutionCandidateIdentity)
    (losers : List ResolutionCandidateIdentity) : Except CatalogError RankedResolution :=
  let alternatives := sortBy comparePath losers
  match library.digest kind (winner :: alternatives) with
  | .error error => .error error
  | .ok digest =>
    .ok (.resolved winner.recordId winner.path reason kind (losers.length + 1) digest
      (alternatives.map (·.path)) alternatives)

/-- The selection among distinct candidates in the order of their paths. -/
def selectAmong (library : ResolutionLibrary) (sourceDirectory : Text)
    (kind : RecordResolutionKeyKind) (candidates : List ResolutionCandidateIdentity) :
    Except CatalogError RankedResolution :=
  if candidates.isEmpty then .ok .missing
  else if candidates.length > maxResolutionCandidates then
    .error (resolutionBudgetError "resolution candidate")
  else
    match kind with
    | .basename =>
      match sortBy (compareRank sourceDirectory) candidates with
      | [] => .ok .missing
      | winner :: losers =>
        resolvedTo library kind (rankedReason sourceDirectory candidates) winner losers
    | kind =>
      match candidates with
      | [winner] => resolvedTo library kind (onlyReason kind) winner []
      | candidates => .ok (.ambiguous (candidates.map (·.path)))

/-- `select_resolution_candidate`. -/
def selectResolutionCandidate (library : ResolutionLibrary) (sourcePath : String)
    (kind : RecordResolutionKeyKind) (candidates : List ResolutionCandidateIdentity) :
    Except CatalogError RankedResolution :=
  match collectionPath sourcePath with
  | .error _ => .error invalidCandidateError
  | .ok source =>
    match candidates.foldlM addCandidate [] with
    | .error error => .error error
    | .ok found => selectAmong library (directory source) kind (sortBy comparePath found)

end Mdbase.Links
