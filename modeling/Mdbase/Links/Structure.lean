import Mdbase.Links.Resolution

/-!
# The resolution of record structures

The links of a record are looked up in an index that the catalogue does not hold: it plans
the lookups of every occurrence, an authority answers them with rows, and the rows of the
lowest priority are resolved. A resolved occurrence carries the evidence of its selection,
which is checked again when a stored structure is read.
-/

namespace Mdbase.Links

open Library
open Mdbase.Query (CatalogError eqIgnoreAsciiCase)

/-- `StructuralLinkKind`. -/
inductive StructuralLinkKind where
  | wikilink
  | markdownLink
  | wikilinkEmbed
  | markdownImage
  | path
  deriving DecidableEq

/-- `StructuralResolution`. -/
inductive StructuralResolution where
  | unresolved
  | resolved
  | missing
  | ambiguous
  | unsafeTraversal
  | external
  | malformed
  deriving DecidableEq

/-- `StructuralOccurrence`, as far as resolution reads it. -/
structure StructuralOccurrence where
  ordinal : Nat
  kind : StructuralLinkKind
  rawTarget : String
  normalizedTarget : Option String
  relative : Bool
  resolution : StructuralResolution
  deriving DecidableEq

/-- `RecordStructure`, as far as resolution reads it: facts of a canonical path. -/
structure RecordStructure where
  schemaVersion : String
  path : String
  occurrences : List StructuralOccurrence
  structuralDigest : String
  canonical : collectionPath path = .ok path

/-- `ResolutionLookupKey`. -/
structure ResolutionLookupKey where
  priority : Nat
  kind : RecordResolutionKeyKind
  value : String
  deriving DecidableEq

/-- `OccurrenceResolutionLookup`. -/
structure OccurrenceResolutionLookup where
  occurrenceOrdinal : Nat
  alternatives : List ResolutionLookupKey
  deriving DecidableEq

/-- `RecordResolutionPlan`. -/
structure RecordResolutionPlan where
  structureSchemaVersion : String
  sourcePath : String
  structuralDigest : String
  lookups : List OccurrenceResolutionLookup
  deriving DecidableEq

/-- `MAX_STRUCTURAL_OCCURRENCES`. -/
def maxStructuralOccurrences : Nat := 4096

/-- `MAX_RESOLUTION_LOOKUPS`. -/
def maxResolutionLookups : Nat := 16384

/-- The place of a kind in the order of lookups. -/
def RecordResolutionKeyKind.rank : RecordResolutionKeyKind → Nat
  | .path => 0
  | .basename => 1
  | .id => 2
  | .title => 3

/-- The order of lookups. -/
def compareLookups (left right : ResolutionLookupKey) : Ordering :=
  (compare left.priority right.priority).then
    ((compare left.kind.rank right.kind.rank).then (compare left.value right.value))

/-- Is an occurrence a wikilink to a plain name? -/
def StructuralOccurrence.isSimpleWikilink (occurrence : StructuralOccurrence) : Bool :=
  (occurrence.kind = .wikilink ∨ occurrence.kind = .wikilinkEmbed) ∧ !occurrence.relative ∧
    '/' ∉ occurrence.rawTarget.toList ∧ !hasExtension occurrence.rawTarget

/-- The lookups of a name from a priority on. -/
def nameLookups (first : Nat) (name : String) : List ResolutionLookupKey :=
  [⟨first, .id, name⟩, ⟨first + 1, .basename, name⟩, ⟨first + 2, .title, name⟩]

/-- `resolution_lookup_alternatives`. -/
def resolutionLookupAlternatives (library : ResolutionLibrary) (extensions : List String)
    (target : String) : List ResolutionLookupKey :=
  (sortBy compareLookups
    ([⟨0, .path, target⟩] ++
      (if hasExtension target then []
      else extensions.map fun extension => ⟨1, .path, target ++ "." ++ extension⟩) ++
      (if '/' ∈ target.toList then []
      else nameLookups 2 (library.toLowercase target)))).dedup

/-- `resolution_lookup_alternatives_for_occurrence`. -/
def alternativesForOccurrence (library : ResolutionLibrary) (extensions : List String)
    (occurrence : StructuralOccurrence) (target : String) : List ResolutionLookupKey :=
  if occurrence.isSimpleWikilink then nameLookups 0 (library.toLowercase target)
  else resolutionLookupAlternatives library extensions target

/-- The lookups of an occurrence that is not resolved. -/
def lookupOf (library : ResolutionLibrary) (extensions : List String)
    (occurrence : StructuralOccurrence) : Option OccurrenceResolutionLookup :=
  if occurrence.resolution ≠ .unresolved then none
  else
    occurrence.normalizedTarget.map fun target =>
      { occurrenceOrdinal := occurrence.ordinal
        alternatives := alternativesForOccurrence library extensions occurrence target }

/-- `plan_record_resolution`; `extensions` are those of `record_extensions`. -/
def planRecordResolution (library : ResolutionLibrary) (extensions : List String)
    (structure_ : RecordStructure) : Except CatalogError RecordResolutionPlan :=
  if structure_.occurrences.length > maxStructuralOccurrences then
    .error (resolutionBudgetError "structural occurrence")
  else
    let lookups := structure_.occurrences.filterMap (lookupOf library extensions)
    if (lookups.map fun lookup => lookup.alternatives.length).sum > maxResolutionLookups then
      .error (resolutionBudgetError "resolution lookup")
    else
      .ok
        { structureSchemaVersion := structure_.schemaVersion
          sourcePath := structure_.path
          structuralDigest := structure_.structuralDigest
          lookups := lookups }

/-- `ResolutionCandidate`: a row that an authority returns for a planned lookup. -/
structure ResolutionCandidate where
  occurrenceOrdinal : Nat
  lookup : ResolutionLookupKey
  recordId : String
  path : String
  deriving DecidableEq

/-- The record that a row names. -/
def ResolutionCandidate.identity (candidate : ResolutionCandidate) :
    ResolutionCandidateIdentity :=
  ⟨candidate.recordId, candidate.path⟩

/-- `ResolvedStructuralOccurrence`. -/
structure ResolvedStructuralOccurrence where
  occurrence : StructuralOccurrence
  resolution : StructuralResolution
  targetRecordId : Option String := none
  targetPath : Option String := none
  ambiguousPaths : List String := []
  reason : Option ResolutionReason := none
  selectedLookup : Option ResolutionLookupKey := none
  candidateCount : Nat := 0
  candidateDigest : Option String := none
  alternatives : List String := []
  alternativeCandidates : List ResolutionCandidateIdentity := []
  deriving DecidableEq

/-- `ResolvedRecordStructure`. -/
structure ResolvedRecordStructure where
  schemaVersion : String
  path : String
  structuralDigest : String
  occurrences : List ResolvedStructuralOccurrence
  deriving DecidableEq

/-- The rows of an occurrence that have its lowest priority. -/
def lowestRows (candidates : List ResolutionCandidate) (ordinal : Nat) :
    List ResolutionCandidate :=
  let rows := candidates.filter fun candidate => candidate.occurrenceOrdinal = ordinal
  rows.filter fun row => rows.all fun other => row.lookup.priority ≤ other.lookup.priority

/-- The lookup of an occurrence in a plan. -/
def RecordResolutionPlan.lookupFor (plan : RecordResolutionPlan) (ordinal : Nat) :
    List ResolutionLookupKey :=
  ((plan.lookups.find? fun lookup => lookup.occurrenceOrdinal = ordinal).map
    (·.alternatives)).getD []

/-- The order of a `BTreeSet` of records and paths. -/
def compareIdentities (left right : ResolutionCandidateIdentity) : Ordering :=
  (compare left.recordId right.recordId).then (compare left.path right.path)

/-- The lookup that the evidence names: for a path the alternative that matched. -/
def evidenceLookup (alternatives : List ResolutionLookupKey) (selected : ResolutionLookupKey) :
    RankedResolution → ResolutionLookupKey
  | .resolved _ path .. =>
    (alternatives.find? fun alternative =>
      alternative.priority = selected.priority ∧ alternative.kind = .path ∧
        alternative.value = path).getD selected
  | .missing | .ambiguous _ => selected

/-- The occurrence with the outcome of its resolution. -/
def withOutcome (occurrence : StructuralOccurrence) (lookup : Option ResolutionLookupKey) :
    RankedResolution → ResolvedStructuralOccurrence
  | .missing => { occurrence := occurrence, resolution := .missing }
  | .resolved recordId path reason _ candidateCount candidateDigest alternatives
        alternativeCandidates =>
      { occurrence := occurrence
        resolution := .resolved
        targetRecordId := some recordId
        targetPath := some path
        reason := some reason
        selectedLookup := lookup
        candidateCount := candidateCount
        candidateDigest := some candidateDigest
        alternatives := alternatives
        alternativeCandidates := alternativeCandidates }
  | .ambiguous paths =>
    { occurrence := occurrence, resolution := .ambiguous, ambiguousPaths := paths }

/-- One occurrence is resolved by its rows. -/
def resolveOccurrence (library : ResolutionLibrary) (sourcePath : String)
    (plan : RecordResolutionPlan) (candidates : List ResolutionCandidate)
    (occurrence : StructuralOccurrence) : Except CatalogError ResolvedStructuralOccurrence :=
  if occurrence.resolution ≠ .unresolved then
    .ok { occurrence := occurrence, resolution := occurrence.resolution }
  else
    match lowestRows candidates occurrence.ordinal with
    | [] => .ok (withOutcome occurrence none .missing)
    | row :: rows =>
      let alternatives := plan.lookupFor occurrence.ordinal
      match alternatives.find? fun alternative =>
        alternative.priority = row.lookup.priority with
      | none =>
        .error
          { code := "invalid_resolution_plan"
            message := "The relationship-resolution plan does not define the returned priority." }
      | some selected =>
        (selectResolutionCandidate library sourcePath selected.kind
          (sortBy compareIdentities ((row :: rows).map (·.identity)).dedup)).map
            fun resolution =>
              withOutcome occurrence (some (evidenceLookup alternatives selected resolution))
                resolution

/-- `resolve_record_structure`. -/
def resolveRecordStructure (library : ResolutionLibrary) (structure_ : RecordStructure)
    (plan : RecordResolutionPlan) (candidates : List ResolutionCandidate) :
    Except CatalogError ResolvedRecordStructure :=
  if plan.structureSchemaVersion ≠ structure_.schemaVersion ∨
      plan.sourcePath ≠ structure_.path ∨
        plan.structuralDigest ≠ structure_.structuralDigest then
    .error
      { code := "resolution_plan_mismatch"
        message := "The relationship-resolution plan does not bind this record structure." }
  else if candidates.length > maxResolutionCandidates then
    .error (resolutionBudgetError "resolution candidate")
  else if ¬(plan.lookups.map (·.occurrenceOrdinal)).Nodup then
    .error
      { code := "invalid_resolution_plan"
        message := "The relationship-resolution plan repeats an occurrence ordinal." }
  else if candidates.any fun candidate =>
      candidate.lookup ∉ plan.lookupFor candidate.occurrenceOrdinal then
    .error
      { code := "unplanned_resolution_candidate"
        message := "The authority returned a relationship candidate outside the closed " ++
          "lookup plan." }
  else
    (structure_.occurrences.mapM
      (resolveOccurrence library structure_.path plan candidates)).map fun occurrences =>
        { schemaVersion := structure_.schemaVersion
          path := structure_.path
          structuralDigest := structure_.structuralDigest
          occurrences := occurrences }

/-- The text of a file stem. -/
def stemText (path : String) : Option String := (fileStem path).map String.ofList

/-- Is a path that of a file with the name that an occurrence links to? -/
def basenameEligible (occurrence : StructuralOccurrence) (path : String) : Bool :=
  (stemText path).any (eqIgnoreAsciiCase · occurrence.rawTarget)

/-- `MAX_RESOLUTION_ALTERNATIVES`. -/
def maxResolutionAlternatives : Nat := maxResolutionCandidates - 1

/-- The checks of the recorded candidates that do not depend on the reason. -/
def candidatesAreProven (library : ResolutionLibrary) (resolved : ResolvedStructuralOccurrence)
    (lookup : ResolutionLookupKey) (winner : ResolutionCandidateIdentity)
    (boundDigest : String) : Bool :=
  resolved.candidateCount = resolved.alternativeCandidates.length + 1 ∧
    resolved.candidateCount ≤ maxResolutionCandidates ∧
      resolved.alternatives = resolved.alternativeCandidates.map (·.path) ∧
        resolved.alternativeCandidates.IsChain (fun left right =>
          comparePath left right = .lt) ∧
          (∀ candidate ∈ winner :: resolved.alternativeCandidates,
            !candidate.recordId.isEmpty ∧ (collectionPath candidate.path).toOption.isSome) ∧
            ((winner :: resolved.alternativeCandidates).map (·.recordId)).Nodup ∧
              ((winner :: resolved.alternativeCandidates).map (·.path)).Nodup ∧
                (library.digest lookup.kind (winner :: resolved.alternativeCandidates)).toOption =
                  some boundDigest

/-- The order of a winner and a loser by `winner_rank` and `loser_rank`. -/
def comparePaths (sourceDirectory : Text) (left right : String) : Ordering :=
  (compareBool (isElsewhere sourceDirectory left) (isElsewhere sourceDirectory right)).then
    ((compare (depth left) (depth right)).then (compare left right))

/-- The checks of a ranked reason. -/
def rankingIsProven (sourceDirectory : Text) (winner : String) (alternatives : List String) :
    ResolutionReason → Bool
  | .sameDirectory =>
    !isElsewhere sourceDirectory winner ∧ ∀ path ∈ alternatives, isElsewhere sourceDirectory path
  | .shallowestPath =>
    isElsewhere sourceDirectory winner ∧
      ∀ path ∈ alternatives, isElsewhere sourceDirectory path ∧ depth winner < depth path
  | .lexicalTieBreak =>
    (∀ path ∈ alternatives, comparePaths sourceDirectory winner path = .lt) ∧
      ∃ path ∈ alternatives, isElsewhere sourceDirectory winner =
        isElsewhere sourceDirectory path ∧ depth winner = depth path
  | .configuredId | .onlyCandidate | .exactPath => false

/-- Does a path name what an occurrence targets, with an extension that may be left out? -/
def namesTarget (occurrence : StructuralOccurrence) (path : String) : Bool :=
  occurrence.normalizedTarget.any fun target =>
    path = target ∨ (!hasExtension target ∧ (path = target ++ ".md" ∨ path = target ++ ".mdx"))

/-- The checks of a reason. -/
def reasonIsProven (library : ResolutionLibrary) (sourceDirectory : Text)
    (resolved : ResolvedStructuralOccurrence) (lookup : ResolutionLookupKey) (winner : String) :
    ResolutionReason → Bool
  | .configuredId =>
    lookup.kind = .id ∧ lookup.value = library.toLowercase resolved.occurrence.rawTarget ∧
      resolved.candidateCount = 1
  | .onlyCandidate =>
    (lookup.kind = .basename ∨ lookup.kind = .title) ∧ resolved.candidateCount = 1 ∧
      lookup.value = library.toLowercase resolved.occurrence.rawTarget
  | .exactPath =>
    lookup.kind = .path ∧ resolved.candidateCount = 1 ∧ lookup.value = winner ∧
      !resolved.occurrence.isSimpleWikilink ∧ namesTarget resolved.occurrence winner
  | reason =>
    lookup.kind = .basename ∧
      lookup.value = library.toLowercase resolved.occurrence.rawTarget ∧
        resolved.candidateCount > 1 ∧
          (∀ path ∈ winner :: resolved.alternatives, basenameEligible resolved.occurrence path) ∧
            rankingIsProven sourceDirectory winner resolved.alternatives reason

/-- `resolved_reason_is_proven`. -/
def resolvedReasonIsProven (library : ResolutionLibrary) (sourcePath : String)
    (resolved : ResolvedStructuralOccurrence) : Bool :=
  match resolved.reason, resolved.targetPath, resolved.targetRecordId, resolved.selectedLookup,
    resolved.candidateDigest with
  | some reason, some winner, some recordId, some lookup, some boundDigest =>
    candidatesAreProven library resolved lookup ⟨recordId, winner⟩ boundDigest &&
      reasonIsProven library (directory sourcePath) resolved lookup winner reason
  | _, _, _, _, _ => false

/-- The checks of `resolution_evidence_is_valid` for one occurrence. -/
def occurrenceEvidenceIsValid (library : ResolutionLibrary) (sourcePath : String)
    (resolved : ResolvedStructuralOccurrence) : Bool :=
  match resolved.resolution with
  | .resolved =>
    resolved.targetRecordId.isSome ∧
      (resolved.targetPath.any fun path => (collectionPath path).toOption.isSome) ∧
        resolved.ambiguousPaths.isEmpty ∧
          resolved.alternatives.length ≤ maxResolutionAlternatives ∧
            resolved.alternatives.IsChain (· < ·) ∧
              (∀ path ∈ resolved.alternatives, (collectionPath path).toOption.isSome) ∧
                (∀ path ∈ resolved.targetPath, path ∉ resolved.alternatives) ∧
                  resolvedReasonIsProven library sourcePath resolved
  | _ =>
    resolved.reason.isNone ∧ resolved.selectedLookup.isNone ∧ resolved.candidateCount = 0 ∧
      resolved.candidateDigest.isNone ∧ resolved.alternatives.isEmpty ∧
        resolved.alternativeCandidates.isEmpty

/-- `resolution_evidence_is_valid`. -/
def resolutionEvidenceIsValid (library : ResolutionLibrary)
    (resolved : ResolvedRecordStructure) : Bool :=
  resolved.occurrences.all (occurrenceEvidenceIsValid library resolved.path)

end Mdbase.Links
