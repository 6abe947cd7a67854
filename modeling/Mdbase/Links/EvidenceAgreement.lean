import Mdbase.Links.Ranking

/-!
# Evidence of a selection

The evidence of a resolved link is checked without the catalogue that selected the record.
What passes the check is what the selection among the recorded candidates gives. What the
selection gives passes the check as long as the link spells the name that was looked up.
-/

namespace Mdbase.Links

open Library
open Mdbase.Query (CatalogError)

variable {library : ResolutionLibrary} {source : String} {sourceDirectory : Text}
  {occurrence : StructuralOccurrence} {resolved : ResolvedStructuralOccurrence}
  {lookup : ResolutionLookupKey} {winner : ResolutionCandidateIdentity}
  {others : List ResolutionCandidateIdentity} {reason : ResolutionReason} {digest : String}

/-- The lookup of the evidence is the one that the link spells, for its path or its name. -/
def Spells (library : ResolutionLibrary) (occurrence : StructuralOccurrence)
    (lookup : ResolutionLookupKey) (winner : String) (others : List String) : Prop :=
  if lookup.kind = .path then
    lookup.value = winner ∧ occurrence.isSimpleWikilink = false ∧
      namesTarget occurrence winner = true
  else
    lookup.value = library.toLowercase occurrence.rawTarget ∧
      (others ≠ [] → ∀ path ∈ winner :: others, basenameEligible occurrence path = true)

theorem reasonIsProven_only (counted : resolved.candidateCount = 1) :
    reasonIsProven library sourceDirectory resolved lookup winner.path reason = true ↔
      reason = onlyReason lookup.kind ∧
        Spells library resolved.occurrence lookup winner.path [] := by
  unfold Spells
  cases reason with
  | configuredId | onlyCandidate
  | exactPath => cases kind : lookup.kind <;> simp [reasonIsProven, onlyReason, counted, kind]
  | sameDirectory | shallowestPath
  | lexicalTieBreak => cases lookup.kind <;> simp [reasonIsProven, onlyReason, counted]

theorem reasonIsProven_several (counted : 1 < resolved.candidateCount)
    (several : resolved.alternatives ≠ []) :
    reasonIsProven library sourceDirectory resolved lookup winner.path reason = true ↔
      (lookup.kind = .basename ∧
        rankingIsProven sourceDirectory winner.path resolved.alternatives reason = true) ∧
        Spells library resolved.occurrence lookup winner.path resolved.alternatives := by
  have notOne : resolved.candidateCount ≠ 1 := counted.ne'
  have ranked : ∀ reason, reasonIsProven library sourceDirectory resolved lookup winner.path
      reason = true ↔ lookup.kind = .basename ∧
        rankingIsProven sourceDirectory winner.path resolved.alternatives reason = true ∧
        lookup.value = library.toLowercase resolved.occurrence.rawTarget ∧
          ∀ path ∈ winner.path :: resolved.alternatives,
            basenameEligible resolved.occurrence path = true := by
    intro reason
    cases reason with
    | configuredId | onlyCandidate | exactPath => simp [reasonIsProven, rankingIsProven, notOne]
    | sameDirectory | shallowestPath
    | lexicalTieBreak => simp only [reasonIsProven, decide_eq_true_eq, gt_iff_lt, counted]; tauto
  rw [ranked]
  constructor
  · rintro ⟨kind, proven, value, eligible⟩
    refine ⟨⟨kind, proven⟩, ?_⟩
    rw [Spells, if_neg (by simp [kind])]
    exact ⟨value, fun _ => eligible⟩
  · rintro ⟨⟨kind, proven⟩, spells⟩
    rw [Spells, if_neg (by simp [kind])] at spells
    exact ⟨kind, proven, spells.1, spells.2 several⟩

theorem reasonIsProven_iff (winner : ResolutionCandidateIdentity)
    (counted : resolved.candidateCount = others.length + 1)
    (listed : resolved.alternatives = others.map (·.path)) :
    reasonIsProven library sourceDirectory resolved lookup winner.path reason = true ↔
      ReasonHolds sourceDirectory lookup.kind winner others reason ∧
        Spells library resolved.occurrence lookup winner.path (others.map (·.path)) := by
  cases others with
  | nil =>
    rw [reasonIsProven_only counted]
    simp [ReasonHolds]
  | cons other others =>
    have several : 1 < resolved.candidateCount := by
      rw [counted, List.length_cons]
      omega
    rw [reasonIsProven_several several (by simp [listed]), listed]
    simp [ReasonHolds]

/-- What valid evidence records. -/
structure Proves (library : ResolutionLibrary) (source : String)
    (resolved : ResolvedStructuralOccurrence) (winner : ResolutionCandidateIdentity)
    (reason : ResolutionReason) (lookup : ResolutionLookupKey) (digest : String) : Prop where
  targetRecordId : resolved.targetRecordId = some winner.recordId
  targetPath : resolved.targetPath = some winner.path
  reasoned : resolved.reason = some reason
  selectedLookup : resolved.selectedLookup = some lookup
  candidateDigest : resolved.candidateDigest = some digest
  ambiguousPaths : resolved.ambiguousPaths = []
  candidateCount : resolved.candidateCount = resolved.alternativeCandidates.length + 1
  alternatives : resolved.alternatives = resolved.alternativeCandidates.map (·.path)
  selects : Selects library (directory source) lookup.kind winner
    resolved.alternativeCandidates reason digest
  spells : Spells library resolved.occurrence lookup winner.path
    (resolved.alternativeCandidates.map (·.path))

theorem candidatesAreProven_iff :
    candidatesAreProven library resolved lookup winner digest = true ↔
      resolved.candidateCount = resolved.alternativeCandidates.length + 1 ∧
        resolved.alternatives = resolved.alternativeCandidates.map (·.path) ∧
        Distinct (winner :: resolved.alternativeCandidates) ∧
        resolved.alternativeCandidates.length + 1 ≤ maxResolutionCandidates ∧
        resolved.alternativeCandidates.IsChain (fun left right => comparePath left right = .lt) ∧
        library.digest lookup.kind (winner :: resolved.alternativeCandidates) = .ok digest := by
  have computed : (library.digest lookup.kind
      (winner :: resolved.alternativeCandidates)).toOption = some digest ↔
      library.digest lookup.kind (winner :: resolved.alternativeCandidates) = .ok digest := by
    cases library.digest lookup.kind (winner :: resolved.alternativeCandidates) <;>
      simp [Except.toOption]
  unfold candidatesAreProven
  rw [decide_eq_true_eq, computed]
  simp only [collectionPath_isSome, Bool.not_eq_true']
  constructor
  · rintro ⟨counted, bounded, listed, ordered, each, ids, paths, same⟩
    exact ⟨counted, listed, ⟨fun candidate member => (each candidate member).1,
      fun candidate member => (each candidate member).2, ids, paths⟩, counted ▸ bounded, ordered,
      same⟩
  · rintro ⟨counted, listed, distinct, bounded, ordered, same⟩
    exact ⟨counted, counted ▸ bounded, listed, ordered, fun candidate member =>
      ⟨distinct.named candidate member, distinct.valid candidate member⟩, distinct.ids,
      distinct.paths, same⟩

/-- The validator accepts a resolved occurrence exactly if its evidence proves the target. -/
theorem occurrenceEvidenceIsValid_iff (isResolved : resolved.resolution = .resolved) :
    occurrenceEvidenceIsValid library source resolved = true ↔
      ∃ winner reason lookup digest, Proves library source resolved winner reason lookup digest := by
  unfold occurrenceEvidenceIsValid
  rw [isResolved]
  dsimp only
  rw [decide_eq_true_eq]
  constructor
  · rintro ⟨_, _, unambiguous, _, _, _, _, proven⟩
    unfold resolvedReasonIsProven at proven
    split at proven
    next reason path recordId lookup digest reasoned targetPath targetRecordId selected bound =>
      rw [Bool.and_eq_true] at proven
      obtain ⟨candidates, reasonProven⟩ := proven
      obtain ⟨counted, listed, distinct, bounded, ordered, same⟩ :=
        candidatesAreProven_iff.mp candidates
      obtain ⟨holds, spells⟩ := (reasonIsProven_iff ⟨recordId, path⟩ counted listed).mp reasonProven
      exact ⟨⟨recordId, path⟩, reason, lookup, digest, targetRecordId, targetPath, reasoned,
        selected, bound, List.isEmpty_iff.mp unambiguous, counted, listed,
        ⟨distinct, bounded, ordered, same, holds⟩, spells⟩
    next => cases proven
  · rintro ⟨winner, reason, lookup, digest, proves⟩
    have distinct := proves.selects.distinct
    have ascending := pairwise_paths distinct.of_cons
    rw [sortBy_comparePath proves.selects.ordered (List.Perm.refl _)] at ascending
    refine ⟨by simp [proves.targetRecordId], ?_, by simp [proves.ambiguousPaths], ?_, ?_, ?_, ?_,
      ?_⟩
    · rw [proves.targetPath, Option.any_some, collectionPath_isSome]
      exact distinct.valid winner List.mem_cons_self
    · have bounded := proves.selects.bounded
      rw [proves.alternatives, List.length_map, maxResolutionAlternatives]
      omega
    · rw [proves.alternatives]
      exact (List.pairwise_map.mpr ascending).isChain
    · intro path member
      rw [proves.alternatives] at member
      obtain ⟨other, inside, rfl⟩ := List.mem_map.mp member
      exact collectionPath_isSome.mpr (distinct.valid other (List.mem_cons_of_mem _ inside))
    · intro path target
      rw [proves.targetPath] at target
      cases target
      rw [proves.alternatives]
      exact (List.nodup_cons.mp distinct.paths).1
    · unfold resolvedReasonIsProven
      rw [proves.reasoned, proves.targetPath, proves.targetRecordId, proves.selectedLookup,
        proves.candidateDigest]
      rw [Bool.and_eq_true]
      exact ⟨candidatesAreProven_iff.mpr ⟨proves.candidateCount, proves.alternatives, distinct,
          proves.selects.bounded, proves.selects.ordered, proves.selects.digest⟩,
        (reasonIsProven_iff winner proves.candidateCount proves.alternatives).mpr
          ⟨proves.selects.reason, proves.spells⟩⟩

/-- The resolution that the evidence of an occurrence records. -/
def ResolvedStructuralOccurrence.recordedResolution (resolved : ResolvedStructuralOccurrence)
    (winner : ResolutionCandidateIdentity) (reason : ResolutionReason)
    (lookup : ResolutionLookupKey) (digest : String) : RankedResolution :=
  .resolved winner.recordId winner.path reason lookup.kind resolved.candidateCount digest
    resolved.alternatives resolved.alternativeCandidates

/-- Valid evidence records what the selection among the recorded candidates gives, if their
paths are stored as the catalogue stores them. -/
theorem Proves.select_eq (proves : Proves library source resolved winner reason lookup digest)
    (sourceCanonical : collectionPath source = .ok source)
    (canonical : Canonical (winner :: resolved.alternativeCandidates)) :
    selectResolutionCandidate library source lookup.kind
        (winner :: resolved.alternativeCandidates) =
      .ok (resolved.recordedResolution winner reason lookup digest) := by
  have gathered : (winner :: resolved.alternativeCandidates).foldlM addCandidate [] =
      .ok ([] ++ (winner :: resolved.alternativeCandidates)) :=
    foldlM_addCandidate_distinct proves.selects.distinct canonical
  rw [List.nil_append] at gathered
  rw [selectResolutionCandidate, sourceCanonical]
  dsimp only
  rw [gathered, ResolvedStructuralOccurrence.recordedResolution, proves.candidateCount,
    proves.alternatives]
  exact proves.selects.selectAmong_eq (List.Perm.refl _)

theorem distinct_nil : Distinct [] where
  named := by simp
  valid := by simp
  ids := List.nodup_nil
  paths := List.nodup_nil

theorem canonical_of_select {kind selectedKind : RecordResolutionKeyKind}
    {candidates : List ResolutionCandidateIdentity} {count : Nat} {alternatives : List String}
    (selected : selectResolutionCandidate library source kind candidates =
      .ok (.resolved winner.recordId winner.path reason selectedKind count digest alternatives
        others)) :
    Canonical (winner :: others) := by
  unfold selectResolutionCandidate at selected
  split at selected
  next => cases selected
  rename_i directory _
  split at selected
  next => cases selected
  rename_i found gathered
  obtain ⟨distinct, canonical, _, _⟩ :=
    foldlM_addCandidate_ok distinct_nil (by simp [Canonical]) gathered
  obtain ⟨perm, _⟩ := selects_of_selectAmong distinct selected
  exact fun candidate member => canonical candidate (perm.mem_iff.mp member)

/-- The candidates of a digest are those of no other digest. -/
def ResolutionLibrary.CollisionFree (library : ResolutionLibrary) : Prop :=
  ∀ kind kind' candidates candidates' digest, library.digest kind candidates = .ok digest →
    library.digest kind' candidates' = .ok digest → kind = kind' ∧ candidates = candidates'

variable {kind : RecordResolutionKeyKind}

theorem Selects.reason_unique {other : ResolutionReason} {otherDigest : String}
    (left : Selects library sourceDirectory kind winner others reason digest)
    (right : Selects library sourceDirectory kind winner others other otherDigest) :
    reason = other := by
  rcases left.reason with ⟨rfl, rfl⟩ | ⟨several, _, proven⟩
  · rcases right.reason with ⟨_, rfl⟩ | ⟨several, _⟩
    · rfl
    · exact absurd rfl several
  · rcases right.reason with ⟨none_, _⟩ | ⟨_, _, otherProven⟩
    · exact absurd none_ several
    · rw [← ((rankingIsProven_iff left.distinct several reason).mp proven).2,
        ← ((rankingIsProven_iff left.distinct several other).mp otherProven).2]

/-- What the evidence of an occurrence says it was resolved to. -/
structure Records (resolved : ResolvedStructuralOccurrence) (winner : ResolutionCandidateIdentity)
    (reason : ResolutionReason) (lookup : ResolutionLookupKey) (digest : String) : Prop where
  targetRecordId : resolved.targetRecordId = some winner.recordId
  targetPath : resolved.targetPath = some winner.path
  reasoned : resolved.reason = some reason
  selectedLookup : resolved.selectedLookup = some lookup
  candidateDigest : resolved.candidateDigest = some digest

/-- Valid evidence says what the selection among the recorded candidates gives, exactly if
their paths are stored as the catalogue stores them. -/
theorem evidence_sound (sourceCanonical : collectionPath source = .ok source)
    (isResolved : resolved.resolution = .resolved)
    (valid : occurrenceEvidenceIsValid library source resolved = true) :
    ∃ winner reason lookup digest, Records resolved winner reason lookup digest ∧
      (selectResolutionCandidate library source lookup.kind
          (winner :: resolved.alternativeCandidates) =
        .ok (resolved.recordedResolution winner reason lookup digest) ↔
          Canonical (winner :: resolved.alternativeCandidates)) := by
  obtain ⟨winner, reason, lookup, digest, proves⟩ :=
    (occurrenceEvidenceIsValid_iff isResolved).mp valid
  exact ⟨winner, reason, lookup, digest, ⟨proves.targetRecordId, proves.targetPath,
    proves.reasoned, proves.selectedLookup, proves.candidateDigest⟩, canonical_of_select,
    proves.select_eq sourceCanonical⟩

theorem evidence_bound (collisionFree : library.CollisionFree)
    {changed : ResolvedStructuralOccurrence} (isResolved : resolved.resolution = .resolved)
    (changedResolved : changed.resolution = .resolved)
    (valid : occurrenceEvidenceIsValid library source resolved = true)
    (changedValid : occurrenceEvidenceIsValid library source changed = true)
    (sameDigest : changed.candidateDigest = resolved.candidateDigest) :
    changed.targetPath = resolved.targetPath ∧ changed.targetRecordId = resolved.targetRecordId ∧
      changed.reason = resolved.reason ∧ changed.candidateCount = resolved.candidateCount ∧
      changed.alternatives = resolved.alternatives ∧
      changed.alternativeCandidates = resolved.alternativeCandidates := by
  obtain ⟨winner, reason, lookup, digest, proves⟩ :=
    (occurrenceEvidenceIsValid_iff isResolved).mp valid
  obtain ⟨winner', reason', lookup', digest', proves'⟩ :=
    (occurrenceEvidenceIsValid_iff changedResolved).mp changedValid
  rw [proves.candidateDigest, proves'.candidateDigest] at sameDigest
  cases sameDigest
  obtain ⟨kind, candidates⟩ := collisionFree _ _ _ _ _ proves'.selects.digest proves.selects.digest
  obtain ⟨rfl, losers⟩ := List.cons.inj candidates
  have selects := proves'.selects
  rw [kind, losers] at selects
  rw [proves.targetPath, proves'.targetPath, proves.targetRecordId, proves'.targetRecordId,
    proves.reasoned, proves'.reasoned, proves.candidateCount, proves'.candidateCount,
    proves.alternatives, proves'.alternatives, losers, proves.selects.reason_unique selects]
  exact ⟨rfl, rfl, rfl, rfl, rfl, rfl⟩

theorem occurrenceEvidenceIsValid_of_none (other : resolved.resolution ≠ .resolved)
    (reason : resolved.reason = none) (lookup : resolved.selectedLookup = none)
    (count : resolved.candidateCount = 0) (digest : resolved.candidateDigest = none)
    (alternatives : resolved.alternatives = []) (candidates : resolved.alternativeCandidates = []) :
    occurrenceEvidenceIsValid library source resolved = true := by
  unfold occurrenceEvidenceIsValid
  cases outcome : resolved.resolution with
  | resolved => exact absurd outcome other
  | _ => simp [reason, lookup, count, digest, alternatives, candidates]

/-- The path as the catalogue stores it. -/
def storedPath (path : String) : String := (collectionPath path).toOption.getD path

/-- Some rows name one path only. -/
def OnePath (rows : List ResolutionCandidate) : Prop :=
  ∀ left ∈ rows, ∀ right ∈ rows, storedPath left.path = storedPath right.path

/-- The link spells what the rows that decide it were looked up by. -/
def RowSpells (library : ResolutionLibrary) (alternatives : List ResolutionLookupKey)
    (occurrence : StructuralOccurrence) (rows : List ResolutionCandidate)
    (row : ResolutionCandidate) : Prop :=
  match row.lookup.kind with
  | .id | .title => OnePath rows → row.lookup.value = library.toLowercase occurrence.rawTarget
  | .basename =>
    row.lookup.value = library.toLowercase occurrence.rawTarget ∧
      (¬OnePath rows → basenameEligible occurrence (storedPath row.path) = true)
  | .path =>
    OnePath rows → ⟨row.lookup.priority, .path, storedPath row.path⟩ ∈ alternatives ∧
      occurrence.isSimpleWikilink = false ∧
      namesTarget occurrence (storedPath row.path) = true

/-- The link of an occurrence spells what it is resolved by, if it is resolved at all. -/
def OccurrenceSpells (library : ResolutionLibrary) (plan : RecordResolutionPlan)
    (candidates : List ResolutionCandidate) (occurrence : StructuralOccurrence) : Prop :=
  match occurrence.resolution with
  | .unresolved =>
    let rows := lowestRows candidates occurrence.ordinal
    ∀ row ∈ rows, RowSpells library (plan.lookupFor occurrence.ordinal) occurrence rows row
  | .resolved => False
  | _ => True

/-- The alternatives of one priority have one kind, and one value unless they are paths. -/
def Uniform (alternatives : List ResolutionLookupKey) : Prop :=
  ∀ left ∈ alternatives, ∀ right ∈ alternatives, left.priority = right.priority →
    left.kind = right.kind ∧ (left.kind ≠ .path → left.value = right.value)

theorem uniform_nameLookups (first : Nat) (name : String) : Uniform (nameLookups first name) := by
  intro left leftMember right rightMember same
  simp only [nameLookups, List.mem_cons, List.not_mem_nil, or_false] at leftMember rightMember
  rcases leftMember with rfl | rfl | rfl <;> rcases rightMember with rfl | rfl | rfl <;> simp_all

theorem uniform_resolutionLookupAlternatives (extensions : List String) (target : String) :
    Uniform (resolutionLookupAlternatives library extensions target) := by
  have sorts : ∀ alternative ∈ resolutionLookupAlternatives library extensions target,
      (alternative.kind = .path ∧ alternative.priority ≤ 1) ∨
        (alternative ∈ nameLookups 2 (library.toLowercase target) ∧ 2 ≤ alternative.priority) := by
    intro alternative member
    unfold resolutionLookupAlternatives at member
    rw [List.mem_dedup, mem_sortBy, List.mem_append, List.mem_append] at member
    rcases member with (whole | extended) | named
    · rw [List.mem_singleton.mp whole]
      exact .inl ⟨rfl, Nat.zero_le _⟩
    · split at extended
      next => cases extended
      obtain ⟨extension, _, rfl⟩ := List.mem_map.mp extended
      exact .inl ⟨rfl, le_refl _⟩
    · split at named
      next => cases named
      refine .inr ⟨named, ?_⟩
      simp only [nameLookups, List.mem_cons, List.not_mem_nil, or_false] at named
      rcases named with rfl | rfl | rfl <;> simp
  intro left leftMember right rightMember same
  rcases sorts left leftMember with ⟨leftPath, leftLow⟩ | ⟨leftName, leftHigh⟩ <;>
    rcases sorts right rightMember with ⟨rightPath, rightLow⟩ | ⟨rightName, rightHigh⟩
  · exact ⟨leftPath.trans rightPath.symm, fun other => absurd leftPath other⟩
  · omega
  · omega
  · exact uniform_nameLookups 2 _ left leftName right rightName same

variable {plan : RecordResolutionPlan}

theorem uniform_lookupFor {extensions : List String} {structure_ : RecordStructure}
    (planned : planRecordResolution library extensions structure_ = .ok plan) (ordinal : Nat) :
    Uniform (plan.lookupFor ordinal) := by
  simp only [planRecordResolution] at planned
  split_ifs at planned
  cases planned
  unfold RecordResolutionPlan.lookupFor
  cases found : (structure_.occurrences.filterMap (lookupOf library extensions)).find?
      fun lookup => lookup.occurrenceOrdinal = ordinal with
  | none => exact fun _ member => nomatch member
  | some lookup =>
    obtain ⟨occurrence, _, made⟩ := List.mem_filterMap.mp (List.mem_of_find?_eq_some found)
    unfold lookupOf at made
    split_ifs at made
    obtain ⟨target, _, rfl⟩ := Option.map_eq_some_iff.mp made
    rw [Option.map_some, Option.getD_some]
    unfold alternativesForOccurrence
    split
    next => exact uniform_nameLookups 0 _
    next => exact uniform_resolutionLookupAlternatives extensions target

variable {candidates : List ResolutionCandidate}

theorem priority_eq_of_mem_lowestRows {ordinal : Nat}
    {left right : ResolutionCandidate} (leftMember : left ∈ lowestRows candidates ordinal)
    (rightMember : right ∈ lowestRows candidates ordinal) :
    left.lookup.priority = right.lookup.priority := by
  simp only [lowestRows, List.mem_filter, List.all_eq_true, decide_eq_true_eq] at *
  exact le_antisymm (leftMember.2 right rightMember.1) (rightMember.2 left leftMember.1)

theorem mem_of_mem_lowestRows {ordinal : Nat}
    {row : ResolutionCandidate} (member : row ∈ lowestRows candidates ordinal) :
    row ∈ candidates ∧ row.occurrenceOrdinal = ordinal := by
  simpa [lowestRows] using (List.mem_filter.mp (List.mem_filter.mp member).1)

theorem resolvedTo_ok {losers : List ResolutionCandidateIdentity} {resolution : RankedResolution}
    (resolved : resolvedTo library kind reason winner losers = .ok resolution) :
    resolution ≠ .missing ∧ ∀ paths, resolution ≠ .ambiguous paths := by
  simp only [resolvedTo] at resolved
  split at resolved
  next => cases resolved
  cases resolved
  exact ⟨nofun, nofun⟩

theorem selectAmong_ok {candidates : List ResolutionCandidateIdentity}
    {resolution : RankedResolution} (nonempty : candidates ≠ [])
    (selected : selectAmong library sourceDirectory kind candidates = .ok resolution) :
    resolution ≠ .missing ∧
      ∀ paths, resolution = .ambiguous paths → kind ≠ .basename ∧ 1 < candidates.length := by
  have bounded : candidates.length ≤ maxResolutionCandidates := by
    by_contra above
    unfold selectAmong at selected
    rw [if_neg (by simpa using nonempty), if_pos (by omega)] at selected
    cases selected
  by_cases basename : kind = .basename
  · subst basename
    cases ranked : sortBy (compareRank sourceDirectory) candidates with
    | nil =>
      have perm := sortBy_perm (compareRank sourceDirectory) candidates
      rw [ranked] at perm
      exact absurd perm.symm.eq_nil nonempty
    | cons winner losers =>
      rw [selectAmong_basename bounded ranked] at selected
      exact ⟨(resolvedTo_ok selected).1, fun paths same =>
        absurd same ((resolvedTo_ok selected).2 paths)⟩
  · match candidates with
    | [] => exact absurd rfl nonempty
    | [winner] =>
      rw [selectAmong_singleton basename] at selected
      exact ⟨(resolvedTo_ok selected).1, fun paths same =>
        absurd same ((resolvedTo_ok selected).2 paths)⟩
    | first :: second :: rest =>
      rw [selectAmong_several basename bounded (by simp)] at selected
      cases selected
      exact ⟨nofun, fun _ _ => ⟨basename, by simp⟩⟩

/-- The gathered identities are those of the rows, each of them once. -/
theorem rows_gathered {rows : List ResolutionCandidate} {found : List ResolutionCandidateIdentity}
    (gathered : (sortBy compareIdentities (rows.map (·.identity)).dedup).foldlM addCandidate [] =
      .ok found) :
    Distinct found ∧ Canonical found ∧
      (∀ row ∈ rows, ∃ candidate ∈ found, candidate.path = storedPath row.path) ∧
      ∀ candidate ∈ found, ∃ row ∈ rows, candidate.path = storedPath row.path := by
  obtain ⟨distinct, canonical, valid, members⟩ :=
    foldlM_addCandidate_ok distinct_nil (by simp [Canonical]) gathered
  refine ⟨distinct, canonical, fun row member => ?_, fun candidate member => ?_⟩
  · have identity : row.identity ∈ sortBy compareIdentities (rows.map (·.identity)).dedup := by
      rw [mem_sortBy, List.mem_dedup]
      exact List.mem_map_of_mem member
    obtain ⟨path, stored⟩ := valid row.identity identity
    refine ⟨⟨row.recordId, path⟩, (members _).mpr (.inr ⟨row.identity, identity, rfl, stored⟩), ?_⟩
    rw [storedPath, show collectionPath row.path = .ok path from stored]
    rfl
  · rcases (members candidate).mp member with none_ | ⟨identity, inside, _, stored⟩
    · cases none_
    · rw [mem_sortBy, List.mem_dedup] at inside
      obtain ⟨row, rowMember, rfl⟩ := List.mem_map.mp inside
      refine ⟨row, rowMember, ?_⟩
      rw [storedPath, show collectionPath row.path = .ok candidate.path from stored]
      rfl

/-- The candidates lie on one path exactly if nothing stands beside the winner. -/
theorem onePath_iff {rows : List ResolutionCandidate} {found : List ResolutionCandidateIdentity}
    (gathered : (sortBy compareIdentities (rows.map (·.identity)).dedup).foldlM addCandidate [] =
      .ok found) (perm : (winner :: others).Perm found) :
    OnePath rows ↔ others = [] := by
  obtain ⟨distinct, _, ofRow, toRow⟩ := rows_gathered gathered
  constructor
  · intro one
    by_contra several
    obtain ⟨other, member⟩ := List.exists_mem_of_ne_nil others several
    obtain ⟨left, leftMember, leftPath⟩ := toRow winner (perm.mem_iff.mp List.mem_cons_self)
    obtain ⟨right, rightMember, rightPath⟩ :=
      toRow other (perm.mem_iff.mp (List.mem_cons_of_mem _ member))
    have same := one left leftMember right rightMember
    rw [← leftPath, ← rightPath] at same
    exact (List.nodup_cons.mp (distinct.perm perm).paths).1
      (List.mem_map.mpr ⟨other, member, same.symm⟩)
  · rintro rfl left leftMember right rightMember
    obtain ⟨here, hereMember, herePath⟩ := ofRow left leftMember
    obtain ⟨there, thereMember, therePath⟩ := ofRow right rightMember
    rw [← perm.mem_iff, List.mem_singleton] at hereMember thereMember
    rw [← herePath, ← therePath, hereMember, thereMember]

variable {alternatives : List ResolutionLookupKey} {selected : ResolutionLookupKey}

/-- The evidence names the selected lookup, or another one by the path that is as urgent. -/
theorem evidenceLookup_cases (uniform : Uniform alternatives) (member : selected ∈ alternatives)
    (resolution : RankedResolution) :
    evidenceLookup alternatives selected resolution = selected ∨
      selected.kind = .path ∧ (evidenceLookup alternatives selected resolution).kind = .path := by
  cases resolution with
  | missing | ambiguous => exact .inl rfl
  | resolved _ path =>
    simp only [evidenceLookup]
    cases found : alternatives.find? fun alternative =>
        alternative.priority = selected.priority ∧ alternative.kind = .path ∧
          alternative.value = path with
    | none => exact .inl rfl
    | some alternative =>
      have same := List.find?_some found
      simp only [decide_eq_true_eq] at same
      have kind := (uniform alternative (List.mem_of_find?_eq_some found) selected member same.1).1
      exact .inr ⟨kind.symm.trans same.2.1, same.2.1⟩

theorem evidenceLookup_kind (uniform : Uniform alternatives) (member : selected ∈ alternatives)
    (resolution : RankedResolution) :
    (evidenceLookup alternatives selected resolution).kind = selected.kind := by
  rcases evidenceLookup_cases uniform member resolution with same | ⟨isPath, path⟩
  · rw [same]
  · exact path.trans isPath.symm

theorem evidenceLookup_name (uniform : Uniform alternatives) (member : selected ∈ alternatives)
    (name : selected.kind ≠ .path) (resolution : RankedResolution) :
    evidenceLookup alternatives selected resolution = selected :=
  (evidenceLookup_cases uniform member resolution).resolve_right fun other => name other.1

theorem evidenceLookup_path (member : selected ∈ alternatives) (isPath : selected.kind = .path)
    {recordId path : String} {reason : ResolutionReason} {count : Nat} {digest : String}
    {paths : List String} {others : List ResolutionCandidateIdentity} :
    (evidenceLookup alternatives selected
        (.resolved recordId path reason kind count digest paths others)).value = path ↔
      ⟨selected.priority, .path, path⟩ ∈ alternatives := by
  simp only [evidenceLookup]
  cases found : alternatives.find? fun alternative =>
      alternative.priority = selected.priority ∧ alternative.kind = .path ∧
        alternative.value = path with
  | none =>
    have absent := List.find?_eq_none.mp found
    simp only [decide_eq_true_eq] at absent
    refine ⟨fun value => absurd ⟨rfl, isPath, value⟩ (absent selected member), fun inside => ?_⟩
    exact absurd ⟨rfl, rfl, rfl⟩ (absent _ inside)
  | some alternative =>
    have same := List.find?_some found
    simp only [decide_eq_true_eq] at same
    have inside := List.mem_of_find?_eq_some found
    obtain ⟨priority, kind, value⟩ := same
    refine ⟨fun _ => ?_, fun _ => value⟩
    rw [← priority, ← kind, ← value]
    exact inside

section Rows

variable {alternatives : List ResolutionLookupKey} {rows : List ResolutionCandidate}
  {found : List ResolutionCandidateIdentity} {selected : ResolutionLookupKey}
  (uniform : Uniform alternatives) (member : selected ∈ alternatives) (nonempty : rows ≠ [])
  (planned : ∀ row ∈ rows, row.lookup ∈ alternatives ∧ row.lookup.priority = selected.priority)
  (gathered : (sortBy compareIdentities (rows.map (·.identity)).dedup).foldlM addCandidate [] =
    .ok found) (perm : (winner :: others).Perm found)

include uniform member planned in
theorem row_kind {row : ResolutionCandidate} (inside : row ∈ rows) :
    row.lookup.kind = selected.kind :=
  (uniform _ (planned row inside).1 _ member (planned row inside).2).1

include uniform member planned in
theorem row_value {row : ResolutionCandidate} (inside : row ∈ rows)
    (name : selected.kind ≠ .path) : row.lookup.value = selected.value :=
  (uniform _ (planned row inside).1 _ member (planned row inside).2).2
    (row_kind uniform member planned inside ▸ name)

variable {paths : List String}

include uniform member nonempty planned gathered perm in
theorem spells_path_iff (isPath : selected.kind = .path) (only : others = []) {count : Nat}
    {kind : RecordResolutionKeyKind} :
    Spells library occurrence (evidenceLookup alternatives selected
        (.resolved winner.recordId winner.path reason kind count digest paths others))
        winner.path (others.map (·.path)) ↔
      ∀ row ∈ rows, RowSpells library alternatives occurrence rows row := by
  obtain ⟨first, firstMember⟩ := List.exists_mem_of_ne_nil rows nonempty
  obtain ⟨_, _, ofRow, _⟩ := rows_gathered gathered
  have stored : ∀ row ∈ rows, storedPath row.path = winner.path := by
    intro row inside
    obtain ⟨candidate, candidateMember, same⟩ := ofRow row inside
    rw [← perm.mem_iff, only, List.mem_singleton] at candidateMember
    rw [← same, candidateMember]
  have row_iff : ∀ row ∈ rows, RowSpells library alternatives occurrence rows row ↔
      ⟨selected.priority, .path, winner.path⟩ ∈ alternatives ∧
        occurrence.isSimpleWikilink = false ∧ namesTarget occurrence winner.path = true := by
    intro row inside
    simp only [RowSpells, row_kind uniform member planned inside, isPath, stored row inside,
      (planned row inside).2, (onePath_iff gathered perm).mpr only, true_imp_iff]
  rw [Spells, if_pos ((evidenceLookup_kind uniform member _).trans isPath),
    evidenceLookup_path member isPath]
  exact ⟨fun spells row inside => (row_iff row inside).mpr spells,
    fun spells => (row_iff first firstMember).mp (spells first firstMember)⟩

include uniform member nonempty planned gathered perm in
theorem spells_basename_iff (basename : selected.kind = .basename) :
    Spells library occurrence selected winner.path (others.map (·.path)) ↔
      ∀ row ∈ rows, RowSpells library alternatives occurrence rows row := by
  obtain ⟨first, firstMember⟩ := List.exists_mem_of_ne_nil rows nonempty
  obtain ⟨_, _, ofRow, toRow⟩ := rows_gathered gathered
  have name : selected.kind ≠ .path := by simp [basename]
  have row_iff : ∀ row ∈ rows, RowSpells library alternatives occurrence rows row ↔
      selected.value = library.toLowercase occurrence.rawTarget ∧
        (others ≠ [] → basenameEligible occurrence (storedPath row.path) = true) := by
    intro row inside
    simp only [RowSpells, row_kind uniform member planned inside, basename,
      row_value uniform member planned inside name, onePath_iff gathered perm, ne_eq]
  rw [Spells, if_neg name]
  constructor
  · rintro ⟨value, eligible⟩ row inside
    refine (row_iff row inside).mpr ⟨value, fun several => ?_⟩
    obtain ⟨candidate, candidateMember, same⟩ := ofRow row inside
    have listed : candidate.path ∈ (winner :: others).map (·.path) :=
      List.mem_map_of_mem (perm.mem_iff.mpr candidateMember)
    rw [← same]
    exact eligible (by simpa using several) _ listed
  · intro spells
    refine ⟨((row_iff first firstMember).mp (spells first firstMember)).1, ?_⟩
    intro several path inside
    have listed : path ∈ (winner :: others).map (·.path) := inside
    obtain ⟨candidate, candidateMember, rfl⟩ := List.mem_map.mp listed
    obtain ⟨row, rowMember, same⟩ := toRow candidate (perm.mem_iff.mp candidateMember)
    rw [same]
    exact ((row_iff row rowMember).mp (spells row rowMember)).2 (by simpa using several)

include uniform member nonempty planned gathered perm in
theorem spells_name_iff (name : selected.kind = .id ∨ selected.kind = .title) (only : others = []) :
    Spells library occurrence selected winner.path (others.map (·.path)) ↔
      ∀ row ∈ rows, RowSpells library alternatives occurrence rows row := by
  obtain ⟨first, firstMember⟩ := List.exists_mem_of_ne_nil rows nonempty
  have notPath : selected.kind ≠ .path := by
    rcases name with kind | kind <;> simp [kind]
  have row_iff : ∀ row ∈ rows, RowSpells library alternatives occurrence rows row ↔
      selected.value = library.toLowercase occurrence.rawTarget := by
    intro row inside
    have value := row_value uniform member planned inside notPath
    have one := (onePath_iff gathered perm).mpr only
    rcases name with kind | kind <;>
      simp only [RowSpells, row_kind uniform member planned inside, kind, value, one, true_imp_iff]
  rw [Spells, if_neg notPath, only]
  constructor
  · rintro ⟨value, _⟩ row inside
    exact (row_iff row inside).mpr value
  · exact fun spells =>
      ⟨(row_iff first firstMember).mp (spells first firstMember), fun none_ => absurd rfl none_⟩

include uniform member nonempty planned gathered perm in
theorem spells_iff (holds : ReasonHolds sourceDirectory selected.kind winner others reason)
    {count : Nat} {kind : RecordResolutionKeyKind} :
    Spells library occurrence (evidenceLookup alternatives selected
        (.resolved winner.recordId winner.path reason kind count digest paths others))
        winner.path (others.map (·.path)) ↔
      ∀ row ∈ rows, RowSpells library alternatives occurrence rows row := by
  have only : selected.kind ≠ .basename → others = [] := by
    intro other
    rcases holds with ⟨none_, _⟩ | ⟨_, basename, _⟩
    · exact none_
    · exact absurd basename other
  cases selectedKind : selected.kind with
  | path =>
    exact spells_path_iff uniform member nonempty planned gathered perm selectedKind
      (only (by simp [selectedKind]))
  | basename =>
    rw [evidenceLookup_name uniform member (by simp [selectedKind])]
    exact spells_basename_iff uniform member nonempty planned gathered perm selectedKind
  | id =>
    rw [evidenceLookup_name uniform member (by simp [selectedKind])]
    exact spells_name_iff uniform member nonempty planned gathered perm (.inl selectedKind)
      (only (by simp [selectedKind]))
  | title =>
    rw [evidenceLookup_name uniform member (by simp [selectedKind])]
    exact spells_name_iff uniform member nonempty planned gathered perm (.inr selectedKind)
      (only (by simp [selectedKind]))

include uniform member nonempty planned gathered in
theorem rowSpells_of_ambiguous
    (ambiguous : selectAmong library sourceDirectory selected.kind (sortBy comparePath found) =
      .ok (.ambiguous paths)) :
    ∀ row ∈ rows, RowSpells library alternatives occurrence rows row := by
  obtain ⟨first, firstMember⟩ := List.exists_mem_of_ne_nil rows nonempty
  obtain ⟨distinct, _, ofRow, _⟩ := rows_gathered gathered
  have sorted := sortBy_perm comparePath found
  have inhabited : sortBy comparePath found ≠ [] := by
    obtain ⟨candidate, inside, _⟩ := ofRow first firstMember
    exact List.ne_nil_of_mem (mem_sortBy.mpr inside)
  obtain ⟨other, several⟩ := (selectAmong_ok inhabited ambiguous).2 paths rfl
  have notOne : ¬OnePath rows := by
    intro one
    cases whole : sortBy comparePath found with
    | nil => exact inhabited whole
    | cons winner others =>
      rw [whole] at sorted several
      rw [(onePath_iff gathered sorted).mp one] at several
      simp at several
  intro row inside
  unfold RowSpells
  rw [row_kind uniform member planned inside]
  cases kind : selected.kind with
  | path => exact fun one => absurd one notOne
  | basename => exact absurd kind other
  | id | title => exact fun one => absurd one notOne

include uniform member nonempty planned in
/-- The evidence of the selection among some rows is valid exactly if the rows spell the
link. -/
theorem rows_evidence (sourceCanonical : collectionPath source = .ok source)
    {resolution : RankedResolution}
    (selection : selectResolutionCandidate library source selected.kind
      (sortBy compareIdentities (rows.map (·.identity)).dedup) = .ok resolution) :
    occurrenceEvidenceIsValid library source (withOutcome occurrence
        (some (evidenceLookup alternatives selected resolution)) resolution) = true ↔
      ∀ row ∈ rows, RowSpells library alternatives occurrence rows row := by
  rw [selectResolutionCandidate, sourceCanonical] at selection
  dsimp only at selection
  split at selection
  next => cases selection
  rename_i found gathered
  obtain ⟨distinct, _, ofRow, _⟩ := rows_gathered gathered
  cases resolution with
  | missing =>
    obtain ⟨first, firstMember⟩ := List.exists_mem_of_ne_nil rows nonempty
    obtain ⟨candidate, inside, _⟩ := ofRow first firstMember
    have inhabited : sortBy comparePath found ≠ [] := List.ne_nil_of_mem (mem_sortBy.mpr inside)
    exact absurd rfl (selectAmong_ok inhabited selection).1
  | ambiguous paths =>
    exact iff_of_true (occurrenceEvidenceIsValid_of_none nofun rfl rfl rfl rfl rfl rfl)
      (rowSpells_of_ambiguous uniform member nonempty planned gathered selection)
  | resolved recordId path reason kind count digest paths others =>
    obtain ⟨perm, selects, rfl, rfl, rfl⟩ := selects_of_selectAmong distinct selection
    rw [← spells_iff uniform member nonempty planned gathered perm selects.reason,
      occurrenceEvidenceIsValid_iff rfl]
    constructor
    · rintro ⟨winner, reason', lookup, digest', proves⟩
      have spells := proves.spells
      rw [← Option.some.inj proves.selectedLookup, ← Option.some.inj proves.targetPath] at spells
      exact spells
    · intro spells
      exact ⟨⟨recordId, path⟩, reason, _, digest, rfl, rfl, rfl, rfl, rfl, rfl, rfl, rfl,
        (evidenceLookup_kind uniform member _).symm ▸ selects, spells⟩

end Rows

/-- The evidence that one occurrence is given is valid exactly if its link spells what it is
resolved by. -/
theorem resolveOccurrence_evidence (sourceCanonical : collectionPath source = .ok source)
    (uniform : Uniform (plan.lookupFor occurrence.ordinal))
    (planned : ∀ candidate ∈ candidates,
      candidate.lookup ∈ plan.lookupFor candidate.occurrenceOrdinal)
    (given : resolveOccurrence library source plan candidates occurrence = .ok resolved) :
    occurrenceEvidenceIsValid library source resolved = true ↔
      OccurrenceSpells library plan candidates occurrence := by
  unfold resolveOccurrence at given
  by_cases unresolved : occurrence.resolution = .unresolved
  · rw [if_neg (by simpa using unresolved)] at given
    rw [OccurrenceSpells, unresolved]
    dsimp only
    cases rows : lowestRows candidates occurrence.ordinal with
    | nil =>
      rw [rows] at given
      cases given
      exact iff_of_true (occurrenceEvidenceIsValid_of_none (by simp [withOutcome]) rfl rfl rfl rfl
        rfl rfl) (by simp)
    | cons row rest =>
      rw [rows] at given
      dsimp only at given
      cases chosen : (plan.lookupFor occurrence.ordinal).find? fun alternative =>
          alternative.priority = row.lookup.priority with
      | none =>
        rw [chosen] at given
        cases given
      | some selected =>
        rw [chosen] at given
        have member := List.mem_of_find?_eq_some chosen
        have priority : selected.priority = row.lookup.priority := by
          simpa using List.find?_some chosen
        have rowsPlanned : ∀ other ∈ row :: rest,
            other.lookup ∈ plan.lookupFor occurrence.ordinal ∧
              other.lookup.priority = selected.priority := by
          intro other inside
          rw [← rows] at inside
          obtain ⟨asked, ordinal⟩ := mem_of_mem_lowestRows inside
          have first : row ∈ lowestRows candidates occurrence.ordinal := by simp [rows]
          exact ⟨ordinal ▸ planned other asked,
            (priority_eq_of_mem_lowestRows inside first).trans priority.symm⟩
        cases selection : selectResolutionCandidate library source selected.kind
            (sortBy compareIdentities ((row :: rest).map (·.identity)).dedup) with
        | error error =>
          dsimp only at given
          rw [selection] at given
          cases given
        | ok resolution =>
          dsimp only at given
          rw [selection] at given
          cases given
          exact rows_evidence uniform member (by simp) rowsPlanned sourceCanonical selection
  · rw [if_pos (by simpa using unresolved)] at given
    cases given
    by_cases already : occurrence.resolution = .resolved
    · rw [OccurrenceSpells, already]
      refine iff_of_false (fun valid => ?_) id
      obtain ⟨_, _, _, _, proves⟩ := (occurrenceEvidenceIsValid_iff rfl).mp valid
      cases proves.targetRecordId
    · refine iff_of_true (occurrenceEvidenceIsValid_of_none already rfl rfl rfl rfl rfl rfl) ?_
      unfold OccurrenceSpells
      cases outcome : occurrence.resolution with
      | unresolved => exact absurd outcome unresolved
      | resolved => exact absurd outcome already
      | _ => trivial

/-- The evidence of a resolved structure is valid exactly if every link spells what it is
resolved by. -/
theorem resolveRecordStructure_evidence {extensions : List String} {structure_ : RecordStructure}
    {resolvedStructure : ResolvedRecordStructure}
    (planned : planRecordResolution library extensions structure_ = .ok plan)
    (given : resolveRecordStructure library structure_ plan candidates = .ok resolvedStructure) :
    resolutionEvidenceIsValid library resolvedStructure = true ↔
      ∀ occurrence ∈ structure_.occurrences, OccurrenceSpells library plan candidates occurrence := by
  unfold resolveRecordStructure at given
  split_ifs at given with mismatch excess distinct unplanned
  have asked : ∀ candidate ∈ candidates,
      candidate.lookup ∈ plan.lookupFor candidate.occurrenceOrdinal := by
    simpa using unplanned
  cases all : structure_.occurrences.mapM
      (resolveOccurrence library structure_.path plan candidates) with
  | error error =>
    rw [all] at given
    cases given
  | ok resolved =>
    rw [all] at given
    cases given
    have each : ∀ {occurrence resolved}, resolveOccurrence library structure_.path plan
        candidates occurrence = .ok resolved →
        (occurrenceEvidenceIsValid library structure_.path resolved = true ↔
          OccurrenceSpells library plan candidates occurrence) :=
      fun given => resolveOccurrence_evidence structure_.canonical
        (uniform_lookupFor planned _) asked given
    unfold resolutionEvidenceIsValid
    rw [List.all_eq_true]
    constructor
    · intro valid occurrence member
      obtain ⟨one, inside, given⟩ := exists_image_of_mapM_ok all member
      exact (each given).mp (valid one inside)
    · intro spells one inside
      obtain ⟨occurrence, member, given⟩ := exists_item_of_mapM_ok all inside
      exact (each given).mpr (spells occurrence member)

/-- A text that ends where its last mark says. -/
def marked (text : String) : Text := (text.toList.flatMap fun character => ['+', character]) ++ ['-']

/-- Candidates as one text, in place of its digest. -/
def markedCandidates (candidates : List ResolutionCandidateIdentity) : Text :=
  candidates.flatMap fun candidate => marked candidate.recordId ++ marked candidate.path

/-- The text of a kind. -/
def kindMark (kind : RecordResolutionKeyKind) : Char := Char.ofNat (kind.rank + 48)

theorem marked_append_inj {left right : List Char} {leftRest rightRest : Text}
    (same : (left.flatMap fun character => ['+', character]) ++ ('-' :: leftRest) =
      (right.flatMap fun character => ['+', character]) ++ ('-' :: rightRest)) :
    left = right ∧ leftRest = rightRest := by
  induction left generalizing right with
  | nil =>
    cases right with
    | nil => exact ⟨rfl, (List.cons.inj same).2⟩
    | cons => exact absurd (List.cons.inj same).1 (by decide)
  | cons first left ih =>
    cases right with
    | nil => exact absurd (List.cons.inj same).1 (by decide)
    | cons second right =>
      obtain ⟨_, same⟩ := List.cons.inj same
      obtain ⟨head, same⟩ := List.cons.inj same
      obtain ⟨rfl, rest⟩ := ih same
      exact ⟨by rw [head], rest⟩

theorem markedCandidates_cons (candidate : ResolutionCandidateIdentity)
    (candidates : List ResolutionCandidateIdentity) :
    markedCandidates (candidate :: candidates) =
      (candidate.recordId.toList.flatMap fun character => ['+', character]) ++
        '-' :: ((candidate.path.toList.flatMap fun character => ['+', character]) ++
          '-' :: markedCandidates candidates) := by
  simp [markedCandidates, marked]

theorem markedCandidates_inj {left right : List ResolutionCandidateIdentity}
    (same : markedCandidates left = markedCandidates right) : left = right := by
  induction left generalizing right with
  | nil =>
    cases right with
    | nil => rfl
    | cons second right => simp [markedCandidates, marked] at same
  | cons first left ih =>
    cases right with
    | nil => simp [markedCandidates, marked] at same
    | cons second right =>
      rw [markedCandidates_cons, markedCandidates_cons] at same
      obtain ⟨ids, afterId⟩ := marked_append_inj same
      obtain ⟨paths, rest⟩ := marked_append_inj afterId
      obtain ⟨firstId, firstPath⟩ := first
      obtain ⟨secondId, secondPath⟩ := second
      cases String.toList_inj.mp ids
      cases String.toList_inj.mp paths
      rw [ih rest]

/-- A library whose digests are the digested texts. -/
def plainLibrary : ResolutionLibrary where
  toLowercase := Mdbase.Query.asciiLower
  digest := fun kind candidates =>
    .ok (String.ofList (kindMark kind :: markedCandidates candidates))

theorem plainLibrary_collisionFree : plainLibrary.CollisionFree := by
  intro kind kind' candidates candidates' digest left right
  have same := (Except.ok.inj left).trans (Except.ok.inj right).symm
  rw [String.ofList_inj] at same
  obtain ⟨mark, rest⟩ := List.cons.inj same
  refine ⟨?_, markedCandidates_inj rest⟩
  revert mark
  cases kind <;> cases kind' <;> decide

/-- A record with a link to a heading of another record in its frontmatter. -/
def anchoredStructure : RecordStructure where
  schemaVersion := "1"
  path := "source.md"
  occurrences := [⟨0, .wikilink, "alice#bio", some "alice", false, .unresolved⟩]
  structuralDigest := "sha256"
  canonical := by decide +kernel

/-- The answer of a catalogue with the record that the link names. -/
def anchoredAnswer : List ResolutionCandidate :=
  [⟨0, ⟨1, .basename, "alice"⟩, "record-1", "alice.md"⟩]

/-- The plan of the record with the link. -/
def anchoredPlan : RecordResolutionPlan where
  structureSchemaVersion := "1"
  sourcePath := "source.md"
  structuralDigest := "sha256"
  lookups := [⟨0, nameLookups 0 "alice"⟩]

/-- A link with an anchor is resolved, and its evidence is refused. -/
theorem anchored_evidence_refused :
    planRecordResolution plainLibrary ["md"] anchoredStructure = .ok anchoredPlan ∧
      (resolveRecordStructure plainLibrary anchoredStructure anchoredPlan anchoredAnswer).map
          (fun resolvedStructure => (resolvedStructure.occurrences.map (·.targetPath),
            resolutionEvidenceIsValid plainLibrary resolvedStructure)) =
        .ok ([some "alice.md"], false) := by
  decide +kernel

/-- Valid evidence is sound and binds what it records, and the evidence of a resolved
structure is valid exactly if every link spells what it is resolved by. -/
theorem evidence_sound_and_complete (library : ResolutionLibrary)
    (collisionFree : library.CollisionFree) :
    (∀ extensions structure_ plan candidates resolvedStructure,
      planRecordResolution library extensions structure_ = .ok plan →
      resolveRecordStructure library structure_ plan candidates = .ok resolvedStructure →
        (resolutionEvidenceIsValid library resolvedStructure = true ↔
          ∀ occurrence ∈ structure_.occurrences,
            OccurrenceSpells library plan candidates occurrence)) ∧
    ∀ source resolved, collectionPath source = .ok source → resolved.resolution = .resolved →
      occurrenceEvidenceIsValid library source resolved = true →
        (∃ winner reason lookup digest, Records resolved winner reason lookup digest ∧
          (selectResolutionCandidate library source lookup.kind
              (winner :: resolved.alternativeCandidates) =
            .ok (resolved.recordedResolution winner reason lookup digest) ↔
              Canonical (winner :: resolved.alternativeCandidates))) ∧
        ∀ changed : ResolvedStructuralOccurrence, changed.resolution = .resolved →
          changed.candidateDigest = resolved.candidateDigest →
          occurrenceEvidenceIsValid library source changed = true →
            changed.targetPath = resolved.targetPath ∧
              changed.targetRecordId = resolved.targetRecordId ∧
              changed.reason = resolved.reason ∧
              changed.candidateCount = resolved.candidateCount ∧
              changed.alternatives = resolved.alternatives ∧
              changed.alternativeCandidates = resolved.alternativeCandidates :=
  ⟨fun _ _ _ _ _ planned given => resolveRecordStructure_evidence planned given,
    fun _ _ sourceCanonical isResolved valid =>
      ⟨evidence_sound sourceCanonical isResolved valid,
        fun _ changedResolved sameDigest changedValid =>
          evidence_bound collisionFree isResolved changedResolved valid changedValid
            sameDigest⟩⟩

/-- A record with a link to a name of two records. -/
def noteStructure : RecordStructure where
  schemaVersion := "1"
  path := "a/source.md"
  occurrences := [⟨0, .wikilink, "note", some "note", false, .unresolved⟩]
  structuralDigest := "sha256"
  canonical := by decide +kernel

/-- The plan of the record with the link to a name. -/
def notePlan : RecordResolutionPlan where
  structureSchemaVersion := "1"
  sourcePath := "a/source.md"
  structuralDigest := "sha256"
  lookups := [⟨0, nameLookups 0 "note"⟩]

/-- The answer of a catalogue with both records of the name. -/
def noteAnswer : List ResolutionCandidate :=
  [⟨0, ⟨1, .basename, "note"⟩, "record-2", "b/note.md"⟩,
    ⟨0, ⟨1, .basename, "note"⟩, "record-1", "a/note.md"⟩]

/-- The evidence that the record beside the source is selected. -/
def noteEvidence : ResolvedStructuralOccurrence where
  occurrence := ⟨0, .wikilink, "note", some "note", false, .unresolved⟩
  resolution := .resolved
  targetRecordId := some "record-1"
  targetPath := some "a/note.md"
  reason := some .sameDirectory
  selectedLookup := some ⟨1, .basename, "note"⟩
  candidateCount := 2
  candidateDigest := some (String.ofList (kindMark .basename ::
    markedCandidates [⟨"record-1", "a/note.md"⟩, ⟨"record-2", "b/note.md"⟩]))
  alternatives := ["b/note.md"]
  alternativeCandidates := [⟨"record-2", "b/note.md"⟩]

/-- The link to a name spells what it is resolved by, and its evidence does not carry over to
another reason. -/
theorem evidence_sound_and_complete_note :
    OccurrenceSpells plainLibrary notePlan noteAnswer noteEvidence.occurrence ∧
      occurrenceEvidenceIsValid plainLibrary "a/source.md"
        { noteEvidence with reason := some .lexicalTieBreak } = false := by
  obtain ⟨complete, sound⟩ := evidence_sound_and_complete plainLibrary plainLibrary_collisionFree
  constructor
  · refine (complete ["md"] noteStructure notePlan noteAnswer
      ⟨"1", "a/source.md", "sha256", [noteEvidence]⟩ (by decide +kernel)
      (by decide +kernel)).mp (by decide +kernel) _ (by decide)
  · have bound := (sound "a/source.md" noteEvidence (by decide +kernel) rfl
      (by decide +kernel)).2 { noteEvidence with reason := some .lexicalTieBreak } rfl rfl
    rw [Bool.eq_false_iff]
    intro valid
    exact absurd (bound valid).2.2.1 (by decide)

end Mdbase.Links
