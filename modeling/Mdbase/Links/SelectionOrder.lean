import Mdbase.Links.Ranking

/-!
# The selection does not depend on the order of the candidates

Candidates are brought to their canonical paths and collected. What is selected depends on the
collected candidates alone: it is the least of them, the reason is the criterion that separates it
from the next one, and the others are listed in the order of their paths.
-/

namespace Mdbase.Links

open Library
open Mdbase.Query (CatalogError)

/-- `LinkResolution`. -/
inductive LinkResolution where
  | missing
  | resolved (path : String) (reason : ResolutionReason) (selectedKind : RecordResolutionKeyKind)
      (candidateCount : Nat) (candidateDigest : String) (alternatives : List String)
      (alternativeCandidates : List ResolutionCandidateIdentity)
  | ambiguous (paths : List String)
  deriving DecidableEq

/-- The resolution of a link from that of its name. -/
def RankedResolution.toLinkResolution : RankedResolution → LinkResolution
  | .missing => .missing
  | .resolved _ path reason selectedKind candidateCount candidateDigest alternatives
      alternativeCandidates =>
      .resolved path reason selectedKind candidateCount candidateDigest alternatives
        alternativeCandidates
  | .ambiguous paths => .ambiguous paths

/-- `select_local_resolution`. -/
def selectLocalResolution (library : ResolutionLibrary) (sourcePath : String)
    (kind : RecordResolutionKeyKind) (paths : List String) : Except CatalogError LinkResolution :=
  (selectResolutionCandidate library sourcePath kind
    (paths.map fun path => ⟨path, path⟩)).map RankedResolution.toLinkResolution

/-- A candidate with its canonical path: nothing stands for an unsafe one. -/
def canonicalIdentity (candidate : ResolutionCandidateIdentity) :
    Option ResolutionCandidateIdentity :=
  if candidate.recordId.isEmpty then none
  else (collectionPath candidate.path).toOption.map fun path => ⟨candidate.recordId, path⟩

/-- An identity is that of a candidate. -/
def Offered (candidates : List ResolutionCandidateIdentity)
    (identity : ResolutionCandidateIdentity) : Prop :=
  ∃ candidate ∈ candidates, canonicalIdentity candidate = some identity

/-- The candidates are safe and do not conflict: a record has one path and a path one record. -/
structure Coherent (candidates : List ResolutionCandidateIdentity) : Prop where
  safe : ∀ candidate ∈ candidates, canonicalIdentity candidate ≠ none
  agree : ∀ left right, Offered candidates left → Offered candidates right →
    (left.recordId = right.recordId ↔ left.path = right.path)

/-- The first criterion that separates two candidates. -/
def firstCriterion (sourceDirectory : Text) (winner runnerUp : ResolutionCandidateIdentity) :
    ResolutionReason :=
  if isElsewhere sourceDirectory winner.path ≠ isElsewhere sourceDirectory runnerUp.path then
    .sameDirectory
  else if depth winner.path ≠ depth runnerUp.path then .shallowestPath
  else .lexicalTieBreak

/-- One of the candidates is below all others. -/
def Least (sourceDirectory : Text) (candidates : List ResolutionCandidateIdentity)
    (least : ResolutionCandidateIdentity) : Prop :=
  least ∈ candidates ∧ ∀ other ∈ candidates, other ≠ least →
    comparePaths sourceDirectory least.path other.path = .lt

/-- The reason tells the winner from the runner-up, or that there is none. -/
def Separates (sourceDirectory : Text) (winner : ResolutionCandidateIdentity)
    (others : List ResolutionCandidateIdentity) (reason : ResolutionReason) : Prop :=
  (others = [] ∧ reason = .onlyCandidate) ∨
    ∃ runnerUp, Least sourceDirectory others runnerUp ∧
      reason = firstCriterion sourceDirectory winner runnerUp

/-- The resolution to a winner before the others. -/
def resolution (library : ResolutionLibrary) (kind : RecordResolutionKeyKind)
    (reason : ResolutionReason) (winner : ResolutionCandidateIdentity)
    (others : List ResolutionCandidateIdentity) : Except CatalogError RankedResolution :=
  (library.digest kind (winner :: others)).map fun digest =>
    .resolved winner.recordId winner.path reason kind (others.length + 1) digest
      (others.map (·.path)) others

/-- What is selected among distinct candidates in canonical order. -/
inductive SelectedFrom (library : ResolutionLibrary) (sourceDirectory : Text) :
    RecordResolutionKeyKind → List ResolutionCandidateIdentity →
      Except CatalogError RankedResolution → Prop where
  | missing {kind : RecordResolutionKeyKind} :
      SelectedFrom library sourceDirectory kind [] (.ok .missing)
  | overBudget {kind : RecordResolutionKeyKind} {distinct : List ResolutionCandidateIdentity}
      (large : maxResolutionCandidates < distinct.length) :
      SelectedFrom library sourceDirectory kind distinct
        (.error (resolutionBudgetError "resolution candidate"))
  | ranked {distinct : List ResolutionCandidateIdentity} {winner : ResolutionCandidateIdentity}
      {reason : ResolutionReason} (small : distinct.length ≤ maxResolutionCandidates)
      (least : Least sourceDirectory distinct winner)
      (separates : Separates sourceDirectory winner (distinct.filter (· ≠ winner)) reason) :
      SelectedFrom library sourceDirectory .basename distinct
        (resolution library .basename reason winner (distinct.filter (· ≠ winner)))
  | only {kind : RecordResolutionKeyKind} {winner : ResolutionCandidateIdentity}
      (unranked : kind ≠ .basename) :
      SelectedFrom library sourceDirectory kind [winner]
        (resolution library kind (onlyReason kind) winner [])
  | ambiguous {kind : RecordResolutionKeyKind} {distinct : List ResolutionCandidateIdentity}
      (unranked : kind ≠ .basename) (small : distinct.length ≤ maxResolutionCandidates)
      (several : 2 ≤ distinct.length) :
      SelectedFrom library sourceDirectory kind distinct (.ok (.ambiguous (distinct.map (·.path))))

/-- The selection among some candidates: an error when the source or a candidate is unsafe or two
candidates conflict, and otherwise what is selected among the distinct ones. -/
structure SelectsAmong (library : ResolutionLibrary) (sourcePath : String)
    (kind : RecordResolutionKeyKind) (candidates : List ResolutionCandidateIdentity)
    (result : Except CatalogError RankedResolution) : Prop where
  unsafeSource : (∀ path, collectionPath sourcePath ≠ .ok path) →
    result = .error invalidCandidateError
  refused : ¬Coherent candidates → result = .error invalidCandidateError
  selected : ∀ source, collectionPath sourcePath = .ok source → Coherent candidates →
    ∃ distinct : List ResolutionCandidateIdentity,
      (distinct.map (·.path)).Pairwise (· < ·) ∧
        (∀ identity, identity ∈ distinct ↔ Offered candidates identity) ∧
          SelectedFrom library (directory source) kind distinct result

/-- Identities agree: a record has one path and a path one record. -/
def Agree (identities : ResolutionCandidateIdentity → Prop) : Prop :=
  ∀ left right, identities left → identities right →
    (left.recordId = right.recordId ↔ left.path = right.path)

theorem Distinct.agree {found : List ResolutionCandidateIdentity} (distinct : Distinct found) :
    Agree (· ∈ found) := by
  intro left right leftMember rightMember
  constructor
  · intro same
    rw [List.inj_on_of_nodup_map distinct.ids leftMember rightMember same]
  · intro same
    rw [distinct.eq_of_path_eq leftMember rightMember same]

theorem canonicalIdentity_eq_some_iff {candidate identity : ResolutionCandidateIdentity} :
    canonicalIdentity candidate = some identity ↔
      candidate.recordId.isEmpty = false ∧ collectionPath candidate.path = .ok identity.path ∧
        candidate.recordId = identity.recordId := by
  unfold canonicalIdentity
  cases valid : collectionPath candidate.path with
  | error error => split_ifs <;> simp [Except.toOption]
  | ok path =>
    split_ifs with unnamed
    · simp [unnamed]
    · cases identity
      simp [Except.toOption, unnamed, and_comm]

theorem addCandidate_eq (found : List ResolutionCandidateIdentity)
    (candidate : ResolutionCandidateIdentity) :
    match canonicalIdentity candidate with
    | none => addCandidate found candidate = .error invalidCandidateError
    | some identity =>
      if ∀ other ∈ found, (other.recordId = identity.recordId ↔ other.path = identity.path) then
        ∃ after, addCandidate found candidate = .ok after
      else addCandidate found candidate = .error invalidCandidateError := by
  unfold addCandidate canonicalIdentity
  by_cases unnamed : candidate.recordId.isEmpty = true
  · simp [unnamed]
  · cases valid : collectionPath candidate.path with
    | error error => simp [unnamed, Except.toOption]
    | ok path =>
      rw [if_neg unnamed, if_neg unnamed]
      simp only [Except.toOption, Option.map_some]
      have agrees : (∀ other ∈ found, (other.recordId = candidate.recordId ↔ other.path = path)) ↔
          ¬(found.any fun other =>
            other.recordId = candidate.recordId ∧ other.path ≠ path) = true ∧
          ¬(found.any fun other =>
            other.path = path ∧ other.recordId ≠ candidate.recordId) = true := by
        simp only [List.any_eq_true, decide_eq_true_eq, not_exists, not_and, not_not]
        exact ⟨fun all => ⟨fun other member => (all other member).mp,
            fun other member => (all other member).mpr⟩,
          fun both other member => ⟨both.1 other member, both.2 other member⟩⟩
      by_cases otherPath : (found.any fun other =>
          other.recordId = candidate.recordId ∧ other.path ≠ path) = true
      · rw [if_pos otherPath, if_neg fun all => (agrees.mp all).1 otherPath]
      by_cases otherRecord : (found.any fun other =>
          other.path = path ∧ other.recordId ≠ candidate.recordId) = true
      · rw [if_neg otherPath, if_pos otherRecord, if_neg fun all => (agrees.mp all).2 otherRecord]
      rw [if_neg otherPath, if_neg otherRecord, if_pos (agrees.mpr ⟨otherPath, otherRecord⟩)]
      split <;> exact ⟨_, rfl⟩

variable {found candidates : List ResolutionCandidateIdentity}

/-- Candidates are collected when they are safe and agree, with each other and with those that were
found before. -/
theorem foldlM_addCandidate_isOk_iff (distinct : Distinct found) (canonical : Canonical found) :
    (∃ after, candidates.foldlM addCandidate found = .ok after) ↔
      (∀ candidate ∈ candidates, canonicalIdentity candidate ≠ none) ∧
        Agree fun identity => identity ∈ found ∨ Offered candidates identity := by
  induction candidates generalizing found with
  | nil =>
    refine iff_of_true ⟨found, rfl⟩ ⟨nofun, fun left right leftHere rightHere => ?_⟩
    exact distinct.agree left right (leftHere.resolve_right (by rintro ⟨_, ⟨⟩, _⟩))
      (rightHere.resolve_right (by rintro ⟨_, ⟨⟩, _⟩))
  | cons candidate candidates ih =>
    have step := addCandidate_eq found candidate
    rw [List.foldlM_cons]
    cases known : canonicalIdentity candidate with
    | none =>
      rw [known] at step
      rw [step]
      exact iff_of_false nofun fun facts => facts.1 _ List.mem_cons_self known
    | some identity =>
      rw [known] at step
      dsimp only at step
      have here : Offered (candidate :: candidates) identity :=
        ⟨candidate, List.mem_cons_self, known⟩
      split_ifs at step with agrees
      · obtain ⟨next, added⟩ := step
        obtain ⟨path, valid, nextDistinct, nextCanonical, members⟩ :=
          addCandidate_ok distinct canonical added
        obtain ⟨-, identityValid, record⟩ := canonicalIdentity_eq_some_iff.mp known
        have same : (⟨candidate.recordId, path⟩ : ResolutionCandidateIdentity) = identity := by
          cases identity
          simp_all
        have offered : ∀ other, other ∈ next ∨ Offered candidates other ↔
            other ∈ found ∨ Offered (candidate :: candidates) other := by
          intro other
          rw [members, same, or_assoc]
          refine or_congr_right ?_
          unfold Offered
          rw [List.exists_mem_cons_iff, known, Option.some.injEq, eq_comm]
        rw [added]
        refine (ih nextDistinct nextCanonical).trans (and_congr ?_ ?_)
        · rw [List.forall_mem_cons, known]
          exact (and_iff_right nofun).symm
        · exact Iff.of_eq (congrArg Agree (funext fun other => propext (offered other)))
      · rw [step]
        refine iff_of_false nofun fun facts => agrees fun other member => ?_
        exact facts.2 other identity (.inl member) (.inr here)

theorem foldlM_addCandidate_error
    {failure : CatalogError} (failed : candidates.foldlM addCandidate found = .error failure) :
    failure = invalidCandidateError := by
  induction candidates generalizing found with
  | nil => cases failed
  | cons candidate candidates ih =>
    have step := addCandidate_eq found candidate
    rw [List.foldlM_cons] at failed
    cases added : addCandidate found candidate with
    | ok next =>
      rw [added] at failed
      exact ih failed
    | error error =>
      rw [added] at failed step
      cases failed
      split at step
      next => exact Except.error.inj step
      split_ifs at step
      · obtain ⟨_, ⟨⟩⟩ := step
      · exact Except.error.inj step

theorem collected_or_refused (candidates : List ResolutionCandidateIdentity) :
    (Coherent candidates ∧ ∃ found, candidates.foldlM addCandidate [] = .ok found ∧
        Distinct found ∧ ∀ identity, identity ∈ found ↔ Offered candidates identity) ∨
      (¬Coherent candidates ∧
        candidates.foldlM addCandidate [] = .error invalidCandidateError) := by
  have nothing : Distinct [] := ⟨nofun, nofun, .nil, .nil⟩
  have coherent : Coherent candidates ↔
      ∃ after, candidates.foldlM addCandidate [] = .ok after := by
    rw [foldlM_addCandidate_isOk_iff nothing nofun]
    simp only [List.not_mem_nil, false_or]
    exact ⟨fun facts => ⟨facts.safe, facts.agree⟩, fun facts => ⟨facts.1, facts.2⟩⟩
  cases collected : candidates.foldlM addCandidate [] with
  | ok found =>
    obtain ⟨distinct, -, -, members⟩ := foldlM_addCandidate_ok nothing nofun collected
    have facts := coherent.mpr ⟨found, collected⟩
    refine .inl ⟨facts, found, rfl, distinct, fun identity => ?_⟩
    simp only [members, List.not_mem_nil, false_or, Offered]
    refine exists_congr fun candidate => and_congr_right fun member => ?_
    rw [canonicalIdentity_eq_some_iff, and_comm (a := candidate.recordId = _)]
    refine (and_iff_right_of_imp fun same => ?_).symm
    obtain ⟨known, named⟩ := Option.ne_none_iff_exists'.mp (facts.safe candidate member)
    exact (canonicalIdentity_eq_some_iff.mp named).1
  | error failure =>
    refine .inr ⟨fun facts => ?_, by rw [foldlM_addCandidate_error collected]⟩
    obtain ⟨after, succeeded⟩ := coherent.mp facts
    rw [collected] at succeeded
    cases succeeded

theorem sortBy_eq_of_offered {found others : List ResolutionCandidateIdentity}
    (distinct : Distinct found) (otherDistinct : Distinct others)
    (same : ∀ identity, identity ∈ others ↔ identity ∈ found) :
    sortBy comparePath others = sortBy comparePath found := by
  have nodup : ∀ {items : List ResolutionCandidateIdentity}, Distinct items → items.Nodup :=
    fun facts => facts.paths.of_map
  refine (ordersOn_comparePath found).sortBy_eq_of_perm (separatesOn_comparePath found) ?_
  exact (List.perm_ext_iff_of_nodup (nodup otherDistinct) (nodup distinct)).mpr same

theorem selectResolutionCandidate_congr (library : ResolutionLibrary) (sourcePath : String)
    (kind : RecordResolutionKeyKind) {candidates others : List ResolutionCandidateIdentity}
    (same : ∀ candidate, candidate ∈ others ↔ candidate ∈ candidates) :
    selectResolutionCandidate library sourcePath kind others =
      selectResolutionCandidate library sourcePath kind candidates := by
  have offered : Offered others = Offered candidates := by
    funext identity
    exact propext (exists_congr fun candidate => and_congr_left' (same candidate))
  have coherent : Coherent others ↔ Coherent candidates := by
    constructor
    · exact fun facts => ⟨fun candidate member => facts.safe candidate ((same _).mpr member),
        offered ▸ facts.agree⟩
    · exact fun facts => ⟨fun candidate member => facts.safe candidate ((same _).mp member),
        offered.symm ▸ facts.agree⟩
  unfold selectResolutionCandidate
  cases collectionPath sourcePath with
  | error _ => rfl
  | ok source =>
    dsimp only
    rcases collected_or_refused candidates with
      ⟨facts, found, collected, distinct, members⟩ | ⟨facts, refused⟩
    · rcases collected_or_refused others with
        ⟨-, otherFound, otherCollected, otherDistinct, otherMembers⟩ | ⟨otherFacts, -⟩
      · rw [collected, otherCollected]
        dsimp only
        rw [sortBy_eq_of_offered distinct otherDistinct fun identity => by
          rw [otherMembers, members, offered]]
      · exact absurd (coherent.mpr facts) otherFacts
    · rcases collected_or_refused others with ⟨otherFacts, -⟩ | ⟨-, otherRefused⟩
      · exact absurd (coherent.mp otherFacts) facts
      · rw [refused, otherRefused]

theorem resolvedTo_eq_resolution (library : ResolutionLibrary) (kind : RecordResolutionKeyKind)
    (reason : ResolutionReason) (winner : ResolutionCandidateIdentity)
    {losers others : List ResolutionCandidateIdentity}
    (sorted : sortBy comparePath losers = others) :
    resolvedTo library kind reason winner losers =
      resolution library kind reason winner others := by
  have length : losers.length = others.length := by rw [← sorted, length_sortBy]
  unfold resolvedTo resolution
  rw [sorted, length]
  dsimp only
  cases library.digest kind (winner :: others) <;> rfl

variable {sourceDirectory : Text} {found losers : List ResolutionCandidateIdentity}
  {winner : ResolutionCandidateIdentity}

theorem least_of_comesFirst (perm : (winner :: losers).Perm found)
    (first : ComesFirst sourceDirectory winner losers) : Least sourceDirectory found winner := by
  refine ⟨perm.mem_iff.mp List.mem_cons_self, fun other member different => ?_⟩
  exact first other ((List.mem_cons.mp (perm.mem_iff.mpr member)).resolve_left different)

theorem tied_of_between {runnerUp other : ResolutionCandidateIdentity}
    (below : comparePaths sourceDirectory winner.path runnerUp.path = .lt)
    (above : other = runnerUp ∨ comparePaths sourceDirectory runnerUp.path other.path = .lt)
    (place : isElsewhere sourceDirectory winner.path = isElsewhere sourceDirectory other.path)
    (level : depth winner.path = depth other.path) :
    isElsewhere sourceDirectory winner.path = isElsewhere sourceDirectory runnerUp.path ∧
      depth winner.path = depth runnerUp.path := by
  rcases above with rfl | above
  · exact ⟨place, level⟩
  rw [comparePaths_lt_iff] at below above
  rcases below with ⟨here, there⟩ | ⟨here, deeper⟩
  · rcases above with ⟨next, _⟩ | ⟨next, _⟩
    · rw [there] at next
      cases next
    · rw [← next, there, here] at place
      cases place
  · refine ⟨here, ?_⟩
    rcases above with ⟨next, last⟩ | ⟨next, further⟩
    · rw [place, last] at here
      rw [← here] at next
      cases next
    · omega

theorem separates_of_ranked (distinct : Distinct found) (perm : (winner :: losers).Perm found)
    (first : ComesFirst sourceDirectory winner losers) :
    Separates sourceDirectory winner losers (rankedReason sourceDirectory found) := by
  rw [← rankedReason_perm perm]
  by_cases alone : losers = []
  · exact .inl ⟨alone, by rw [alone]; rfl⟩
  have all := distinct.perm perm
  cases ranked : sortBy (compareRank sourceDirectory) losers with
  | nil =>
    have nothing := (sortBy_perm (compareRank sourceDirectory) losers).symm
    rw [ranked] at nothing
    exact absurd nothing.eq_nil alone
  | cons runnerUp rest =>
    obtain ⟨restPerm, next⟩ := comesFirst_of_sortBy all.of_cons ranked
    have least := least_of_comesFirst restPerm next
    refine .inr ⟨runnerUp, least, ?_⟩
    have below := first runnerUp least.1
    unfold firstCriterion
    rcases first.reason_cases all alone rfl with
      ⟨reason, beside, away⟩ | ⟨reason, elsewhere, deeper⟩ | ⟨reason, other, member, place, level⟩
    · rw [reason, if_pos (by rw [beside, away runnerUp least.1]; decide)]
    · have same := first.away elsewhere least.1
      have lower := deeper runnerUp least.1
      rw [reason, if_neg (by rw [elsewhere, same]; decide), if_pos (by omega)]
    · have above : other = runnerUp ∨
          comparePaths sourceDirectory runnerUp.path other.path = .lt := by
        by_cases same : other = runnerUp
        · exact .inl same
        · exact .inr (least.2 other member same)
      obtain ⟨samePlace, sameLevel⟩ := tied_of_between below above place level
      rw [reason, if_neg (not_not_intro samePlace), if_neg (not_not_intro sameLevel)]

theorem sortBy_losers (distinct : Distinct found) (perm : (winner :: losers).Perm found)
    (sorted : sortBy comparePath found = found) :
    sortBy comparePath losers = found.filter (· ≠ winner) := by
  have nodup : (winner :: losers).Nodup := (distinct.perm perm).paths.of_map
  have fresh := (List.nodup_cons.mp nodup).1
  have kept : losers.Perm (found.filter (· ≠ winner)) := by
    have filtered := perm.filter (· ≠ winner)
    rw [List.filter_cons_of_neg (by simp)] at filtered
    rwa [List.filter_eq_self.mpr] at filtered
    exact fun other member => decide_eq_true fun same => fresh (same ▸ member)
  have order := (ordersOn_comparePath found).pairwise_sortBy
  rw [sorted] at order
  exact (ordersOn_comparePath losers).sortBy_eq (separatesOn_comparePath losers) kept.symm
    (order.filter _)

theorem separates_of_perm {others : List ResolutionCandidateIdentity} {reason : ResolutionReason}
    (perm : losers.Perm others) (separates : Separates sourceDirectory winner losers reason) :
    Separates sourceDirectory winner others reason := by
  rcases separates with ⟨rfl, alone⟩ | ⟨runnerUp, ⟨member, below⟩, criterion⟩
  · exact .inl ⟨perm.symm.eq_nil, alone⟩
  · exact .inr ⟨runnerUp, ⟨perm.mem_iff.mp member, fun other here =>
      below other (perm.mem_iff.mpr here)⟩, criterion⟩

theorem ranked_selected (library : ResolutionLibrary) (distinct : Distinct found)
    (sorted : sortBy comparePath found = found) (present : found ≠ [])
    (small : found.length ≤ maxResolutionCandidates) :
    SelectedFrom library sourceDirectory .basename found
      (match sortBy (compareRank sourceDirectory) found with
      | [] => .ok .missing
      | winner :: losers =>
        resolvedTo library .basename (rankedReason sourceDirectory found) winner losers) := by
  cases ranked : sortBy (compareRank sourceDirectory) found with
  | nil =>
    have nothing := (sortBy_perm (compareRank sourceDirectory) found).symm
    rw [ranked] at nothing
    exact absurd nothing.eq_nil present
  | cons winner losers =>
    obtain ⟨perm, first⟩ := comesFirst_of_sortBy distinct ranked
    have others := sortBy_losers distinct perm sorted
    have kept : losers.Perm (found.filter (· ≠ winner)) := by
      rw [← others]
      exact (sortBy_perm comparePath losers).symm
    dsimp only
    rw [resolvedTo_eq_resolution library .basename _ winner others]
    exact .ranked small (least_of_comesFirst perm first)
      (separates_of_perm kept (separates_of_ranked distinct perm first))

theorem unranked_selected (library : ResolutionLibrary) {kind : RecordResolutionKeyKind}
    (unranked : kind ≠ .basename) :
    found ≠ [] → found.length ≤ maxResolutionCandidates →
      SelectedFrom library sourceDirectory kind found (match found with
        | [winner] => resolvedTo library kind (onlyReason kind) winner []
        | candidates => .ok (.ambiguous (candidates.map (·.path)))) := by
  intro present small
  match found with
  | [] => exact absurd rfl present
  | [winner] =>
    dsimp only
    rw [resolvedTo_eq_resolution library kind _ winner (rfl : sortBy comparePath [] = [])]
    exact .only unranked
  | winner :: other :: rest => exact .ambiguous unranked small (Nat.le_add_left _ _)

theorem selectAmong_selected (library : ResolutionLibrary) (kind : RecordResolutionKeyKind)
    (distinct : Distinct found) (sorted : sortBy comparePath found = found) :
    SelectedFrom library sourceDirectory kind found
      (selectAmong library sourceDirectory kind found) := by
  unfold selectAmong
  split_ifs with empty large
  · rw [List.isEmpty_iff.mp empty]
    exact .missing
  · exact .overBudget large
  · have small := Nat.le_of_not_lt large
    have present : found ≠ [] := fun nothing => empty (List.isEmpty_iff.mpr nothing)
    cases kind with
    | basename => exact ranked_selected library distinct sorted present small
    | id | path | title => exact unranked_selected library (by decide) present small

theorem selectResolutionCandidate_selects (library : ResolutionLibrary) (sourcePath : String)
    (kind : RecordResolutionKeyKind) (candidates : List ResolutionCandidateIdentity) :
    SelectsAmong library sourcePath kind candidates
      (selectResolutionCandidate library sourcePath kind candidates) where
  unsafeSource := by
    intro outside
    unfold selectResolutionCandidate
    cases source : collectionPath sourcePath with
    | error _ => rfl
    | ok path => exact absurd source (outside path)
  refused := by
    intro conflict
    unfold selectResolutionCandidate
    cases collectionPath sourcePath with
    | error _ => rfl
    | ok path =>
      rcases collected_or_refused candidates with ⟨facts, -⟩ | ⟨-, refused⟩
      · exact absurd facts conflict
      · rw [refused]
  selected := by
    intro source valid facts
    unfold selectResolutionCandidate
    rw [valid]
    rcases collected_or_refused candidates with ⟨-, found, collected, distinct, members⟩ | ⟨off, -⟩
    · have perm := sortBy_perm comparePath found
      rw [collected]
      refine ⟨sortBy comparePath found, List.pairwise_map.mpr (pairwise_paths distinct), fun identity => ?_, ?_⟩
      · rw [mem_sortBy, members]
      · exact selectAmong_selected library kind (distinct.perm perm)
          ((ordersOn_comparePath found).sortBy_eq_of_perm (separatesOn_comparePath found) perm)
    · exact absurd facts off

/-- What is selected does not depend on the order or the repetition of the candidates, it is the
least of the distinct ones with the criterion that separates it as its reason and the others in
canonical order beside it, and unsafe or conflicting candidates are refused wherever they are. -/
theorem selection_order_independent (library : ResolutionLibrary) (sourcePath : String)
    (kind : RecordResolutionKeyKind) :
    (∀ candidates others : List ResolutionCandidateIdentity,
      (∀ candidate, candidate ∈ others ↔ candidate ∈ candidates) →
        selectResolutionCandidate library sourcePath kind others =
          selectResolutionCandidate library sourcePath kind candidates) ∧
    (∀ candidates, SelectsAmong library sourcePath kind candidates
      (selectResolutionCandidate library sourcePath kind candidates)) ∧
    ∀ paths others : List String, (∀ path, path ∈ others ↔ path ∈ paths) →
      selectLocalResolution library sourcePath kind others =
        selectLocalResolution library sourcePath kind paths := by
  refine ⟨fun _ _ same => selectResolutionCandidate_congr library sourcePath kind same,
    selectResolutionCandidate_selects library sourcePath kind, fun paths others same => ?_⟩
  unfold selectLocalResolution
  rw [selectResolutionCandidate_congr library sourcePath kind]
  intro candidate
  simp only [List.mem_map, same]

end Mdbase.Links
