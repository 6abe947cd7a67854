import Mdbase.Links.Structure

/-!
# What the selection among candidates establishes

The selected record comes first among the distinct candidates. The reason of the selection
can be told from the winner and the losers, without ranking them again.
-/

namespace Mdbase.Links

open Library
open Mdbase.Query (CatalogError)

theorem length_components (path : Text) : (components path).length = path.count '/' + 1 := by
  induction path with
  | nil => rfl
  | cons character path ih =>
    rw [components_cons, List.count_cons]
    split
    next slash => simp [slash, ih]
    next other => simp [other, ih]

theorem directory_cut (path : String) : (directory path = [] ∧ '/' ∉ path.toList) ∨
    ∃ name, '/' ∉ name ∧ path.toList = directory path ++ '/' :: name := by
  by_cases slash : '/' ∈ path.toList
  · obtain ⟨name, parent, split, plain⟩ := List.eq_append_cons_of_mem (List.mem_reverse.mpr slash)
    have whole : path.toList = parent.reverse ++ '/' :: name.reverse := by
      rw [← List.reverse_reverse path.toList, split]
      simp
    refine .inr ⟨name.reverse, by simpa using plain, ?_⟩
    have kept : directory path = parent.reverse := by
      rw [directory, List.rdropWhile, split, List.dropWhile_append_of_pos]
      · simp
      · intro character member
        simpa using fun same : character = '/' => plain (same ▸ member)
    rw [kept, whole]
  · refine .inl ⟨?_, slash⟩
    have nothing : path.toList.rdropWhile (· ≠ '/') = [] := by
      rw [List.rdropWhile_eq_nil_iff]
      intro character member
      simpa using fun same : character = '/' => slash (same ▸ member)
    rw [directory, nothing]
    rfl

theorem depth_eq_of_directory_eq {left right here there : String}
    (leftValid : collectionPath left = .ok here) (rightValid : collectionPath right = .ok there)
    (same : directory left = directory right) : depth left = depth right := by
  have rooted : ∀ {path canonical : String}, collectionPath path = .ok canonical →
      ∀ name, path.toList ≠ '/' :: name := by
    intro path canonical valid name whole
    have inside : [] ∈ components path.toList := by
      rw [whole, components_cons, if_pos rfl]
      exact List.mem_cons_self
    exact (ne_of_mem_components valid inside).1 rfl
  have counted : ∀ {path canonical : String}, collectionPath path = .ok canonical →
      depth path = if directory path = [] then 1 else (directory path).count '/' + 2 := by
    intro path canonical valid
    rw [depth, length_components]
    rcases directory_cut path with ⟨empty, plain⟩ | ⟨name, plain, whole⟩
    · rw [if_pos empty, List.count_eq_zero.mpr plain]
    · have inner : directory path ≠ [] := by
        intro empty
        rw [empty] at whole
        exact rooted valid name whole
      rw [if_neg inner]
      conv_lhs => rw [whole]
      rw [List.count_append, List.count_cons_self, List.count_eq_zero.mpr plain]
  rw [counted leftValid, counted rightValid, same]

/-- Candidates with valid paths, one for each record and each path. -/
structure Distinct (candidates : List ResolutionCandidateIdentity) : Prop where
  named : ∀ candidate ∈ candidates, candidate.recordId.isEmpty = false
  valid : ∀ candidate ∈ candidates, ∃ path, collectionPath candidate.path = .ok path
  ids : (candidates.map (·.recordId)).Nodup
  paths : (candidates.map (·.path)).Nodup

/-- The candidates are stored with canonical paths. -/
def Canonical (candidates : List ResolutionCandidateIdentity) : Prop :=
  ∀ candidate ∈ candidates, collectionPath candidate.path = .ok candidate.path

variable {candidates found others : List ResolutionCandidateIdentity}
  {winner : ResolutionCandidateIdentity}

theorem Distinct.of_cons (distinct : Distinct (winner :: others)) : Distinct others where
  named := fun candidate member => distinct.named candidate (List.mem_cons_of_mem _ member)
  valid := fun candidate member => distinct.valid candidate (List.mem_cons_of_mem _ member)
  ids := (List.nodup_cons.mp distinct.ids).2
  paths := (List.nodup_cons.mp distinct.paths).2

theorem Distinct.perm (distinct : Distinct candidates) (perm : found.Perm candidates) :
    Distinct found where
  named := fun candidate member => distinct.named candidate (perm.mem_iff.mp member)
  valid := fun candidate member => distinct.valid candidate (perm.mem_iff.mp member)
  ids := (perm.map _).nodup_iff.mpr distinct.ids
  paths := (perm.map _).nodup_iff.mpr distinct.paths

variable {left right : ResolutionCandidateIdentity}

theorem Distinct.eq_of_path_eq (distinct : Distinct candidates) (leftMember : left ∈ candidates)
    (rightMember : right ∈ candidates) (same : left.path = right.path) : left = right :=
  List.inj_on_of_nodup_map distinct.paths leftMember rightMember same

theorem collectionPath_isSome {path : String} :
    (collectionPath path).toOption.isSome = true ↔ ∃ canonical,
      collectionPath path = .ok canonical := by
  cases collectionPath path <;> simp [Except.toOption]

variable {after : List ResolutionCandidateIdentity}

/-- An added candidate keeps the list distinct and its paths canonical. -/
theorem addCandidate_ok (distinct : Distinct found) (canonical : Canonical found)
    {candidate : ResolutionCandidateIdentity} (added : addCandidate found candidate = .ok after) :
    ∃ path, collectionPath candidate.path = .ok path ∧ Distinct after ∧ Canonical after ∧
      ∀ other, other ∈ after ↔ other ∈ found ∨ other = ⟨candidate.recordId, path⟩ := by
  unfold addCandidate at added
  split_ifs at added with unnamed
  cases valid : collectionPath candidate.path with
  | error error =>
    rw [valid] at added
    cases added
  | ok path =>
    rw [valid] at added
    dsimp only at added
    split_ifs at added with otherPath otherRecord known
    · cases added
      obtain ⟨other, member, samePath⟩ := List.any_eq_true.mp known
      have same : other = ⟨candidate.recordId, path⟩ := by
        have record : other.recordId = candidate.recordId := by
          by_contra differ
          exact otherRecord (List.any_eq_true.mpr ⟨other, member, by simp_all⟩)
        have here : other.path = path := by simpa using samePath
        rw [← record, ← here]
      refine ⟨path, rfl, distinct, canonical, fun another => ⟨.inl, ?_⟩⟩
      rintro (member | rfl)
      · exact member
      · exact same ▸ member
    · cases added
      have newPath : path ∉ found.map (·.path) := by
        intro member
        obtain ⟨other, member, same⟩ := List.mem_map.mp member
        exact known (List.any_eq_true.mpr ⟨other, member, by simpa using same⟩)
      have newId : candidate.recordId ∉ found.map (·.recordId) := by
        intro member
        obtain ⟨other, member, same⟩ := List.mem_map.mp member
        have differ : other.path ≠ path := fun here =>
          newPath (List.mem_map.mpr ⟨other, member, here⟩)
        exact otherPath (List.any_eq_true.mpr ⟨other, member, by simp [same, differ]⟩)
      refine ⟨path, rfl, ?_, ?_, by simp⟩
      · constructor
        · intro other member
          rcases List.mem_append.mp member with member | member
          · exact distinct.named other member
          · rw [List.mem_singleton.mp member]
            simpa using unnamed
        · intro other member
          rcases List.mem_append.mp member with member | member
          · exact distinct.valid other member
          · rw [List.mem_singleton.mp member]
            exact ⟨path, collectionPath_idem valid⟩
        · rw [List.map_append, List.map_singleton, List.nodup_append]
          refine ⟨distinct.ids, List.nodup_singleton _, ?_⟩
          intro id member other otherMember same
          rw [same, List.mem_singleton.mp otherMember] at member
          exact newId member
        · rw [List.map_append, List.map_singleton, List.nodup_append]
          refine ⟨distinct.paths, List.nodup_singleton _, ?_⟩
          intro here member other otherMember same
          rw [same, List.mem_singleton.mp otherMember] at member
          exact newPath member
      · intro other member
        rcases List.mem_append.mp member with member | member
        · exact canonical other member
        · rw [List.mem_singleton.mp member]
          exact collectionPath_idem valid

/-- Gathered candidates are distinct and canonical, and they are those that were added. -/
theorem foldlM_addCandidate_ok (distinct : Distinct found) (canonical : Canonical found)
    (added : candidates.foldlM addCandidate found = .ok after) :
    Distinct after ∧ Canonical after ∧
      (∀ candidate ∈ candidates, ∃ path, collectionPath candidate.path = .ok path) ∧
      ∀ other, other ∈ after ↔ other ∈ found ∨ ∃ candidate ∈ candidates,
        candidate.recordId = other.recordId ∧ collectionPath candidate.path = .ok other.path := by
  induction candidates generalizing found with
  | nil =>
    cases added
    exact ⟨distinct, canonical, by simp, by simp⟩
  | cons candidate candidates ih =>
    rw [List.foldlM_cons] at added
    cases step : addCandidate found candidate with
    | error error =>
      rw [step] at added
      cases added
    | ok next =>
      rw [step] at added
      obtain ⟨path, valid, nextDistinct, nextCanonical, members⟩ :=
        addCandidate_ok distinct canonical step
      obtain ⟨afterDistinct, afterCanonical, allValid, afterMembers⟩ :=
        ih nextDistinct nextCanonical added
      refine ⟨afterDistinct, afterCanonical, ?_, fun other => ?_⟩
      · exact List.forall_mem_cons.mpr ⟨⟨path, valid⟩, allValid⟩
      rw [afterMembers, members, or_assoc]
      refine or_congr_right ?_
      have here : other = ⟨candidate.recordId, path⟩ ↔
          candidate.recordId = other.recordId ∧
            collectionPath candidate.path = .ok other.path := by
        rw [valid]
        constructor
        · rintro rfl
          exact ⟨rfl, rfl⟩
        · rintro ⟨record, same⟩
          cases same
          rw [record]
      rw [here]
      simp

/-- Distinct canonical candidates are all kept. -/
theorem foldlM_addCandidate_distinct (distinct : Distinct (found ++ candidates))
    (canonical : Canonical candidates) :
    candidates.foldlM addCandidate found = .ok (found ++ candidates) := by
  induction candidates generalizing found with
  | nil =>
    rw [List.append_nil]
    rfl
  | cons candidate candidates ih =>
    have member : candidate ∈ found ++ candidate :: candidates := by simp
    have outside : ∀ other ∈ found, other.recordId ≠ candidate.recordId ∧
        other.path ≠ candidate.path := by
      intro other inside
      have ids := distinct.ids
      have paths := distinct.paths
      rw [List.map_append, List.nodup_append] at ids paths
      exact ⟨ids.2.2 _ (List.mem_map_of_mem inside) _ (by simp),
        paths.2.2 _ (List.mem_map_of_mem inside) _ (by simp)⟩
    have step : addCandidate found candidate = .ok (found ++ [candidate]) := by
      unfold addCandidate
      rw [distinct.named candidate member, canonical candidate List.mem_cons_self]
      have otherPath : ¬(found.any fun other =>
          other.recordId = candidate.recordId ∧ other.path ≠ candidate.path) = true := by
        simpa using fun other inside same => absurd same (outside other inside).1
      have otherRecord : ¬(found.any fun other =>
          other.path = candidate.path ∧ other.recordId ≠ candidate.recordId) = true := by
        simpa using fun other inside same => absurd same (outside other inside).2
      have known : ¬(found.any fun other => other.path = candidate.path) = true := by
        simpa using fun other inside => (outside other inside).2
      dsimp only
      rw [if_neg (by simp), if_neg otherPath, if_neg otherRecord, if_neg known]
    have rest := @ih (found ++ [candidate]) (by simpa using distinct)
      (fun other inside => canonical other (List.mem_cons_of_mem _ inside))
    rw [List.append_assoc, List.singleton_append] at rest
    rw [List.foldlM_cons, step]
    exact rest

variable {sourceDirectory : Text}

theorem compareRank_of_ne (differ : left.path ≠ right.path) :
    compareRank sourceDirectory left right = comparePaths sourceDirectory left.path right.path := by
  have decided : (compare left.path right.path).then (compare left.recordId right.recordId) =
      compare left.path right.path := by
    cases answer : compare left.path right.path with
    | eq => exact absurd (compare_eq_iff_eq.mp answer) differ
    | lt | gt => rfl
  rw [compareRank, comparePath, decided, comparePaths]

theorem ordersOn_comparePath (items : List ResolutionCandidateIdentity) :
    OrdersOn comparePath items := by
  have paths : OrdersOn (fun left right : ResolutionCandidateIdentity =>
      compare left.path right.path) items :=
    OrdersOn.of_key ResolutionCandidateIdentity.path
  have ids : OrdersOn (fun left right : ResolutionCandidateIdentity =>
      compare left.recordId right.recordId) items :=
    OrdersOn.of_key ResolutionCandidateIdentity.recordId
  exact paths.refined ids

theorem ordersOn_compareRank (items : List ResolutionCandidateIdentity) :
    OrdersOn (compareRank sourceDirectory) items := by
  have places : OrdersOn (fun left right : ResolutionCandidateIdentity =>
      compareBool (isElsewhere sourceDirectory left.path)
        (isElsewhere sourceDirectory right.path)) items :=
    OrdersOn.of_key fun item : ResolutionCandidateIdentity =>
      (isElsewhere sourceDirectory item.path).toNat
  have depths : OrdersOn (fun left right : ResolutionCandidateIdentity =>
      compare (depth left.path) (depth right.path)) items :=
    OrdersOn.of_key fun item : ResolutionCandidateIdentity => depth item.path
  exact places.refined (depths.refined (ordersOn_comparePath items))

theorem separatesOn_comparePath (items : List ResolutionCandidateIdentity) :
    SeparatesOn comparePath items := by
  intro left _ right _ equal
  obtain ⟨path, id⟩ := Ordering.then_eq_eq.mp equal
  cases left
  cases right
  simp_all

theorem separatesOn_compareRank (items : List ResolutionCandidateIdentity) :
    SeparatesOn (compareRank sourceDirectory) items := by
  intro left leftMember right rightMember equal
  obtain ⟨_, rest⟩ := Ordering.then_eq_eq.mp equal
  exact separatesOn_comparePath items left leftMember right rightMember
    (Ordering.then_eq_eq.mp rest).2

theorem comparePaths_lt_iff {left right : String} :
    comparePaths sourceDirectory left right = .lt ↔
      (isElsewhere sourceDirectory left = false ∧ isElsewhere sourceDirectory right = true) ∨
        isElsewhere sourceDirectory left = isElsewhere sourceDirectory right ∧
          (depth left < depth right ∨ depth left = depth right ∧ left < right) := by
  unfold comparePaths compareBool
  rw [Ordering.then_eq_lt, Ordering.then_eq_lt, compare_lt_iff_lt, compare_lt_iff_lt,
    compare_lt_iff_lt, compare_eq_iff_eq, compare_eq_iff_eq]
  cases isElsewhere sourceDirectory left <;> cases isElsewhere sourceDirectory right <;> simp

/-- The winner comes before every other candidate. -/
def ComesFirst (sourceDirectory : Text) (winner : ResolutionCandidateIdentity)
    (others : List ResolutionCandidateIdentity) : Prop :=
  ∀ other ∈ others, comparePaths sourceDirectory winner.path other.path = .lt

variable {losers : List ResolutionCandidateIdentity}

/-- The head of the ranked candidates comes before all others. -/
theorem comesFirst_of_sortBy (distinct : Distinct found)
    (ranked : sortBy (compareRank sourceDirectory) found = winner :: losers) :
    (winner :: losers).Perm found ∧ ComesFirst sourceDirectory winner losers := by
  have perm := ranked ▸ sortBy_perm (compareRank sourceDirectory) found
  have orders : OrdersOn (compareRank sourceDirectory) found := ordersOn_compareRank found
  have pairwise := orders.pairwise_sortBy
  rw [ranked] at pairwise
  refine ⟨perm, fun other member => ?_⟩
  have below := (List.pairwise_cons.mp pairwise).1 other member
  have differ : winner.path ≠ other.path := by
    have paths := (distinct.perm perm).paths
    exact fun same => (List.nodup_cons.mp paths).1 (List.mem_map.mpr ⟨other, member, same.symm⟩)
  rw [compareRank_of_ne differ] at below
  cases order : comparePaths sourceDirectory winner.path other.path with
  | lt => rfl
  | eq =>
    have equal := (Ordering.then_eq_eq.mp (Ordering.then_eq_eq.mp order).2).2
    exact absurd (compare_eq_iff_eq.mp equal) differ
  | gt =>
    rw [order] at below
    cases below

theorem ComesFirst.sortBy_eq (first : ComesFirst sourceDirectory winner others)
    (perm : (winner :: others).Perm found) :
    sortBy (compareRank sourceDirectory) found =
      winner :: sortBy (compareRank sourceDirectory) others := by
  refine (ordersOn_compareRank found).sortBy_eq (separatesOn_compareRank found)
    (((sortBy_perm _ others).cons winner).trans perm) ?_
  refine List.pairwise_cons.mpr ⟨fun other member => ?_,
    (ordersOn_compareRank others).pairwise_sortBy⟩
  have lower := first other (mem_sortBy.mp member)
  have differ : winner.path ≠ other.path := by
    intro same
    rw [same, comparePaths_lt_iff] at lower
    simp at lower
  rw [compareRank_of_ne differ, lower]
  rfl

theorem insertionSort_unique_iff {least : Nat} {rest : List Nat} (several : rest ≠ [])
    (below : ∀ number ∈ rest, least ≤ number) :
    ((least :: rest).insertionSort (· ≤ ·)).head? ≠
        ((least :: rest).insertionSort (· ≤ ·)).tail.head? ↔
      ∀ number ∈ rest, least < number := by
  rw [List.insertionSort_cons_of_forall_rel _ below, List.head?_cons, List.tail_cons]
  cases ordered : rest.insertionSort (· ≤ ·) with
  | nil =>
    exact absurd ((List.perm_insertionSort (· ≤ ·) rest).symm.trans (.of_eq ordered)).eq_nil several
  | cons second others =>
    have perm : (second :: others).Perm rest := ordered ▸ List.perm_insertionSort _ rest
    have pairwise : (second :: others).Pairwise (· ≤ ·) :=
      ordered ▸ List.pairwise_insertionSort (· ≤ ·) rest
    rw [List.head?_cons]
    constructor
    · intro differ number member
      have member := perm.mem_iff.mpr member
      have first := below second (perm.mem_iff.mp List.mem_cons_self)
      have apart : least ≠ second := fun same => differ (congrArg some same)
      rcases List.mem_cons.mp member with rfl | later
      · omega
      · have := (List.pairwise_cons.mp pairwise).1 number later
        omega
    · intro lower same
      have := lower second (perm.mem_iff.mp List.mem_cons_self)
      cases same
      omega

theorem rankedReason_perm (perm : found.Perm candidates) :
    rankedReason sourceDirectory found = rankedReason sourceDirectory candidates := by
  have beside := perm.filter fun candidate => !isElsewhere sourceDirectory candidate.path
  have sorted : ∀ {left right : List ResolutionCandidateIdentity}, left.Perm right →
      (left.map fun candidate => depth candidate.path).insertionSort (· ≤ ·) =
        (right.map fun candidate => depth candidate.path).insertionSort (· ≤ ·) := by
    intro left right same
    exact List.Perm.eq_of_pairwise' (List.pairwise_insertionSort _ _)
      (List.pairwise_insertionSort _ _) ((List.perm_insertionSort _ _).trans
        ((same.map _).trans (List.perm_insertionSort _ _).symm))
  simp only [rankedReason]
  rw [perm.length_eq, beside.length_eq, beside.isEmpty_eq]
  by_cases empty : (candidates.filter fun candidate =>
      !isElsewhere sourceDirectory candidate.path).isEmpty = true
  · rw [if_pos empty, if_pos empty, sorted perm]
  · rw [if_neg empty, if_neg empty, sorted beside]

variable {other : ResolutionCandidateIdentity}

theorem ComesFirst.le_depth (first : ComesFirst sourceDirectory winner others)
    (member : other ∈ others)
    (same : isElsewhere sourceDirectory winner.path = isElsewhere sourceDirectory other.path) :
    depth winner.path ≤ depth other.path := by
  rcases comparePaths_lt_iff.mp (first other member) with ⟨here, there⟩ | ⟨_, deeper | ⟨equal, _⟩⟩
  · rw [here, there] at same
    cases same
  · exact deeper.le
  · exact equal.le

theorem depth_eq_of_beside (distinct : Distinct candidates) (leftMember : left ∈ candidates)
    (rightMember : right ∈ candidates) (leftBeside : isElsewhere sourceDirectory left.path = false)
    (rightBeside : isElsewhere sourceDirectory right.path = false) :
    depth left.path = depth right.path := by
  obtain ⟨here, leftValid⟩ := distinct.valid left leftMember
  obtain ⟨there, rightValid⟩ := distinct.valid right rightMember
  have leftDirectory : directory left.path = sourceDirectory := by
    simpa [isElsewhere] using leftBeside
  have rightDirectory : directory right.path = sourceDirectory := by
    simpa [isElsewhere] using rightBeside
  exact depth_eq_of_directory_eq leftValid rightValid (leftDirectory.trans rightDirectory.symm)

theorem ComesFirst.away (first : ComesFirst sourceDirectory winner others)
    (elsewhere : isElsewhere sourceDirectory winner.path = true) (member : other ∈ others) :
    isElsewhere sourceDirectory other.path = true := by
  rcases comparePaths_lt_iff.mp (first other member) with ⟨here, _⟩ | ⟨same, _⟩
  · rw [here] at elsewhere
    cases elsewhere
  · rw [← same, elsewhere]

/-- The reason of the first of several candidates away from the source: they are compared by
their depths. -/
theorem ComesFirst.rankedReason_elsewhere (first : ComesFirst sourceDirectory winner others)
    (several : others ≠ []) (elsewhere : isElsewhere sourceDirectory winner.path = true) :
    rankedReason sourceDirectory (winner :: others) =
      if ∀ other ∈ others, depth winner.path < depth other.path then .shallowestPath
      else .lexicalTieBreak := by
  have away : ∀ other ∈ others, isElsewhere sourceDirectory other.path = true :=
    fun other member => first.away elsewhere member
  have beside : (winner :: others).filter (fun candidate =>
      !isElsewhere sourceDirectory candidate.path) = [] := by
    rw [List.filter_eq_nil_iff]
    intro candidate member
    rcases List.mem_cons.mp member with rfl | member
    · simp [elsewhere]
    · simp [away candidate member]
  have unique := @insertionSort_unique_iff (depth winner.path)
    (others.map fun other => depth other.path) (by simpa using several) (by
      intro number member
      obtain ⟨other, inside, rfl⟩ := List.mem_map.mp member
      exact first.le_depth inside (by rw [elsewhere, away other inside]))
  have notOne : (winner :: others).length ≠ 1 := by
    simpa using several
  simp only [rankedReason, if_neg notOne]
  rw [beside, if_neg (by simp)]
  simp only [List.isEmpty_nil, if_true, List.map_cons]
  simp only [unique, List.forall_mem_map]

/-- The reason of the first of several candidates beside the source: those beside the source
have one depth. -/
theorem rankedReason_beside (distinct : Distinct (winner :: others)) (several : others ≠ [])
    (beside : isElsewhere sourceDirectory winner.path = false) :
    rankedReason sourceDirectory (winner :: others) =
      if ∀ other ∈ others, isElsewhere sourceDirectory other.path then .sameDirectory
      else .lexicalTieBreak := by
  let near := others.filter fun candidate => !isElsewhere sourceDirectory candidate.path
  have kept : (winner :: others).filter (fun candidate =>
      !isElsewhere sourceDirectory candidate.path) = winner :: near :=
    List.filter_cons_of_pos (by simp [beside])
  have notOne : (winner :: others).length ≠ 1 := by
    simpa using several
  simp only [rankedReason, if_neg notOne]
  rw [kept, List.length_cons]
  by_cases away : ∀ other ∈ others, isElsewhere sourceDirectory other.path = true
  · have nothing : near = [] := by
      rw [List.filter_eq_nil_iff]
      intro other member
      simp [away other member]
    rw [if_pos away, nothing, List.length_nil, Nat.zero_add, if_pos rfl]
  · have some_ : near ≠ [] := by
      intro nothing
      rw [List.filter_eq_nil_iff] at nothing
      exact away fun other member => by simpa using nothing other member
    have equal : ∀ number ∈ near.map fun other => depth other.path,
        number = depth winner.path := by
      intro number member
      obtain ⟨other, inside, rfl⟩ := List.mem_map.mp member
      obtain ⟨member, here⟩ := List.mem_filter.mp inside
      exact depth_eq_of_beside distinct (List.mem_cons_of_mem _ member) List.mem_cons_self
        (by simpa using here) beside
    have unique := @insertionSort_unique_iff (depth winner.path)
      (near.map fun other => depth other.path) (by simpa using some_)
      (fun number member => (equal number member).ge)
    have tied : ¬∀ number ∈ near.map fun other => depth other.path,
        depth winner.path < number := by
      intro lower
      obtain ⟨other, member⟩ := List.exists_mem_of_ne_nil _ some_
      have inside := List.mem_map_of_mem (f := fun other => depth other.path) member
      have := lower _ inside
      rw [equal _ inside] at this
      exact lt_irrefl _ this
    have lengths : near.length + 1 ≠ 1 := by
      simpa using some_
    rw [if_neg away, if_neg lengths]
    simp only [List.isEmpty_cons, Bool.false_eq_true, if_false, List.map_cons]
    rw [if_neg (unique.not.mpr tied)]

theorem ComesFirst.reason_cases (first : ComesFirst sourceDirectory winner others)
    (distinct : Distinct (winner :: others)) (several : others ≠ []) {reason : ResolutionReason}
    (ranked : rankedReason sourceDirectory (winner :: others) = reason) :
    (reason = .sameDirectory ∧ isElsewhere sourceDirectory winner.path = false ∧
        ∀ other ∈ others, isElsewhere sourceDirectory other.path = true) ∨
      (reason = .shallowestPath ∧ isElsewhere sourceDirectory winner.path = true ∧
        ∀ other ∈ others, depth winner.path < depth other.path) ∨
      (reason = .lexicalTieBreak ∧ ∃ other ∈ others,
        isElsewhere sourceDirectory winner.path = isElsewhere sourceDirectory other.path ∧
          depth winner.path = depth other.path) := by
  subst ranked
  cases place : isElsewhere sourceDirectory winner.path with
  | true =>
    rw [first.rankedReason_elsewhere several place]
    split
    next lower => exact .inr (.inl ⟨rfl, rfl, lower⟩)
    rename_i tied
    push Not at tied
    obtain ⟨other, member, shallow⟩ := tied
    have away := first.away place member
    have deep := first.le_depth member (by rw [place, away])
    exact .inr (.inr ⟨rfl, other, member, away.symm, le_antisymm deep shallow⟩)
  | false =>
    rw [rankedReason_beside distinct several place]
    split
    next away => exact .inl ⟨rfl, rfl, away⟩
    rename_i near
    push Not at near
    obtain ⟨other, member, beside⟩ := near
    have beside : isElsewhere sourceDirectory other.path = false := by simpa using beside
    exact .inr (.inr ⟨rfl, other, member, beside.symm,
      depth_eq_of_beside distinct List.mem_cons_self (List.mem_cons_of_mem _ member) place
        beside⟩)

/-- The checks of a ranked reason hold for the first of the candidates with the reason of its
selection, and for no other reason. -/
theorem rankingIsProven_iff (distinct : Distinct (winner :: others)) (several : others ≠ [])
    (reason : ResolutionReason) :
    rankingIsProven sourceDirectory winner.path (others.map (·.path)) reason = true ↔
      ComesFirst sourceDirectory winner others ∧
        rankedReason sourceDirectory (winner :: others) = reason := by
  constructor
  · intro proven
    cases reason with
    | configuredId | onlyCandidate | exactPath => cases proven
    | sameDirectory =>
      obtain ⟨beside, away⟩ : isElsewhere sourceDirectory winner.path = false ∧
          ∀ other ∈ others, isElsewhere sourceDirectory other.path = true := by
        simpa [rankingIsProven] using proven
      refine ⟨fun other member => comparePaths_lt_iff.mpr (.inl ⟨beside, away other member⟩), ?_⟩
      rw [rankedReason_beside distinct several beside, if_pos away]
    | shallowestPath =>
      obtain ⟨elsewhere, lower⟩ : isElsewhere sourceDirectory winner.path = true ∧
          ∀ other ∈ others, isElsewhere sourceDirectory other.path = true ∧
            depth winner.path < depth other.path := by
        simpa [rankingIsProven] using proven
      have first : ComesFirst sourceDirectory winner others := by
        intro other member
        obtain ⟨away, deeper⟩ := lower other member
        exact comparePaths_lt_iff.mpr (.inr ⟨elsewhere.trans away.symm, .inl deeper⟩)
      refine ⟨first, ?_⟩
      rw [first.rankedReason_elsewhere several elsewhere,
        if_pos fun other member => (lower other member).2]
    | lexicalTieBreak =>
      obtain ⟨first, tied, member, same, equal⟩ : ComesFirst sourceDirectory winner others ∧
          ∃ other ∈ others, isElsewhere sourceDirectory winner.path =
            isElsewhere sourceDirectory other.path ∧ depth winner.path = depth other.path := by
        simpa [rankingIsProven, ComesFirst] using proven
      refine ⟨first, ?_⟩
      cases place : isElsewhere sourceDirectory winner.path with
      | true =>
        rw [first.rankedReason_elsewhere several place,
          if_neg fun lower => (lower tied member).ne equal]
      | false =>
        rw [rankedReason_beside distinct several place, if_neg]
        intro away
        rw [away tied member, place] at same
        cases same
  · rintro ⟨first, ranked⟩
    rcases first.reason_cases distinct several ranked with
      ⟨rfl, beside, away⟩ | ⟨rfl, elsewhere, lower⟩ | ⟨rfl, tied⟩
    · simpa [rankingIsProven, beside] using away
    · simpa [rankingIsProven, elsewhere] using
        fun other member => ⟨first.away elsewhere member, lower other member⟩
    · simpa [rankingIsProven] using ⟨first, tied⟩

/-- A reason holds of a winner and its losers: the only candidate is selected by its kind,
several are ranked. -/
def ReasonHolds (sourceDirectory : Text) (kind : RecordResolutionKeyKind)
    (winner : ResolutionCandidateIdentity) (others : List ResolutionCandidateIdentity)
    (reason : ResolutionReason) : Prop :=
  (others = [] ∧ reason = onlyReason kind) ∨
    (others ≠ [] ∧ kind = .basename ∧
      rankingIsProven sourceDirectory winner.path (others.map (·.path)) reason = true)

/-- A winner is selected among distinct candidates: what the evidence of a selection records. -/
structure Selects (library : ResolutionLibrary) (sourceDirectory : Text)
    (kind : RecordResolutionKeyKind) (winner : ResolutionCandidateIdentity)
    (others : List ResolutionCandidateIdentity) (reason : ResolutionReason) (digest : String) :
    Prop where
  distinct : Distinct (winner :: others)
  bounded : others.length + 1 ≤ maxResolutionCandidates
  ordered : others.IsChain fun left right => comparePath left right = .lt
  digest : library.digest kind (winner :: others) = .ok digest
  reason : ReasonHolds sourceDirectory kind winner others reason

variable {library : ResolutionLibrary} {kind : RecordResolutionKeyKind}
  {reason : ResolutionReason} {digest : String}

theorem sortBy_comparePath (ordered : others.IsChain fun left right =>
      comparePath left right = .lt) (perm : others.Perm found) :
    sortBy comparePath found = others := by
  refine (ordersOn_comparePath found).sortBy_eq (separatesOn_comparePath found) perm ?_
  have transitive : IsTrans ResolutionCandidateIdentity fun left right =>
      (comparePath left right).isLE = true :=
    ⟨fun first second third => (ordersOn_comparePath [first, second, third]).isLE_trans
      (by simp) (by simp) (by simp)⟩
  refine List.isChain_iff_pairwise.mp (ordered.imp fun left right lower => ?_)
  rw [lower]
  rfl

theorem pairwise_paths (distinct : Distinct found) :
    (sortBy comparePath found).Pairwise fun left right => left.path < right.path := by
  have sorted := (ordersOn_comparePath found).pairwise_sortBy
  have apart := List.pairwise_map.mp (distinct.perm (sortBy_perm comparePath found)).paths
  refine sorted.imp₂ (fun left right below differ => ?_) apart
  rw [comparePath, Ordering.isLE_iff_ne_gt] at below
  cases order : compare left.path right.path with
  | lt => exact compare_lt_iff_lt.mp order
  | eq => exact absurd (compare_eq_iff_eq.mp order) differ
  | gt =>
    rw [order] at below
    exact absurd rfl below

theorem isChain_sortBy (distinct : Distinct found) :
    (sortBy comparePath found).IsChain fun left right => comparePath left right = .lt := by
  refine ((pairwise_paths distinct).imp fun {left right} lower => ?_).isChain
  rw [comparePath, compare_lt_iff_lt.mpr lower]
  rfl

variable {recordId path : String} {selectedKind : RecordResolutionKeyKind}
  {alternatives : List String}

theorem resolvedTo_eq_iff {given : ResolutionReason} {count : Nat} :
    resolvedTo library kind reason winner losers =
        .ok (.resolved recordId path given selectedKind count digest alternatives others) ↔
      winner = ⟨recordId, path⟩ ∧ given = reason ∧ selectedKind = kind ∧
        count = losers.length + 1 ∧ others = sortBy comparePath losers ∧
        alternatives = others.map (·.path) ∧ library.digest kind (winner :: others) = .ok digest := by
  unfold resolvedTo
  dsimp only
  constructor
  · intro resolved
    split at resolved
    next => cases resolved
    next computed =>
      cases resolved
      exact ⟨rfl, rfl, rfl, rfl, rfl, rfl, computed⟩
  · rintro ⟨rfl, rfl, rfl, rfl, rfl, rfl, computed⟩
    rw [computed]

theorem selectAmong_singleton (other : kind ≠ .basename) :
    selectAmong library sourceDirectory kind [winner] =
      resolvedTo library kind (onlyReason kind) winner [] := by
  unfold selectAmong
  rw [if_neg (by simp), if_neg (by simp [maxResolutionCandidates])]
  cases kind with
  | basename => exact absurd rfl other
  | path | id | title => rfl

theorem selectAmong_several (other : kind ≠ .basename)
    (bounded : candidates.length ≤ maxResolutionCandidates) (several : 1 < candidates.length) :
    selectAmong library sourceDirectory kind candidates =
      .ok (.ambiguous (candidates.map (·.path))) := by
  match candidates with
  | [] => simp at several
  | [_] => simp at several
  | first :: second :: rest =>
    unfold selectAmong
    rw [if_neg (by simp), if_neg (by omega)]
    cases kind with
    | basename => exact absurd rfl other
    | path | id | title => rfl

theorem selectAmong_basename (bounded : candidates.length ≤ maxResolutionCandidates)
    (ranked : sortBy (compareRank sourceDirectory) candidates = winner :: losers) :
    selectAmong library sourceDirectory .basename candidates =
      resolvedTo library .basename (rankedReason sourceDirectory candidates) winner losers := by
  have nonempty : candidates ≠ [] := by
    rintro rfl
    cases ranked
  unfold selectAmong
  rw [if_neg (by simpa using nonempty), if_neg (by omega)]
  dsimp only
  rw [ranked]

theorem Selects.selectAmong_eq
    (selects : Selects library sourceDirectory kind winner others reason digest)
    (perm : (winner :: others).Perm found) :
    selectAmong library sourceDirectory kind (sortBy comparePath found) =
      .ok (.resolved winner.recordId winner.path reason kind (others.length + 1) digest
        (others.map (·.path)) others) := by
  have sorted : (sortBy comparePath found).Perm (winner :: others) :=
    (sortBy_perm comparePath found).trans perm.symm
  have bounded : (sortBy comparePath found).length ≤ maxResolutionCandidates := by
    rw [sorted.length_eq]
    exact selects.bounded
  rcases selects.reason with ⟨rfl, rfl⟩ | ⟨several, rfl, proven⟩
  · rw [List.perm_singleton.mp sorted] at bounded ⊢
    by_cases basename : kind = .basename
    · subst basename
      have ranked : sortBy (compareRank sourceDirectory) [winner] = [winner] := rfl
      rw [selectAmong_basename bounded ranked]
      exact resolvedTo_eq_iff.mpr ⟨rfl, rfl, rfl, rfl, rfl, rfl, selects.digest⟩
    · rw [selectAmong_singleton basename]
      exact resolvedTo_eq_iff.mpr ⟨rfl, rfl, rfl, rfl, rfl, rfl, selects.digest⟩
  · obtain ⟨first, ranked⟩ := (rankingIsProven_iff selects.distinct several reason).mp proven
    rw [selectAmong_basename bounded (first.sortBy_eq sorted.symm)]
    refine resolvedTo_eq_iff.mpr ⟨rfl, ?_, rfl, ?_, ?_, rfl, selects.digest⟩
    · rw [← ranked]
      exact (rankedReason_perm sorted).symm
    · rw [(sortBy_perm _ others).length_eq]
    · exact (sortBy_comparePath selects.ordered (sortBy_perm _ others).symm).symm

/-- What is selected is the least candidate, with its reason and the others behind it. -/
theorem selects_of_selectAmong (distinct : Distinct found) {count : Nat}
    (resolved : selectAmong library sourceDirectory kind (sortBy comparePath found) =
      .ok (.resolved recordId path reason selectedKind count digest alternatives others)) :
    (⟨recordId, path⟩ :: others).Perm found ∧
      Selects library sourceDirectory kind ⟨recordId, path⟩ others reason digest ∧
      selectedKind = kind ∧ count = others.length + 1 ∧ alternatives = others.map (·.path) := by
  have sorted := sortBy_perm comparePath found
  have nonempty : sortBy comparePath found ≠ [] := by
    intro empty
    rw [empty] at resolved
    cases resolved
  have bounded : (sortBy comparePath found).length ≤ maxResolutionCandidates := by
    by_contra above
    unfold selectAmong at resolved
    rw [if_neg (by simpa using nonempty), if_pos (by omega)] at resolved
    cases resolved
  by_cases basename : kind = .basename
  · subst basename
    cases ranked : sortBy (compareRank sourceDirectory) (sortBy comparePath found) with
    | nil =>
      have empty := (sortBy_perm (compareRank sourceDirectory) (sortBy comparePath found))
      rw [ranked] at empty
      exact absurd empty.symm.eq_nil nonempty
    | cons winner losers =>
      rw [selectAmong_basename bounded ranked] at resolved
      obtain ⟨rfl, rfl, rfl, rfl, rfl, rfl, computed⟩ := resolvedTo_eq_iff.mp resolved
      obtain ⟨perm, first⟩ := comesFirst_of_sortBy (distinct.perm sorted) ranked
      have losersSorted := sortBy_perm comparePath losers
      have whole := ((losersSorted.cons ⟨recordId, path⟩).trans perm)
      have wholeDistinct := (distinct.perm sorted).perm whole
      have losersDistinct := ((distinct.perm sorted).perm perm).of_cons
      refine ⟨whole.trans sorted, ⟨wholeDistinct, ?_, isChain_sortBy losersDistinct, computed, ?_⟩,
        rfl, by rw [losersSorted.length_eq], rfl⟩
      · rw [← List.length_cons (a := (⟨recordId, path⟩ : ResolutionCandidateIdentity)),
          whole.length_eq]
        exact bounded
      · by_cases none_ : sortBy comparePath losers = []
        · refine .inl ⟨none_, ?_⟩
          rw [none_] at whole
          rw [← rankedReason_perm whole]
          rfl
        · refine .inr ⟨none_, rfl, (rankingIsProven_iff wholeDistinct none_ _).mpr ⟨?_, ?_⟩⟩
          · exact fun other member => first other (losersSorted.mem_iff.mp member)
          · exact rankedReason_perm whole
  · cases one : sortBy comparePath found with
    | nil => exact absurd one nonempty
    | cons winner rest =>
      cases rest with
      | nil =>
        rw [one, selectAmong_singleton basename] at resolved
        obtain ⟨rfl, rfl, rfl, rfl, rfl, rfl, computed⟩ := resolvedTo_eq_iff.mp resolved
        rw [one] at sorted
        exact ⟨sorted, ⟨distinct.perm sorted, by decide, .nil, computed, .inl ⟨rfl, rfl⟩⟩,
          rfl, rfl, rfl⟩
      | cons second rest =>
        rw [selectAmong_several basename bounded (by simp [one])] at resolved
        cases resolved

end Mdbase.Links
