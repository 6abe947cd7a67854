import Mdbase.Query.Candidate

/-!
# Answers and the order in which records are loaded

The cache returns its rows in no particular order. Whatever order the candidates
of a query are loaded in, the answer is the same, unless three of them go round: two
values of one kind are told apart, a value of another kind ties with both, and the
later clauses put it between them the other way. Then no sorted sequence exists.
-/

namespace Mdbase.Query

open Library Mdbase.Runtime

/-- Members assigned one after the other: a name that was assigned has its value,
any other name what it had. -/
theorem get_foldl_set (value : String → Value) (clauses : List OrderBy)
    (members : List (String × Value)) (field : String) :
    (clauses.foldl (fun (values : Value) clause => values.set clause.field (value clause.field))
      (.object members)).get field =
      if field ∈ clauses.map OrderBy.field then some (value field)
      else (Value.object members).get field := by
  induction clauses generalizing members with
  | nil => simp
  | cons clause rest ih =>
    obtain ⟨after, assigned⟩ := Value.exists_set_eq_object members clause.field (value clause.field)
    rw [List.foldl_cons, assigned, ih after, ← assigned]
    by_cases later : field ∈ rest.map OrderBy.field
    · rw [if_pos later, if_pos (by simp [later])]
    · rw [if_neg later]
      by_cases here : field = clause.field
      · rw [if_pos (by simp [here]), here, Value.get_set_self]
      · rw [if_neg (by simp only [List.map_cons, List.mem_cons]; tauto), Value.get_set_of_ne _ here]

variable {grouping : Grouping}

theorem memberOrNull_groupValues (candidate : Candidate) {group : OrderBy}
    (member : group ∈ grouping.groupBy) :
    memberOrNull (grouping.groupValues candidate) group.field =
      candidateValue candidate group.field := by
  rw [memberOrNull, Grouping.groupValues, get_foldl_set (candidateValue candidate),
    if_pos (List.mem_map_of_mem member), Option.getD_some]

/-- The key under which a candidate is collected. -/
def Grouping.keyOf (grouping : Grouping) (candidate : Candidate) : String :=
  grouping.text (grouping.groupValues candidate)

/-- The entry of a key: the values of its first candidate and all its candidates. -/
def Grouping.entryOf (grouping : Grouping) (key : String) (candidates : List Candidate) :
    Option GroupEntry :=
  match candidates.filter (grouping.keyOf · = key) with
  | [] => none
  | first :: rest =>
    some { key := key, values := grouping.groupValues first, members := first :: rest }

theorem Grouping.collect_append_one (grouping : Grouping) (candidates : List Candidate)
    (candidate : Candidate) : grouping.collect (candidates ++ [candidate]) =
      grouping.collectOne (grouping.collect candidates) candidate := by
  rw [collect, List.foldl_append]
  rfl

/-- The collected group of a key has the candidates of that key, in order. -/
theorem Grouping.get?_collect (grouping : Grouping) (candidates : List Candidate) (key : String) :
    (grouping.collect candidates).get? key = grouping.entryOf key candidates := by
  induction candidates using List.reverseRecOn generalizing key with
  | nil => rfl
  | append_singleton candidates candidate ih =>
    have before := ih (grouping.keyOf candidate)
    rw [collect_append_one, collectOne]
    rw [show grouping.text (grouping.groupValues candidate) = grouping.keyOf candidate from rfl,
      before]
    by_cases here : grouping.keyOf candidate = key
    · subst here
      unfold entryOf
      rw [List.filter_append, List.filter_singleton]
      cases filtered : candidates.filter (grouping.keyOf · = grouping.keyOf candidate) with
      | nil =>
        simp only [decide_true, Bool.cond_true, List.nil_append]
        exact Table.get?_insert_self _ _
      | cons first rest =>
        simp only [decide_true, Bool.cond_true, List.cons_append]
        exact Table.get?_insert_self _ _
    · have others : (candidates ++ [candidate]).filter (grouping.keyOf · = key) =
          candidates.filter (grouping.keyOf · = key) := by
        rw [List.filter_append, List.filter_singleton]
        simp [here]
      have same : grouping.entryOf key (candidates ++ [candidate]) =
          grouping.entryOf key candidates := by
        rw [entryOf, entryOf, others]
      rw [same, ← ih key]
      unfold entryOf
      split
      next entry found =>
        refine Table.get?_insert_of_ne _ ?_
        revert found
        split
        · intro found
          cases found
        · intro found
          cases found
          exact fun equal => here equal.symm
      next => exact Table.get?_insert_of_ne _ (fun equal => here equal.symm)

variable {candidates : List Candidate}

/-- A group holds the candidates with its key, and the values of the first of them. -/
theorem Grouping.of_mem_collect {entry : GroupEntry}
    (member : entry ∈ grouping.collect candidates) :
    entry.members = candidates.filter (grouping.keyOf · = entry.key) ∧
      ∃ first ∈ candidates, grouping.keyOf first = entry.key ∧
        entry.values = grouping.groupValues first := by
  have found := Table.get?_key member
  rw [get?_collect, entryOf] at found
  split at found
  · cases found
  next first rest filtered =>
    have inFilter : first ∈ candidates.filter (grouping.keyOf · = entry.key) := by
      rw [filtered]
      exact List.mem_cons_self
    obtain ⟨present, here⟩ := List.mem_filter.mp inFilter
    have same := Option.some.inj found
    have members : entry.members = first :: rest := by rw [← same]
    have values : entry.values = grouping.groupValues first := by rw [← same]
    exact ⟨members.trans filtered.symm, first, present, by simpa using here, values⟩

/-- The serialization tells the group values of the candidates apart. -/
def Grouping.Separates (grouping : Grouping) (candidates : List Candidate) : Prop :=
  ∀ left ∈ candidates, ∀ right ∈ candidates, grouping.keyOf left = grouping.keyOf right →
    grouping.groupValues left = grouping.groupValues right

/-- Two entries that collect the same candidates, up to their order. -/
structure GroupEntry.Same (left right : GroupEntry) : Prop where
  key : left.key = right.key
  values : left.values = right.values
  members : left.members.Perm right.members

/-- Rearranged candidates are collected into the same groups. -/
theorem Grouping.collect_of_perm {loaded candidates : List Candidate}
    (perm : loaded.Perm candidates) (separates : grouping.Separates candidates) :
    List.Forall₂ GroupEntry.Same (grouping.collect loaded).entries
      (grouping.collect candidates).entries := by
  let outline : GroupEntry → GroupEntry := fun entry => { entry with members := [] }
  have keeps : ∀ entry, (outline entry).key = entry.key := fun _ => rfl
  have outlines : (grouping.collect loaded).image outline keeps =
      (grouping.collect candidates).image outline keeps := by
    apply Table.ext
    intro key
    rw [Table.get?_image, Table.get?_image, get?_collect, get?_collect, entryOf, entryOf]
    have filtered := perm.filter (grouping.keyOf · = key)
    cases one : loaded.filter (grouping.keyOf · = key) with
    | nil =>
      rw [one] at filtered
      rw [filtered.symm.eq_nil]
    | cons first rest =>
      cases other : candidates.filter (grouping.keyOf · = key) with
      | nil =>
        rw [one, other] at filtered
        exact absurd filtered.eq_nil (List.cons_ne_nil _ _)
      | cons second more =>
        have firstIn : first ∈ loaded.filter (grouping.keyOf · = key) := by simp [one]
        have secondIn : second ∈ candidates.filter (grouping.keyOf · = key) := by simp [other]
        obtain ⟨firstMember, firstKey⟩ := List.mem_filter.mp firstIn
        obtain ⟨secondMember, secondKey⟩ := List.mem_filter.mp secondIn
        have equal := separates first (perm.mem_iff.mp firstMember) second secondMember
          ((decide_eq_true_eq.mp firstKey).trans (decide_eq_true_eq.mp secondKey).symm)
        simp [outline, equal]
  have aligned : (grouping.collect loaded).entries.map outline =
      (grouping.collect candidates).entries.map outline :=
    congrArg Table.entries outlines
  rw [← List.forall₂_eq_eq_eq, List.forall₂_map_left_iff, List.forall₂_map_right_iff] at aligned
  obtain ⟨lengths, pairs⟩ := List.forall₂_iff_zip.mp aligned
  refine List.forall₂_iff_zip.mpr ⟨lengths, ?_⟩
  intro left right pair
  obtain ⟨leftMember, rightMember⟩ := List.of_mem_zip pair
  have same : outline left = outline right := pairs pair
  simp only [outline, GroupEntry.mk.injEq, and_true] at same
  obtain ⟨keys, values⟩ := same
  refine ⟨keys, values, ?_⟩
  rw [(of_mem_collect leftMember).1, (of_mem_collect rightMember).1, keys]
  exact perm.filter _

/-- Of three values the first comes before the second, which is of its kind, and the
third is of another kind, so that it ties with both. -/
def Askew (direction : Direction) (first second third : Value) : Prop :=
  kind first = kind second ∧ kind third ≠ kind first ∧ kind third ≠ .null ∧
    compareValues first second direction = .lt

instance (direction : Direction) (first second third : Value) :
    Decidable (Askew direction first second third) :=
  inferInstanceAs (Decidable (kind first = kind second ∧ kind third ≠ kind first ∧
    kind third ≠ .null ∧ compareValues first second direction = .lt))

section Clauses

variable {α : Type} (value : α → String → Value) (later : List OrderBy → α → α → Ordering)

/-- Two elements tie under a clause. -/
def tied (clause : OrderBy) (left right : α) : Bool :=
  compareValues (value left clause.field) (value right clause.field) clause.direction = .eq

/-- Three elements go round: where the earlier clauses tie, their values stand askew, and
the later clauses put the third element between the other two the other way. -/
def goesRound (first second third : α) : List OrderBy → Bool
  | [] => false
  | clause :: rest =>
    (Askew clause.direction (value first clause.field) (value second clause.field)
        (value third clause.field) &&
      (later rest second third).isLE && (later rest third first).isLE) ||
    (tied value clause first second && tied value clause second third &&
      tied value clause third first && goesRound first second third rest)

end Clauses

/-- No three candidates go round. -/
def Orderly (later : List OrderBy → Candidate → Candidate → Ordering) (clauses : List OrderBy)
    (candidates : List Candidate) : Prop :=
  ∀ first ∈ candidates, ∀ second ∈ candidates, ∀ third ∈ candidates,
    goesRound candidateValue later first second third clauses = false

instance (later : List OrderBy → Candidate → Candidate → Ordering) (clauses : List OrderBy)
    (candidates : List Candidate) : Decidable (Orderly later clauses candidates) :=
  inferInstanceAs (Decidable (∀ first ∈ candidates, ∀ second ∈ candidates,
    ∀ third ∈ candidates, goesRound candidateValue later first second third clauses = false))

/-- The comparison of the groups of two candidates. -/
def compareGrouping : (groupBy : List OrderBy) → (left right : Candidate) → Ordering
  | [], _, _ => .eq
  | group :: rest, left, right =>
    (compareValues (candidateValue left group.field) (candidateValue right group.field)
      group.direction).then (compareGrouping rest left right)

/-- The answer of a query is a function of the set of its candidates: the
comparisons of both sorts are total orders on what they sort, candidates tie only
with their own path, and every arrangement of the candidates gives the same
sequence and the same groups. -/
structure LoadOrderIndependent (orderBy : List OrderBy) (grouping : Grouping)
    (candidates : List Candidate) : Prop where
  comparison : OrdersOn (compareCandidates orderBy) candidates
  ties : ∀ left ∈ candidates, ∀ right ∈ candidates,
    compareCandidates orderBy left right = .eq → left.path = right.path
  sequence : ∀ loaded, loaded.Perm candidates →
    sortCandidates loaded orderBy = sortCandidates candidates orderBy
  groupComparison : OrdersOn
    (fun left right => compareGroups grouping.groupBy left.values right.values)
    (grouping.collect candidates).entries
  groups : ∀ loaded, loaded.Perm candidates →
    grouping.buildGroups (sortCandidates loaded orderBy) =
      grouping.buildGroups (sortCandidates candidates orderBy)
  collected : ∀ loaded, loaded.Perm candidates →
    List.Forall₂ GroupEntry.Same (grouping.ordered loaded) (grouping.ordered candidates)

variable {orderBy : List OrderBy}

theorem path_eq_of_compareCandidates {left right : Candidate}
    (tie : compareCandidates orderBy left right = .eq) : left.path = right.path := by
  induction orderBy with
  | nil => exact Std.LawfulEqCmp.eq_of_compare tie
  | cons order rest ih => exact ih (Ordering.then_eq_eq.mp tie).2

theorem compareValues_swap (left right : Value) (direction : Direction) :
    compareValues left right direction = (compareValues right left direction).swap := by
  have ascending := compareAscending_swap left right
  cases direction with
  | asc => exact ascending
  | desc => exact congrArg Ordering.swap ascending

theorem compareValues_of_kind_ne {left right : Value} (leftPresent : kind left ≠ .null)
    (rightPresent : kind right ≠ .null) (different : kind left ≠ kind right)
    (direction : Direction) : compareValues left right direction = .eq := by
  rw [compareValues, compareAscending_of_kind_ne leftPresent rightPresent different]
  cases direction <;> rfl

section Rounds

variable {direction : Direction} {first second third : Value}

theorem askew_of_isLE (present : kind first ≠ .null) (other : kind third ≠ .null)
    (same : kind first = kind second) (different : kind third ≠ kind first)
    (apart : compareAscending first second ≠ .eq)
    (below : (compareValues first second direction).isLE) :
    Askew direction first second third ∧ compareValues second third direction = .eq ∧
      compareValues third first direction = .eq := by
  have strict : compareValues first second direction = .lt := by
    cases direction <;> revert below apart <;> rw [compareValues] <;>
      cases compareAscending first second <;> simp [Direction.apply]
  exact ⟨⟨same, different, other, strict⟩,
    compareValues_of_kind_ne (same ▸ present) other (same ▸ different.symm) _,
    compareValues_of_kind_ne other present different _⟩

/-- Values that go round either tie, or stand askew. -/
theorem askew_of_round (one : (compareValues first second direction).isLE)
    (two : (compareValues second third direction).isLE)
    (three : (compareValues third first direction).isLE) :
    (compareValues first second direction = .eq ∧ compareValues second third direction = .eq ∧
        compareValues third first direction = .eq) ∨
      (Askew direction first second third ∧ compareValues second third direction = .eq ∧
        compareValues third first direction = .eq) ∨
      (Askew direction second third first ∧ compareValues third first direction = .eq ∧
        compareValues first second direction = .eq) ∨
      Askew direction third first second ∧ compareValues first second direction = .eq ∧
        compareValues second third direction = .eq := by
  have turned {left right : Value} (apart : compareAscending left right ≠ .eq) :
      compareAscending right left ≠ .eq := by
    rw [compareAscending_swap, ne_eq, Ordering.swap_eq_eq]
    exact apart
  by_cases comparable : Comparable [first, second, third]
  · left
    have orders := comparable.ordersOn direction
    exact ⟨orders.eq_of_round (by simp) (by simp) (by simp) one two three,
      orders.eq_of_round (by simp) (by simp) (by simp) two three one,
      orders.eq_of_round (by simp) (by simp) (by simp) three one two⟩
  · right
    unfold Comparable at comparable
    push Not at comparable
    obtain ⟨left, leftMember, right, rightMember, other, otherMember, present, otherPresent, same,
      different, apart⟩ := comparable
    have distinct : left ≠ right := by
      rintro rfl
      have self := compareAscending_swap left left
      revert self apart
      cases compareAscending left left <;> simp
    have back : kind right ≠ .null ∧ kind other ≠ kind right := ⟨same ▸ present, same ▸ different⟩
    simp only [List.mem_cons, List.not_mem_nil, or_false] at leftMember rightMember otherMember
    rcases leftMember with rfl | rfl | rfl <;> rcases rightMember with rfl | rfl | rfl <;>
      rcases otherMember with rfl | rfl | rfl <;>
      first
        | exact absurd rfl distinct
        | exact absurd rfl different
        | exact absurd rfl back.2
        | exact .inl (askew_of_isLE present otherPresent same different apart one)
        | exact .inl (askew_of_isLE back.1 otherPresent same.symm back.2 (turned apart) one)
        | exact .inr (.inl (askew_of_isLE present otherPresent same different apart two))
        | exact .inr (.inl (askew_of_isLE back.1 otherPresent same.symm back.2 (turned apart) two))
        | exact .inr (.inr (askew_of_isLE present otherPresent same different apart three))
        | exact .inr (.inr (askew_of_isLE back.1 otherPresent same.symm back.2 (turned apart) three))

end Rounds

section Clauses

variable {α : Type} {value : α → String → Value} {later : List OrderBy → α → α → Ordering}
  {clauses : List OrderBy} {items : List α} {first second third : α}

/-- Clause after clause, the values are compared. -/
def ComparesBy (value : α → String → Value) (later : List OrderBy → α → α → Ordering) : Prop :=
  ∀ clause rest left right, later (clause :: rest) left right =
    (compareValues (value left clause.field) (value right clause.field) clause.direction).then
      (later rest left right)

theorem ComparesBy.of_goesRound (compares : ComparesBy value later)
    (round : goesRound value later first second third clauses = true) :
    later clauses first second = .lt ∧ (later clauses second third).isLE ∧
      (later clauses third first).isLE := by
  induction clauses with
  | nil => cases round
  | cons clause rest ih =>
    simp only [goesRound, tied, Bool.or_eq_true, Bool.and_eq_true, decide_eq_true_eq] at round
    rw [compares, compares, compares]
    rcases round with ⟨⟨⟨same, different, present, before⟩, two⟩, three⟩ |
      ⟨⟨⟨one, two⟩, three⟩, round⟩
    · have firstPresent : kind (value first clause.field) ≠ .null := by
        intro absent
        have bothAbsent := same.symm.trans absent
        revert before
        generalize value first clause.field = left at absent
        generalize value second clause.field = right at bothAbsent
        cases left <;> cases right <;> simp only [kind, reduceCtorEq] at absent bothAbsent
        cases clause.direction <;> simp [compareValues, compareAscending, Direction.apply]
      rw [before, compareValues_of_kind_ne (same ▸ firstPresent) present (same ▸ different.symm),
        compareValues_of_kind_ne present firstPresent different]
      exact ⟨rfl, two, three⟩
    · rw [one, two, three]
      exact ih round

theorem goesRound_of_tied {clause : OrderBy} {rest : List OrderBy}
    (one : tied value clause first second = true) (two : tied value clause second third = true)
    (three : tied value clause third first = true)
    (round : goesRound value later first second third rest = true) :
    goesRound value later first second third (clause :: rest) = true := by
  rw [goesRound, one, two, three, round]
  exact Bool.or_true _

theorem goesRound_of_askew {clause : OrderBy} {rest : List OrderBy}
    (askew : Askew clause.direction (value first clause.field) (value second clause.field)
      (value third clause.field))
    (two : (later rest second third).isLE) (three : (later rest third first).isLE) :
    goesRound value later first second third (clause :: rest) = true := by
  rw [goesRound, decide_eq_true askew, two, three]
  rfl

theorem isLE_of_then {coarse fine : Ordering} (below : (coarse.then fine).isLE) :
    coarse.isLE ∧ (coarse = .eq → fine.isLE) := by
  cases coarse <;> simp_all [Ordering.then]

/-- What the comparison by some clauses takes round goes round under them. -/
theorem ComparesBy.goesRound_of_round (compares : ComparesBy value later)
    (last : OrdersOn (later []) [first, second, third])
    (one : (later clauses first second).isLE) (two : (later clauses second third).isLE)
    (three : (later clauses third first).isLE) (strict : later clauses third first ≠ .eq) :
    goesRound value later first second third clauses = true ∨
      goesRound value later second third first clauses = true ∨
        goesRound value later third first second clauses = true := by
  induction clauses with
  | nil => exact absurd (last.eq_of_round (by simp) (by simp) (by simp) three one two) strict
  | cons clause rest ih =>
    rw [compares] at one two three strict
    obtain ⟨first_, restOne⟩ := isLE_of_then one
    obtain ⟨second_, restTwo⟩ := isLE_of_then two
    obtain ⟨third_, restThree⟩ := isLE_of_then three
    rcases askew_of_round first_ second_ third_ with ⟨tieOne, tieTwo, tieThree⟩ |
      ⟨askew, tieTwo, tieThree⟩ | ⟨askew, tieThree, tieOne⟩ | ⟨askew, tieOne, tieTwo⟩
    · have tiedOne := decide_eq_true tieOne
      have tiedTwo := decide_eq_true tieTwo
      have tiedThree := decide_eq_true tieThree
      rw [tieThree] at strict
      refine (ih (restOne tieOne) (restTwo tieTwo) (restThree tieThree) strict).imp
        (goesRound_of_tied tiedOne tiedTwo tiedThree) (Or.imp
          (goesRound_of_tied tiedTwo tiedThree tiedOne)
          (goesRound_of_tied tiedThree tiedOne tiedTwo))
    · exact .inl (goesRound_of_askew askew (restTwo tieTwo) (restThree tieThree))
    · exact .inr (.inl (goesRound_of_askew askew (restThree tieThree) (restOne tieOne)))
    · exact .inr (.inr (goesRound_of_askew askew (restOne tieOne) (restTwo tieTwo)))

theorem ComparesBy.eq_swap (compares : ComparesBy value later)
    (last : ∀ left right, later [] left right = (later [] right left).swap) (left right : α) :
    later clauses left right = (later clauses right left).swap := by
  induction clauses with
  | nil => exact last left right
  | cons clause rest ih =>
    rw [compares, compares, Ordering.swap_then, ← ih, ← compareValues_swap]

/-- A comparison by clauses is a total preorder exactly on what does not go round. -/
theorem ComparesBy.ordersOn_iff (compares : ComparesBy value later)
    (last : ∀ items, OrdersOn (later []) items) :
    OrdersOn (later clauses) items ↔ ∀ first ∈ items, ∀ second ∈ items, ∀ third ∈ items,
      goesRound value later first second third clauses = false := by
  constructor
  · intro orders first firstMember second secondMember third thirdMember
    refine Bool.eq_false_iff.mpr fun round => ?_
    obtain ⟨before, two, three⟩ := compares.of_goesRound round
    have tie := orders.eq_of_round firstMember secondMember thirdMember
      (by rw [before]; rfl) two three
    rw [before] at tie
    cases tie
  · intro steady
    have swapped (left right : α) :
        later clauses left right = (later clauses right left).swap :=
      compares.eq_swap (fun left right => (last [left, right]).eq_swap (by simp) (by simp))
        left right
    refine OrdersOn.intro (fun left _ right _ => swapped left right) ?_
    intro first firstMember second secondMember third thirdMember below above
    by_contra turned
    have back : later clauses third first = .lt := by
      rw [swapped third first]
      revert turned
      cases later clauses first third <;> simp
    rcases compares.goesRound_of_round (last _) below above (by rw [back]; rfl)
      (by rw [back]; simp) with round | round | round
    · exact Bool.noConfusion
        (round.symm.trans (steady _ firstMember _ secondMember _ thirdMember))
    · exact Bool.noConfusion
        (round.symm.trans (steady _ secondMember _ thirdMember _ firstMember))
    · exact Bool.noConfusion
        (round.symm.trans (steady _ thirdMember _ firstMember _ secondMember))

end Clauses

theorem compareCandidates_ordersOn_iff :
    OrdersOn (compareCandidates orderBy) candidates ↔
      Orderly compareCandidates orderBy candidates :=
  ComparesBy.ordersOn_iff (fun _ _ _ _ => rfl) fun _ => OrdersOn.of_key Candidate.path

theorem compareGroups_groupValues (left right : Candidate) {clauses : List OrderBy}
    (included : ∀ clause ∈ clauses, clause ∈ grouping.groupBy) :
    compareGroups clauses (grouping.groupValues left) (grouping.groupValues right) =
      compareGrouping clauses left right := by
  induction clauses with
  | nil => rfl
  | cons clause rest ih =>
    rw [compareGroups, compareGrouping, ih fun later member =>
        included later (List.mem_cons_of_mem _ member),
      memberOrNull_groupValues left (included clause List.mem_cons_self),
      memberOrNull_groupValues right (included clause List.mem_cons_self)]

theorem Grouping.exists_entry (separates : grouping.Separates candidates) {candidate : Candidate}
    (member : candidate ∈ candidates) :
    ∃ entry ∈ (grouping.collect candidates).entries,
      entry.values = grouping.groupValues candidate := by
  have listed : candidate ∈ candidates.filter (grouping.keyOf · = grouping.keyOf candidate) :=
    List.mem_filter.mpr ⟨member, by simp⟩
  have found := grouping.get?_collect candidates (grouping.keyOf candidate)
  unfold Grouping.entryOf at found
  split at found
  next none_ => exact absurd (none_ ▸ listed) List.not_mem_nil
  next first rest filtered =>
    have inFilter : first ∈ candidates.filter (grouping.keyOf · = grouping.keyOf candidate) := by
      rw [filtered]
      exact List.mem_cons_self
    obtain ⟨firstMember, sameKey⟩ := List.mem_filter.mp inFilter
    exact ⟨_, Table.mem_of_get? found,
      separates first firstMember candidate member (of_decide_eq_true sameKey)⟩

/-- The groups are ordered as the candidates that they were collected from. -/
theorem compareGroups_ordersOn_iff (separates : grouping.Separates candidates) :
    OrdersOn (fun left right => compareGroups grouping.groupBy left.values right.values)
        (grouping.collect candidates).entries ↔
      Orderly compareGrouping grouping.groupBy candidates := by
  refine Iff.trans ?_ (ComparesBy.ordersOn_iff (fun _ _ _ _ => rfl)
    fun _ => OrdersOn.of_key fun _ => ())
  have same : compareGrouping grouping.groupBy = fun left right =>
      compareGroups grouping.groupBy (grouping.groupValues left) (grouping.groupValues right) := by
    funext left right
    exact (compareGroups_groupValues left right fun _ member => member).symm
  rw [same]
  refine ⟨fun orders => OrdersOn.of_features (compareGroups grouping.groupBy)
    (fun candidate => Grouping.exists_entry separates) orders,
    fun orders => OrdersOn.of_features (compareGroups grouping.groupBy)
      (fun entry member => ?_) orders⟩
  obtain ⟨-, first, firstMember, -, values⟩ := Grouping.of_mem_collect member
  exact ⟨first, firstMember, values.symm⟩

/-- Candidates with distinct paths give one answer in whatever order they are loaded exactly when
no three of them go round, under the ordering clauses or the grouping clauses. -/
theorem loadOrderIndependent_iff {orderBy : List OrderBy} {grouping : Grouping}
    {candidates : List Candidate} (distinct : (candidates.map Candidate.path).Nodup)
    (separates : grouping.Separates candidates) :
    LoadOrderIndependent orderBy grouping candidates ↔
      Orderly compareCandidates orderBy candidates ∧
        Orderly compareGrouping grouping.groupBy candidates := by
  rw [← compareCandidates_ordersOn_iff, ← compareGroups_ordersOn_iff separates]
  refine ⟨fun independent => ⟨independent.comparison, independent.groupComparison⟩, ?_⟩
  rintro ⟨comparison, groupComparison⟩
  have separated : SeparatesOn (compareCandidates orderBy) candidates :=
    fun left leftMember right rightMember tie =>
      List.inj_on_of_nodup_map distinct leftMember rightMember (path_eq_of_compareCandidates tie)
  have sequence : ∀ loaded, loaded.Perm candidates →
      sortCandidates loaded orderBy = sortCandidates candidates orderBy :=
    fun _ perm => comparison.sortBy_eq_of_perm separated perm
  exact
    { comparison := comparison
      ties := fun left _ right _ tie => path_eq_of_compareCandidates tie
      sequence := sequence
      groupComparison := groupComparison
      groups := fun loaded perm => by rw [sequence loaded perm]
      collected := fun loaded perm =>
        forall₂_sortBy (Grouping.collect_of_perm perm separates) fun same other => by
          rw [same.values, other.values] }

/-- Exact arithmetic in place of doubles; the infinities lie beyond every double. -/
def exactDoubles : Doubles where
  Double := Rat
  ofNumber := Number.asF64
  ofCount := fun count => count
  zero := 0
  infinity := 2 ^ 1024
  negInfinity := -2 ^ 1024
  add := (· + ·)
  div := (· / ·)
  min := min
  max := max
  toValue := fun value =>
    if value.den = 1 then
      .number (if 0 ≤ value.num then .posInt value.num.toNat else .negInt value.num)
    else .number (.float value)

/-- A note with a rank and a status, in a given file. -/
def rankedNote (path : String) (rank : Value) (status : String) : Candidate where
  path := path
  revision := "r1"
  types := ["note"]
  raw := .object [("rank", rank), ("status", .string status)]
  effective := .object [("rank", rank), ("status", .string status)]
  body := ""
  file := .object [("path", .string path)]
  projections := []
  values := []

/-- Groups by status with a count; the text is that of an object with one plain text. -/
def byStatus : Grouping where
  groupBy := [{ field := "status" }]
  summaries := [{ field := "rank", function := "count" }]
  doubles := exactDoubles
  text := fun
    | .object [(name, .string value)] => "\x7b\"" ++ name ++ "\":\"" ++ value ++ "\"\x7d"
    | _ => ""
  evaluate := fun _ _ => .ok .null

/-- Three notes of which one has no rank. -/
def partlyRanked : List Candidate :=
  [rankedNote "c.md" (.number (.posInt 1)) "open", rankedNote "a.md" .null "done",
    rankedNote "b.md" (.number (.posInt 2)) "open"]

theorem loadOrderIndependent_partlyRanked :
    LoadOrderIndependent [{ field := "rank", direction := .desc }] byStatus partlyRanked :=
  (loadOrderIndependent_iff (by decide) (by unfold Grouping.Separates; decide +kernel)).mpr
    ⟨by decide +kernel, by decide +kernel⟩

/-- Three notes whose ranks mix numbers and a text. -/
def mixedRanks : List Candidate :=
  [rankedNote "a.md" (.number (.posInt 2)) "open", rankedNote "b.md" (.string "x") "open",
    rankedNote "c.md" (.number (.posInt 1)) "open"]

/-- The comparison runs in a circle on the three notes: by path the first comes
before the second and the second before the third, by rank the third before the
first. No arrangement of them is sorted. -/
theorem mixedRanks_have_no_order :
    (mixedRanks.map Candidate.path).Nodup ∧
      ¬LoadOrderIndependent [{ field := "rank" }] byStatus mixedRanks ∧
      ∀ arrangement ∈ mixedRanks.permutations', ¬arrangement.Pairwise fun left right =>
        (compareCandidates [{ field := "rank" }] left right).isLE := by
  have circle : (compareCandidates [{ field := "rank" }]
        (rankedNote "a.md" (.number (.posInt 2)) "open") (rankedNote "b.md" (.string "x") "open")).isLE
      ∧ (compareCandidates [{ field := "rank" }] (rankedNote "b.md" (.string "x") "open")
        (rankedNote "c.md" (.number (.posInt 1)) "open")).isLE ∧
      ¬(compareCandidates [{ field := "rank" }] (rankedNote "a.md" (.number (.posInt 2)) "open")
        (rankedNote "c.md" (.number (.posInt 1)) "open")).isLE := by
    decide +kernel
  refine ⟨by decide, ?_, by decide +kernel⟩
  intro independent
  exact circle.2.2 (independent.comparison.isLE_trans (by simp [mixedRanks]) (by simp [mixedRanks])
    (by simp [mixedRanks]) circle.1 circle.2.1)

end Mdbase.Query
