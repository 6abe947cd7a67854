import Mdbase.Query.HostedAgreement

/-!
# Which fields the host reads as the executor does

The compiler resolves the name of a field by its parts, the executor mostly looks for a member
of that very name. They read the same value under the facts of the file and under bare names
that the selection does not produce. Under every other accepted name some matched record is
read differently. It matters where the field is compared, shown or summarised: an ordering
clause after the path of the file is never reached, and a count reads no value.
-/

namespace Mdbase.Query

open Library Mdbase.Runtime

/-- A fact of the file, or a bare name that the selection does not produce. -/
def isPlainField (selected : List String) (field : String) : Bool :=
  match lowerQueryField field with
  | some .path | some (.file _) | some .bodyTags => true
  | some (.effectiveFrontmatter [name]) => name = field && field ∉ selected
  | _ => false

/-- The ordering clauses are plain, up to the path of the file. -/
def ordersPlainly (selected : List String) : List OrderBy → Bool
  | [] => true
  | order :: rest =>
    isPlainField selected order.field &&
      (lowerQueryField order.field = some .path || ordersPlainly selected rest)

/-- Every field that is compared, shown or summarised is plain. -/
structure QueryOperators.IsPlain (operators : QueryOperators) (selected : List String) : Prop where
  order : ordersPlainly selected operators.orderBy = true
  groups : ∀ item ∈ operators.groupBy, isPlainField selected item.field = true
  summaries : ∀ item ∈ operators.summaries,
    item.function = "count" ∨ isPlainField selected item.field = true

instance (operators : QueryOperators) (selected : List String) :
    Decidable (operators.IsPlain selected) :=
  decidable_of_iff (ordersPlainly selected operators.orderBy = true ∧
      (∀ item ∈ operators.groupBy, isPlainField selected item.field = true) ∧
      ∀ item ∈ operators.summaries,
        item.function = "count" ∨ isPlainField selected item.field = true)
    ⟨fun ⟨order, groups, summaries⟩ => ⟨order, groups, summaries⟩,
      fun plain => ⟨plain.order, plain.groups, plain.summaries⟩⟩

/-- What every matched record has: the facts of its file tell its path, and its selected values
have names that the selection produces. -/
structure Candidate.IsMatch (selected : List String) (candidate : Candidate) : Prop where
  filed : memberOrNull candidate.file "path" = .string candidate.path
  values : ∀ name ∉ selected, (Value.object candidate.values).get name = none

theorem toList_of_dotSegments {field : String} :
    ['.'].intercalate ((dotSegments field).map String.toList) = field.toList := by
  simp [dotSegments, Function.comp_def, List.intercalate_splitOn]

theorem dotSegments_of_stripped {first name field : String} (bare : '.' ∉ first.toList)
    (found : stripped (first ++ ".") field = some name) :
    ∃ rest, dotSegments field = first :: rest := by
  unfold stripped at found
  split at found
  next start =>
    obtain ⟨rest, whole⟩ := List.isPrefixOf_iff_prefix.mp start
    refine ⟨(rest.splitOn '.').map String.ofList, ?_⟩
    have text : (first ++ ".").toList = first.toList ++ ['.'] := by simp
    rw [dotSegments, ← whole, text, List.append_assoc, List.singleton_append,
      List.splitOn_append_cons_self, List.splitOn_eq_singleton bare]
    simp
  next => cases found

theorem stripped_of_dotSegments {first name field : String}
    (segments : dotSegments field = [first, name]) : stripped (first ++ ".") field = some name := by
  have whole := @toList_of_dotSegments field
  rw [segments] at whole
  have parts : field.toList = (first ++ ".").toList ++ name.toList := by
    rw [← whole]
    simp [List.intercalate]
  rw [stripped, parts, if_pos (List.isPrefixOf_iff_prefix.mpr (List.prefix_append _ _)),
    List.drop_left, String.ofList_toList]

variable {field : String} {lowered : CandidateField}

/-- How an accepted name is spelled. -/
inductive Spelling : String → CandidateField → Prop where
  | types {field : String} (segments : dotSegments field = ["types"]) : Spelling field .types
  | record {field : String} {rest : List String} (segments : dotSegments field = "record" :: rest) :
    Spelling field (.effectiveFrontmatter rest)
  | raw {field : String} {rest : List String} (segments : dotSegments field = "raw" :: rest) :
    Spelling field (.persistedFrontmatter rest)
  | tags {field : String} (segments : dotSegments field = ["file", "tags"]) :
    Spelling field .bodyTags
  | path {field : String} (segments : dotSegments field = ["file", "path"]) : Spelling field .path
  | file {field name : String} (segments : dotSegments field = ["file", name])
    (planned : name ∈ plannedFileFields) : Spelling field (.file name)
  | bare {field : String} (segments : dotSegments field = [field])
    (other : field ∉ reservedRoots ∧ field ≠ "types") :
    Spelling field (.effectiveFrontmatter [field])

theorem eq_of_dotSegments_singleton {name : String} (segments : dotSegments field = [name]) :
    field = name := by
  have whole := @toList_of_dotSegments field
  rw [segments] at whole
  exact (String.toList_injective (by simpa [List.intercalate] using whole)).symm

/-- What lowers is spelled in one of the ways that the host knows. -/
theorem spelling_of_lowerQueryField (found : lowerQueryField field = some lowered) :
    Spelling field lowered := by
  unfold lowerQueryField at found
  split at found
  case h_1 segments =>
    cases found
    exact .types segments
  case h_2 rest segments =>
    cases found
    exact .record segments
  case h_3 rest segments =>
    cases found
    exact .raw segments
  case h_4 segments =>
    cases found
    exact .tags segments
  case h_5 segments =>
    cases found
    exact .path segments
  case h_6 name _ _ segments =>
    split at found
    next planned =>
      cases found
      exact .file segments planned
    next => cases found
  case h_7 single notTypes _ _ segments =>
    split at found
    next => cases found
    next free =>
      cases found
      have same := eq_of_dotSegments_singleton segments
      subst same
      exact .bare segments ⟨free, notTypes⟩
  case h_8 => cases found

/-- Where the executor looks for an accepted name: among the facts of the file, or under the very
name. -/
def lookedUp (candidate : Candidate) (field : String) : CandidateField → Value
  | .path => memberOrNull candidate.file "path"
  | .file name => memberOrNull candidate.file name
  | .bodyTags => memberOrNull candidate.file "tags"
  | .types | .effectiveFrontmatter _ | .persistedFrontmatter _ =>
    (((Value.object candidate.values).get field).or (candidate.effective.get field)).getD .null

/-- The executor reads an accepted name where `lookedUp` does. -/
theorem candidateValue_eq_lookedUp (found : lowerQueryField field = some lowered)
    (candidate : Candidate) :
    candidateValue candidate field = lookedUp candidate field lowered := by
  have spelling := spelling_of_lowerQueryField found
  have absent {first : String} (bare : '.' ∉ first.toList)
      (other : ∀ rest, dotSegments field ≠ first :: rest) :
      stripped (first ++ ".") field = none := by
    cases found : stripped (first ++ ".") field with
    | none => rfl
    | some name =>
      obtain ⟨rest, segments⟩ := dotSegments_of_stripped bare found
      exact absurd segments (other rest)
  have begins {first : String} {rest : List String} (segments : dotSegments field = first :: rest)
      (other : first ≠ "projection") : stripped ("projection" ++ ".") field = none :=
    absent (by decide) fun _ same => other (List.cons.inj (segments.symm.trans same)).1
  have projection : stripped "projection." field = none := by
    cases spelling with
    | types segments | record segments | raw segments | tags segments | path segments
    | file segments =>
      exact begins segments (by decide)
    | bare segments other =>
      refine begins segments ?_
      rintro rfl
      exact other.1 (by decide)
  have file (nowhere : ∀ name, dotSegments field ≠ "file" :: name) :
      stripped "file." field = none := @absent "file" (by decide) nowhere
  rw [candidateValue, projection]
  cases spelling with
  | types segments | record segments | raw segments =>
    rw [file fun _ same => absurd (List.cons.inj (segments.symm.trans same)).1 (by decide)]
    rfl
  | tags segments | path segments | file segments =>
    have name : stripped "file." field = some _ := @stripped_of_dotSegments "file" _ _ segments
    rw [name]
    rfl
  | bare segments other =>
    rw [file]
    · rfl
    · intro _ same
      exact other.1 ((List.cons.inj (segments.symm.trans same)).1 ▸ by decide)

variable {selected : List String} {candidate : Candidate}

/-- A plain field is read alike. -/
theorem hostedCandidateValue_of_isPlainField (plain : isPlainField selected field = true)
    (found : lowerQueryField field = some lowered) (isMatch : candidate.IsMatch selected) :
    hostedCandidateValue candidate lowered = candidateValue candidate field := by
  rw [candidateValue_eq_lookedUp found]
  unfold isPlainField at plain
  rw [found] at plain
  cases lowered with
  | path => exact isMatch.filed.symm
  | bodyTags | file => rfl
  | types | persistedFrontmatter => cases plain
  | effectiveFrontmatter path =>
    rcases path with _ | ⟨name, _ | _⟩
    · cases plain
    · simp only [Bool.and_eq_true, decide_eq_true_eq] at plain
      obtain ⟨rfl, free⟩ := plain
      rw [lookedUp, isMatch.values _ free, Option.none_or]
      simp [hostedCandidateValue, nestedValue]
    · cases plain

variable {operators : QueryOperators} {plan : HostedQueryPlan} {left right : Candidate}

theorem compareValues_self (value : Value) (direction : Direction) :
    compareValues value value direction = .eq := by
  have ascending : compareAscending value value = .eq := by
    have swapped := compareAscending_swap value value
    revert swapped
    cases compareAscending value value <;> simp
  cases direction with
  | asc => exact ascending
  | desc => rw [compareValues, ascending]; rfl

theorem compareBy_self (read : Candidate → String → Value) (orderBy : List OrderBy)
    (candidate : Candidate) : compareBy read orderBy candidate candidate = .eq := by
  induction orderBy with
  | nil => exact (Std.ReflCmp.compare_self : compare candidate.path candidate.path = .eq)
  | cons order rest ih => rw [compareBy, ih, compareValues_self]; rfl

theorem then_of_ne_eq {first : Ordering} (decided : first ≠ .eq) (rest : Ordering) :
    first.then rest = first := by
  cases first <;> simp_all

theorem compareValues_path_ne (apart : left.path ≠ right.path) (direction : Direction) :
    compareValues (.string left.path) (.string right.path) direction ≠ .eq := by
  have decided : compare left.path right.path ≠ .eq := fun same =>
    apart (Std.LawfulEqCmp.eq_of_compare same)
  cases direction with
  | asc => exact decided
  | desc => simpa [compareValues, compareAscending, Direction.apply] using decided

theorem hostedReading_of_isPlainField (plain : isPlainField selected field = true)
    (isMatch : candidate.IsMatch selected) :
    hostedReading candidate field = candidateValue candidate field := by
  cases found : lowerQueryField field with
  | none => simp [isPlainField, found] at plain
  | some lowered =>
    rw [hostedReading, found, Option.elim_some,
      hostedCandidateValue_of_isPlainField plain found isMatch]

/-- Plain clauses compare records at two paths alike. -/
theorem compareBy_of_ordersPlainly {orderBy : List OrderBy}
    (plain : ordersPlainly selected orderBy = true) (leftMatch : left.IsMatch selected)
    (rightMatch : right.IsMatch selected) (apart : left.path ≠ right.path) :
    compareBy hostedReading orderBy left right = compareBy candidateValue orderBy left right := by
  induction orderBy with
  | nil => rfl
  | cons order rest ih =>
    rw [ordersPlainly, Bool.and_eq_true, Bool.or_eq_true, decide_eq_true_eq] at plain
    rw [compareBy, compareBy, ← hostedReading_of_isPlainField plain.1 leftMatch,
      ← hostedReading_of_isPlainField plain.1 rightMatch]
    rcases plain.2 with path | later
    · have decided := compareValues_path_ne apart order.direction
      have reads (candidate : Candidate) :
          hostedReading candidate order.field = .string candidate.path := by
        rw [hostedReading, path]
        rfl
      rw [reads, reads, then_of_ne_eq decided, then_of_ne_eq decided]
    · rw [ih later]

/-- Plain operators read matched records with distinct paths alike. -/
theorem QueryOperators.IsPlain.readsAlike (plain : operators.IsPlain selected)
    {candidates : List Candidate} (distinct : (candidates.map Candidate.path).Nodup)
    (matched : ∀ candidate ∈ candidates, candidate.IsMatch selected) :
    ReadsAlike operators candidates where
  order left leftMember right rightMember := by
    by_cases same : left = right
    · rw [same, compareBy_self, compareBy_self]
    · exact compareBy_of_ordersPlainly plain.order (matched left leftMember)
        (matched right rightMember)
        fun path => same (List.inj_on_of_nodup_map distinct leftMember rightMember path)
  groups item member candidate within :=
    hostedReading_of_isPlainField (plain.groups item member) (matched candidate within)
  summaries item member := (plain.summaries item member).imp_right
    fun field candidate within => hostedReading_of_isPlainField field (matched candidate within)

theorem not_mem_of_mem_splitOn {mark : Char} {text part : List Char}
    (member : part ∈ text.splitOn mark) : mark ∉ part := by
  induction text generalizing part with
  | nil => simp_all
  | cons char rest ih =>
    rw [List.splitOn_cons_eq_if_modifyHead] at member
    split at member
    next =>
      rcases List.mem_cons.mp member with rfl | later
      · exact List.not_mem_nil
      · exact ih later
    next other =>
      cases parts : rest.splitOn mark with
      | nil => exact absurd parts (by simp)
      | cons head tail =>
        rw [parts] at member ih
        rcases List.mem_cons.mp member with rfl | later
        · simp only [List.mem_cons, not_or]
          exact ⟨fun same => other (by simp [same]), ih List.mem_cons_self⟩
        · exact ih (List.mem_cons_of_mem _ later)

theorem no_dot_of_mem_dotSegments {segment : String} (member : segment ∈ dotSegments field) :
    '.' ∉ segment.toList := by
  obtain ⟨part, within, rfl⟩ := List.mem_map.mp member
  rw [String.toList_ofList]
  exact not_mem_of_mem_splitOn within

theorem dot_of_dotSegments {first second : String} {rest : List String}
    (segments : dotSegments field = first :: second :: rest) : '.' ∈ field.toList := by
  by_contra bare
  rw [dotSegments, List.splitOn_eq_singleton bare] at segments
  cases segments

/-- A record with the given members, types and selected values and nothing else. -/
def recordOf (types : List String) (members values : List (String × Value)) (path : String) :
    Candidate where
  path := path
  revision := "r1"
  types := types
  raw := .object members
  effective := .object members
  body := ""
  file := .object [("path", .string path)]
  projections := []
  values := values

/-- The member by which a marked record differs. -/
def mark (name : String) : List (String × Value) := [(name, .array [.null])]

/-- A name that no accepted field reads. -/
def unread : String := "x.x"

/-- Two records, one of them marked, that one reading of a field tells apart wherever they are.
The other reading finds nothing under the field, and tells the two apart by their paths only. -/
structure Telling (selected : List String) (told even : Candidate → String → Value)
    (field : String) (twin : Bool → String → Candidate) : Prop where
  path : ∀ marked path, (twin marked path).path = path
  isMatch : ∀ marked path, (twin marked path).IsMatch selected
  apart : ∃ outcome ≠ .eq, ∀ here there,
    compareAscending (told (twin true here) field) (told (twin false there) field) = outcome
  alike : ∀ other lowered, lowerQueryField other = some lowered → lowered ≠ .path →
    ∀ here there,
      compareAscending (even (twin true here) other) (even (twin false there) other) = .eq
  found : ∀ path, kind (told (twin true path) field) ∈ [Kind.array, Kind.object] ∧
    isEmptyValue (told (twin true path) field) = false
  missed : ∀ path, even (twin true path) field = .null
  texts : ∀ path lowered text,
    hostedCandidateValue (twin true path) lowered = .string text → text = path

section

variable {types : List String} {members values : List (String × Value)} {path : String}

theorem isMatch_recordOf (within : ∀ name ∉ selected, (Value.object values).get name = none) :
    (recordOf types members values path).IsMatch selected where
  filed := by simp [memberOrNull, Value.get, recordOf]
  values := within

theorem candidateValue_recordOf (found : lowerQueryField field = some lowered)
    (other : lowered ≠ .path) (unselected : (Value.object values).get field = none)
    (absent : (Value.object members).get field = none) :
    candidateValue (recordOf types members values path) field = .null := by
  rw [candidateValue_eq_lookedUp found]
  have spelling := spelling_of_lowerQueryField found
  cases spelling with
  | path => exact absurd rfl other
  | tags => simp [lookedUp, recordOf, memberOrNull, Value.get]
  | @file name segments planned =>
    have apart : "path" ≠ name := fun same => absurd (same ▸ planned) (by decide)
    simp [lookedUp, recordOf, memberOrNull, Value.get, apart]
  | types | record | raw | bare => simp [lookedUp, recordOf, unselected, absent]

theorem nestedValue_cons {value : Value} {name : String} {rest : List String} :
    nestedValue value (name :: rest) = (value.get name).elim .null (nestedValue · rest) := by
  rw [nestedValue, List.foldlM_cons]
  cases value.get name <;> rfl

theorem nestedValue_ne_string {text : String} {names : List String}
    (sparse : members = [] ∨ ∃ name, members = mark name) :
    nestedValue (.object members) names ≠ .string text := by
  rcases names with _ | ⟨first, rest⟩
  · simp [nestedValue]
  · rw [nestedValue_cons]
    rcases sparse with rfl | ⟨name, rfl⟩
    · simp [Value.get]
    · by_cases here : name = first
      · rcases rest with _ | ⟨second, rest⟩
        · simp [Value.get, mark, here, nestedValue]
        · simp [Value.get, mark, here, nestedValue_cons]
      · simp [Value.get, mark, here]

theorem texts_recordOf {text : String} (sparse : members = [] ∨ ∃ name, members = mark name)
    (found : hostedCandidateValue (recordOf types members values path) lowered = .string text) :
    text = path := by
  have fact {key : String}
      (found : memberOrNull (.object [("path", .string path)]) key = .string text) :
      text = path := by
    by_cases here : "path" = key
    · simpa [memberOrNull, Value.get, here, eq_comm] using found
    · simp [memberOrNull, Value.get, here] at found
  cases lowered with
  | path => exact (Value.string.inj found).symm
  | types => cases found
  | file | bodyTags => exact fact found
  | persistedFrontmatter | effectiveFrontmatter =>
    exact absurd found (nestedValue_ne_string sparse)

end

theorem get_mark_of_ne {name other : String} (different : name ≠ other) :
    (Value.object (mark name)).get other = none := by
  simp [Value.get, mark, different]

theorem lowerQueryField_unread : lowerQueryField unread = none := by decide +kernel

theorem ne_unread (found : lowerQueryField field = some lowered) : unread ≠ field := by
  rintro rfl
  rw [lowerQueryField_unread] at found
  cases found

/-- The record that `types`, `record` and `raw` tell from its unmarked twin. -/
def wholeTwin (marked : Bool) : String → Candidate :=
  recordOf (if marked then ["note"] else []) (if marked then mark unread else []) []

theorem candidateValue_wholeTwin {other : String} (found : lowerQueryField other = some lowered)
    (notPath : lowered ≠ .path) (marked : Bool) (path : String) :
    candidateValue (wholeTwin marked path) other = .null := by
  refine candidateValue_recordOf found notPath rfl ?_
  cases marked with
  | false => rfl
  | true => exact get_mark_of_ne (ne_unread found)

/-- `types`, `record` and `raw` name something whole for the host, a member for the executor. -/
theorem telling_whole (found : lowerQueryField field = some lowered)
    (whole : lowered = .types ∨ lowered = .effectiveFrontmatter [] ∨
      lowered = .persistedFrontmatter []) :
    Telling selected hostedReading candidateValue field wholeTwin := by
  refine ⟨fun _ _ => rfl, fun _ _ => isMatch_recordOf fun _ _ => rfl,
    ⟨.gt, by decide, fun here there => ?_⟩, fun other lowered found notPath here there => ?_,
    fun path => ?_, fun path => candidateValue_wholeTwin found ?_ true path,
    fun path _ _ found => texts_recordOf (.inr ⟨_, rfl⟩) found⟩
  · rw [hostedReading, hostedReading, found]
    rcases whole with rfl | rfl | rfl <;> rfl
  · rw [candidateValue_wholeTwin found notPath, candidateValue_wholeTwin found notPath]
    rfl
  · rw [hostedReading, found]
    rcases whole with rfl | rfl | rfl <;>
      exact ⟨by simp [hostedCandidateValue, nestedValue, wholeTwin, recordOf, kind], rfl⟩
  · rcases whole with rfl | rfl | rfl <;> exact CandidateField.noConfusion

theorem nestedValue_mark {name : String} (dotted : '.' ∈ name.toList) {names : List String}
    (bare : ∀ segment ∈ names, '.' ∉ segment.toList) :
    nestedValue (.object (mark name)) names =
      if names = [] then .object (mark name) else .null := by
  rcases names with _ | ⟨first, rest⟩
  · rfl
  · have different : name ≠ first := by
      rintro rfl
      exact bare _ List.mem_cons_self dotted
    rw [nestedValue_cons, get_mark_of_ne different]
    rfl

/-- What the host finds in a record under an accepted name. -/
theorem hostedReading_cases (found : lowerQueryField field = some lowered)
    (notPath : lowered ≠ .path) :
    (∀ types members values path,
      hostedReading (recordOf types members values path) field = .array (types.map .string)) ∨
    (∃ names, (∀ segment ∈ names, '.' ∉ segment.toList) ∧ ∀ types members values path,
      hostedReading (recordOf types members values path) field =
        nestedValue (.object members) names) ∨
    ∀ types members values path,
      hostedReading (recordOf types members values path) field = .null := by
  simp only [hostedReading, found, Option.elim_some]
  cases spelling_of_lowerQueryField found with
  | types => exact .inl fun _ _ _ _ => rfl
  | path => exact absurd rfl notPath
  | tags =>
    refine .inr (.inr fun _ _ _ _ => ?_)
    simp [hostedCandidateValue, recordOf, memberOrNull, Value.get]
  | @file name segments planned =>
    refine .inr (.inr fun _ _ _ _ => ?_)
    have apart : "path" ≠ name := fun same => absurd (same ▸ planned) (by decide)
    simp [hostedCandidateValue, recordOf, memberOrNull, Value.get, apart]
  | record segments | raw segments =>
    refine .inr (.inl ⟨_, fun segment member => ?_, fun _ _ _ _ => rfl⟩)
    exact no_dot_of_mem_dotSegments (segments ▸ List.mem_cons_of_mem _ member)
  | bare segments =>
    refine .inr (.inl ⟨_, fun segment member => ?_, fun _ _ _ _ => rfl⟩)
    exact no_dot_of_mem_dotSegments (segments ▸ member)

/-- The path of a member, for the host, is the name of a member for the executor. -/
theorem telling_nested {first second : String} {rest : List String}
    (found : lowerQueryField field = some lowered)
    (segments : dotSegments field = first :: second :: rest)
    (nested : lowered = .effectiveFrontmatter (second :: rest) ∨
      lowered = .persistedFrontmatter (second :: rest)) :
    Telling selected candidateValue hostedReading field fun marked =>
      recordOf [] (mark (if marked then field else unread)) [] := by
  have dotted (marked : Bool) : '.' ∈ (if marked then field else unread).toList := by
    cases marked with
    | true => exact dot_of_dotSegments segments
    | false => exact (by decide : '.' ∈ unread.toList)
  have reads (marked : Bool) (path : String) : candidateValue
      (recordOf [] (mark (if marked then field else unread)) [] path) field =
        if marked then .array [.null] else .null := by
    cases marked with
    | true =>
      rw [candidateValue_eq_lookedUp found]
      rcases nested with rfl | rfl <;> simp [lookedUp, recordOf, Value.get, mark]
    | false =>
      refine candidateValue_recordOf found ?_ rfl (get_mark_of_ne (ne_unread found))
      rcases nested with rfl | rfl <;> exact CandidateField.noConfusion
  refine ⟨fun _ _ => rfl, fun _ _ => isMatch_recordOf fun _ _ => rfl,
    ⟨.lt, by decide, fun here there => ?_⟩, fun other lowered found notPath here there => ?_,
    fun path => ?_, fun path => ?_, fun path _ _ found => ?_⟩
  · rw [reads, reads]
    rfl
  · rcases hostedReading_cases found notPath with same | ⟨names, bare, same⟩ | same
    · rw [same, same]
      rfl
    · rw [same, same, nestedValue_mark (dotted true) bare, nestedValue_mark (dotted false) bare]
      split <;> rfl
    · rw [same, same]
      rfl
  · rw [reads]
    decide
  · have absent := nestedValue_mark (dotted true) fun segment member =>
      no_dot_of_mem_dotSegments (segments ▸ List.mem_cons_of_mem first member)
    rw [hostedReading, found]
    rcases nested with rfl | rfl <;> exact absent
  · exact texts_recordOf (.inr ⟨_, rfl⟩) found

/-- A selected name is a value of the selection for the executor, a member for the host. -/
theorem telling_selected (found : lowerQueryField field = some (.effectiveFrontmatter [field]))
    (taken : field ∈ selected) :
    Telling selected candidateValue hostedReading field fun marked =>
      recordOf [] [] (if marked then mark field else []) := by
  have reads (marked : Bool) (path : String) : candidateValue
      (recordOf [] [] (if marked then mark field else []) path) field =
        if marked then .array [.null] else .null := by
    rw [candidateValue_eq_lookedUp found]
    cases marked <;> simp [lookedUp, recordOf, Value.get, mark]
  refine ⟨fun _ _ => rfl, fun marked _ => isMatch_recordOf fun name free => ?_,
    ⟨.lt, by decide, fun here there => ?_⟩, fun other lowered found notPath here there => ?_,
    fun path => ?_, fun path => ?_, fun path _ _ found => ?_⟩
  · cases marked with
    | false => rfl
    | true => exact get_mark_of_ne fun same => free (same ▸ taken)
  · rw [reads, reads]
    rfl
  · rcases hostedReading_cases found notPath with same | ⟨names, bare, same⟩ | same <;>
      rw [same, same]
    · rfl
    · exact compareValues_self _ .asc
    · rfl
  · rw [reads]
    decide
  · rw [hostedReading, found]
    rfl
  · exact texts_recordOf (.inl rfl) found

/-- The host and the executor, in one of the two roles. -/
def AreReadings (told even : Candidate → String → Value) : Prop :=
  (told = hostedReading ∧ even = candidateValue) ∨ (told = candidateValue ∧ even = hostedReading)

/-- Every accepted name that is not plain is read differently from some record. -/
theorem exists_telling (found : lowerQueryField field = some lowered)
    (odd : isPlainField selected field = false) :
    ∃ told even twin, AreReadings told even ∧ Telling selected told even field twin := by
  have spelling := spelling_of_lowerQueryField found
  unfold isPlainField at odd
  rw [found] at odd
  cases spelling with
  | types segments =>
    exact ⟨_, _, _, .inl ⟨rfl, rfl⟩, telling_whole found (.inl rfl)⟩
  | @record rest segments =>
    rcases rest with _ | ⟨second, rest⟩
    · exact ⟨_, _, _, .inl ⟨rfl, rfl⟩, telling_whole found (.inr (.inl rfl))⟩
    · exact ⟨_, _, _, .inr ⟨rfl, rfl⟩, telling_nested found segments (.inl rfl)⟩
  | @raw rest segments =>
    rcases rest with _ | ⟨second, rest⟩
    · exact ⟨_, _, _, .inl ⟨rfl, rfl⟩, telling_whole found (.inr (.inr rfl))⟩
    · exact ⟨_, _, _, .inr ⟨rfl, rfl⟩, telling_nested found segments (.inr rfl)⟩
  | tags | path | file => cases odd
  | bare segments =>
    have taken : field ∈ selected := by simpa using odd
    exact ⟨_, _, _, .inr ⟨rfl, rfl⟩, telling_selected found taken⟩

section

variable {told even : Candidate → String → Value} {twin : Bool → String → Candidate}

theorem AreReadings.eq_of_plain (roles : AreReadings told even)
    (plain : isPlainField selected field = true) (isMatch : candidate.IsMatch selected) :
    told candidate field = even candidate field := by
  have same := hostedReading_of_isPlainField plain isMatch
  rcases roles with ⟨rfl, rfl⟩ | ⟨rfl, rfl⟩
  · exact same
  · exact same.symm

theorem AreReadings.even_path (roles : AreReadings told even)
    (found : lowerQueryField field = some .path) (isMatch : candidate.IsMatch selected) :
    even candidate field = .string candidate.path := by
  rcases roles with ⟨rfl, rfl⟩ | ⟨rfl, rfl⟩
  · rw [candidateValue_eq_lookedUp found]
    exact isMatch.filed
  · rw [hostedReading, found]
    rfl

theorem compareValues_of_ascending_eq {left right : Value}
    (same : compareAscending left right = .eq) (direction : Direction) :
    compareValues left right direction = .eq := by
  rw [compareValues, same]
  cases direction <;> rfl

/-- The reading that tells twins apart by their paths only compares them by their paths, in one
direction. -/
theorem Telling.exists_direction (telling : Telling selected told even field twin)
    (roles : AreReadings told even) {orderBy : List OrderBy}
    (accepted : ∀ order ∈ orderBy, (lowerQueryField order.field).isSome) :
    ∃ direction : Direction, ∀ here there, here ≠ there →
      compareBy even orderBy (twin true here) (twin false there) =
        direction.apply (compare here there) := by
  induction orderBy with
  | nil =>
    refine ⟨.asc, fun here there _ => ?_⟩
    rw [compareBy, telling.path, telling.path]
    rfl
  | cons order rest ih =>
    obtain ⟨direction, later⟩ := ih fun other member =>
      accepted other (List.mem_cons_of_mem _ member)
    obtain ⟨lowered, found⟩ := Option.isSome_iff_exists.mp (accepted order List.mem_cons_self)
    by_cases path : lowered = .path
    · refine ⟨order.direction, fun here there apart => ?_⟩
      rw [path] at found
      have differs : (twin true here).path ≠ (twin false there).path := by
        rw [telling.path, telling.path]
        exact apart
      rw [compareBy, roles.even_path found (telling.isMatch true here),
        roles.even_path found (telling.isMatch false there),
        then_of_ne_eq (compareValues_path_ne differs _), telling.path, telling.path]
      rfl
    · refine ⟨direction, fun here there apart => ?_⟩
      rw [compareBy, compareValues_of_ascending_eq (telling.alike _ _ found path here there),
        later here there apart]
      rfl

end

/-- Clauses that are not plain compare two records by their marks in one reading, and by their
paths in the other. -/
theorem exists_compareBy {orderBy : List OrderBy}
    (accepted : ∀ order ∈ orderBy, (lowerQueryField order.field).isSome)
    (odd : ordersPlainly selected orderBy = false) :
    ∃ field told even twin, AreReadings told even ∧ Telling selected told even field twin ∧
      ∃ outcome ≠ .eq, ∃ direction : Direction, ∀ here there, here ≠ there →
        compareBy told orderBy (twin true here) (twin false there) = outcome ∧
          compareBy even orderBy (twin true here) (twin false there) =
            direction.apply (compare here there) := by
  induction orderBy with
  | nil => cases odd
  | cons order rest ih =>
    obtain ⟨lowered, found⟩ := Option.isSome_iff_exists.mp (accepted order List.mem_cons_self)
    cases plain : isPlainField selected order.field with
    | false =>
      obtain ⟨told, even, twin, roles, telling⟩ := exists_telling found plain
      obtain ⟨outcome, decided, apart⟩ := telling.apart
      obtain ⟨direction, paths⟩ := telling.exists_direction roles accepted
      refine ⟨_, told, even, twin, roles, telling, order.direction.apply outcome, ?_, direction,
        fun here there differ => ⟨?_, paths here there differ⟩⟩
      · cases order.direction with
        | asc => exact decided
        | desc => simpa [Direction.apply] using decided
      · rw [compareBy, compareValues, apart, then_of_ne_eq]
        cases order.direction with
        | asc => exact decided
        | desc => simpa [Direction.apply] using decided
    | true =>
      rw [ordersPlainly, plain, Bool.true_and, Bool.or_eq_false_iff, decide_eq_false_iff_not] at odd
      obtain ⟨field, told, even, twin, roles, telling, outcome, decided, direction, compared⟩ :=
        ih (fun other member => accepted other (List.mem_cons_of_mem _ member)) odd.2
      have notPath : lowered ≠ .path := fun same => odd.1 (same ▸ found)
      have ties (here there : String) : compareValues (even (twin true here) order.field)
          (even (twin false there) order.field) order.direction = .eq :=
        compareValues_of_ascending_eq (telling.alike _ _ found notPath here there) _
      refine ⟨field, told, even, twin, roles, telling, outcome, decided, direction,
        fun here there differ => ⟨?_, ?_⟩⟩
      · rw [compareBy, roles.eq_of_plain plain (telling.isMatch true here),
          roles.eq_of_plain plain (telling.isMatch false there), ties]
        exact (compared here there differ).1
      · rw [compareBy, ties]
        exact (compared here there differ).2

theorem exists_paths {outcome : Ordering} (decided : outcome ≠ .eq) (direction : Direction) :
    ∃ here there : String, here ≠ there ∧ direction.apply (compare here there) = outcome.swap := by
  have below : compare "a.md" "b.md" = .lt := by decide +kernel
  have above : compare "b.md" "a.md" = .gt := by decide +kernel
  cases outcome with
  | eq => exact absurd rfl decided
  | lt =>
    cases direction with
    | asc => exact ⟨"b.md", "a.md", by decide, above⟩
    | desc => exact ⟨"a.md", "b.md", by decide, by rw [below]; rfl⟩
  | gt =>
    cases direction with
    | asc => exact ⟨"a.md", "b.md", by decide, below⟩
    | desc => exact ⟨"b.md", "a.md", by decide, by rw [above]; rfl⟩

theorem sortBy_pair {α : Type} (compares : α → α → Ordering) (left right : α) :
    sortBy compares [left, right] =
      if (compares left right).isLE then [left, right] else [right, left] := by
  simp [sortBy, List.insertionSort, List.orderedInsert]

/-- A host with clauses that are not plain sorts two matched records against the executor. -/
theorem exists_sortBy_ne {orderBy : List OrderBy}
    (accepted : ∀ order ∈ orderBy, (lowerQueryField order.field).isSome)
    (odd : ordersPlainly selected orderBy = false) :
    ∃ left right : Candidate, left.path ≠ right.path ∧ left.IsMatch selected ∧
      right.IsMatch selected ∧ sortBy (compareBy hostedReading orderBy) [left, right] ≠
        sortBy (compareBy candidateValue orderBy) [left, right] := by
  obtain ⟨field, told, even, twin, roles, telling, outcome, decided, direction, compared⟩ :=
    exists_compareBy accepted odd
  obtain ⟨here, there, differ, opposite⟩ := exists_paths decided direction
  obtain ⟨byMark, byPath⟩ := compared here there differ
  have differs : (twin true here).path ≠ (twin false there).path := by
    rw [telling.path, telling.path]
    exact differ
  have apart : sortBy (compareBy told orderBy) [twin true here, twin false there] ≠
      sortBy (compareBy even orderBy) [twin true here, twin false there] := by
    have distinct : twin true here ≠ twin false there := fun same => differs (congrArg _ same)
    rw [sortBy_pair, sortBy_pair, byMark, byPath, opposite]
    cases outcome <;> simp_all
  refine ⟨_, _, differs, telling.isMatch true here, telling.isMatch false there, ?_⟩
  rcases roles with ⟨rfl, rfl⟩ | ⟨rfl, rfl⟩
  · exact apart
  · exact apart.symm

/-- The member of a name after some assignments that agree about it. -/
theorem get_assigned {entries members : List (String × Value)} {name : String} {value : Value}
    (agree : ∀ entry ∈ entries, entry.1 = name → entry.2 = value)
    (present : (∃ entry ∈ entries, entry.1 = name) ∨ (Value.object members).get name = some value) :
    (entries.foldl (fun (output : Value) entry => output.set entry.1 entry.2)
      (.object members)).get name = some value := by
  induction entries generalizing members with
  | nil => exact present.resolve_left fun ⟨_, absent, _⟩ => List.not_mem_nil absent
  | cons entry rest ih =>
    obtain ⟨after, same⟩ := Value.exists_set_eq_object members entry.1 entry.2
    rw [List.foldl_cons, same]
    refine ih (fun other member => agree other (List.mem_cons_of_mem _ member)) ?_
    rw [← same]
    by_cases here : entry.1 = name
    · right
      rw [← agree entry List.mem_cons_self here, ← here, Value.get_set_self]
    · rw [Value.get_set_of_ne _ (Ne.symm here)]
      refine present.imp_left fun ⟨other, member, named⟩ => ⟨other, ?_, named⟩
      exact (List.mem_cons.mp member).resolve_left fun first => here (first ▸ named)

/-- The value that an outcome leaves. -/
def shownValue : Except String Value → Value
  | .ok value => value
  | .error _ => .null

/-- The diagnostic that an outcome leaves. -/
def shownDiagnostic (name : String) : Except String Value → Option Diagnostic
  | .ok _ => none
  | .error message => some (summaryDiagnostic name message)

theorem reported_eq (outcomes : List (String × Except String Value)) :
    reported outcomes =
      (outcomes.foldl (fun output entry => output.set entry.1 (shownValue entry.2)) (.object []),
        outcomes.filterMap fun entry => shownDiagnostic entry.1 entry.2) := by
  have general (output : Value) (diagnostics : List Diagnostic) :
      outcomes.foldl report (output, diagnostics) =
        (outcomes.foldl (fun output entry => output.set entry.1 (shownValue entry.2)) output,
          diagnostics ++ outcomes.filterMap fun entry => shownDiagnostic entry.1 entry.2) := by
    induction outcomes generalizing output diagnostics with
    | nil => simp
    | cons entry rest ih =>
      obtain ⟨name, outcome⟩ := entry
      rw [List.foldl_cons, List.foldl_cons]
      cases outcome with
      | ok value => exact ih ..
      | error message =>
        rw [report, ih, List.append_assoc]
        rfl
  rw [reported, general, List.nil_append]

theorem name_of_summaryDiagnostic {name other message text : String}
    (same : summaryDiagnostic name message = summaryDiagnostic other text) : name = other := by
  have fields := Option.some.inj (congrArg Diagnostic.field same)
  have texts := congrArg String.toList fields
  rw [String.toList_append, String.toList_append] at texts
  exact String.toList_injective (List.append_cancel_left texts)

/-- Summaries under distinct names that come to the same leave the same value and the same
diagnostic each, or none. -/
theorem shown_of_reported_eq {left right : List (String × Except String Value)}
    (leftDistinct : (left.map Prod.fst).Nodup) (rightDistinct : (right.map Prod.fst).Nodup)
    (same : reported left = reported right) {name : String} {here there : Except String Value}
    (leftMember : (name, here) ∈ left) (rightMember : (name, there) ∈ right) :
    shownValue here = shownValue there ∧
      shownDiagnostic name here = shownDiagnostic name there := by
  rw [reported_eq, reported_eq, Prod.mk.injEq] at same
  have value {outcomes : List (String × Except String Value)} {outcome : Except String Value}
      (distinct : (outcomes.map Prod.fst).Nodup) (member : (name, outcome) ∈ outcomes) :
      (outcomes.foldl (fun (output : Value) entry => output.set entry.1 (shownValue entry.2))
        (.object [])).get name = some (shownValue outcome) := by
    have found := @get_assigned (outcomes.map fun entry => (entry.1, shownValue entry.2)) [] name
      (shownValue outcome)
    rw [List.foldl_map] at found
    refine found (fun entry within named => ?_) (.inl ⟨_, List.mem_map_of_mem member, rfl⟩)
    obtain ⟨other, present, rfl⟩ := List.mem_map.mp within
    rw [List.inj_on_of_nodup_map distinct present member named]
  have diagnostic {outcomes : List (String × Except String Value)} {outcome : Except String Value}
      (distinct : (outcomes.map Prod.fst).Nodup) (member : (name, outcome) ∈ outcomes)
      (message : String) :
      summaryDiagnostic name message ∈
        (outcomes.filterMap fun entry => shownDiagnostic entry.1 entry.2) ↔
          shownDiagnostic name outcome = some (summaryDiagnostic name message) := by
    rw [List.mem_filterMap]
    constructor
    · rintro ⟨⟨other, found⟩, present, shown⟩
      have named : other = name := by
        cases found with
        | ok => cases shown
        | error text => exact name_of_summaryDiagnostic (Option.some.inj shown)
      rw [← Prod.mk.inj (List.inj_on_of_nodup_map distinct present member named) |>.2, ← named]
      exact named ▸ shown
    · exact fun shown => ⟨_, member, shown⟩
  refine ⟨?_, ?_⟩
  · have found := value leftDistinct leftMember
    rw [same.1, value rightDistinct rightMember] at found
    exact (Option.some.inj found).symm
  · have each (message : String) :
        shownDiagnostic name here = some (summaryDiagnostic name message) ↔
          shownDiagnostic name there = some (summaryDiagnostic name message) := by
      rw [← diagnostic leftDistinct leftMember, same.2, diagnostic rightDistinct rightMember]
    cases here with
    | error message => exact ((each message).mp rfl).symm
    | ok value =>
      cases there with
      | ok other => rfl
      | error message => exact absurd ((each message).mpr rfl) (by simp [shownDiagnostic])

section

variable {doubles : Doubles} {evaluate : Summary → List Value → Except Diagnostic Value}

theorem additionalRetainedBytes_le {state : HostedSummaryState doubles} {value : Value} {size : Nat}
    (short : ∀ text, value = .string text → text.utf8ByteSize ≤ size) :
    state.additionalRetainedBytes value ≤ size := by
  unfold HostedSummaryState.additionalRetainedBytes
  split
  next text =>
    split
    · exact le_trans (Nat.sub_le _ _) (short text rfl)
    · exact Nat.zero_le _
  · exact Nat.zero_le _

/-- A single record with short texts does not exhaust the budgets. -/
theorem push_single (lowers : Lowers operators plan)
    (short : ∀ lowered text, hostedCandidateValue candidate lowered = .string text →
      text.utf8ByteSize ≤ 4) :
    ¬∃ error, plan.push doubles (fun _ => "") (HostedQueryPlan.startReduction doubles)
      (plan.reductionInput candidate) = .error error ∧ HostedQueryPlan.isBudgetError error := by
  rintro ⟨error, failed, -⟩
  have aligned : ¬((plan.reductionInput candidate).groupValues.length ≠ plan.groups.length ∨
      (plan.reductionInput candidate).aggregateValues.length ≠ plan.aggregates.length) := by
    simp [HostedQueryPlan.reductionInput]
  have growth (states : List (HostedSummaryState doubles)) :
      HostedQueryPlan.summaryGrowth states (plan.reductionInput candidate) ≤ 32 * 4 := by
    have each : ∀ bytes ∈ (states.zip (plan.reductionInput candidate).aggregateValues).map
        (fun pair => pair.1.additionalRetainedBytes pair.2), bytes ≤ 4 := by
      intro bytes member
      obtain ⟨⟨state, value⟩, pair, rfl⟩ := List.mem_map.mp member
      obtain ⟨aggregate, -, rfl⟩ := List.mem_map.mp (List.of_mem_zip pair).2
      exact additionalRetainedBytes_le fun text read => short aggregate.field text read
    refine le_trans (List.sum_le_card_nsmul _ 4 each) ?_
    rw [smul_eq_mul]
    refine Nat.mul_le_mul_right 4 (le_trans ?_ lowers.limit)
    simp [HostedQueryPlan.reductionInput]
  have few := lowers.limit
  have bounded := growth (plan.aggregates.map fun aggregate => .new doubles aggregate.function)
  rw [HostedQueryPlan.push, if_neg aligned] at failed
  split at failed
  · cases failed
  · have absent : (HostedQueryPlan.startReduction doubles).groups.get? "" = none := rfl
    simp only [absent, lowers.budgets] at failed
    rw [if_neg (by simp [HostedQueryPlan.startReduction, Table.empty])] at failed
    have fits : plan.ensureRetainedGrowth (HostedQueryPlan.startReduction doubles).retainedBytes
        (saturatingAdd (HostedQueryPlan.groupRetainedBytes ""
            (plan.aggregates.map fun aggregate =>
              HostedSummaryState.new doubles aggregate.function).length)
          (HostedQueryPlan.summaryGrowth (plan.aggregates.map fun aggregate =>
            .new doubles aggregate.function) (plan.reductionInput candidate))) = .ok () := by
      rw [HostedQueryPlan.ensureRetainedGrowth, if_pos]
      rw [lowers.budgets]
      simp only [saturatingAdd, HostedQueryPlan.groupRetainedBytes, List.length_map,
        HostedQueryPlan.startReduction]
      have empty : "".utf8ByteSize = 0 := rfl
      omega
    rw [fits] at failed
    cases failed

/-- On a single record with short texts the host agrees only if its values under the grouping
fields, and its summaries, are those of the executor. -/
theorem HostedAgrees.single (lowers : Lowers operators plan)
    (short : ∀ lowered text, hostedCandidateValue candidate lowered = .string text →
      text.utf8ByteSize ≤ 4)
    (agrees : HostedAgrees operators plan doubles (fun _ => "") evaluate [candidate])
    (asked : ¬(operators.groupBy.isEmpty ∧ operators.summaries.isEmpty)) :
    plan.rowValues (plan.reductionInput candidate) =
        (operators.grouping doubles (fun _ => "") evaluate).groupValues candidate ∧
      plan.finishSummaries (plan.consumed doubles [candidate]) =
        (operators.grouping doubles (fun _ => "") evaluate).summarize [candidate] := by
  have reduces : ¬(plan.groups.isEmpty ∧ plan.aggregates.isEmpty) := by
    rwa [lowers.isEmpty.1, lowers.isEmpty.2]
  have same := agrees.groups
  have sorted : sortCandidates [candidate] operators.orderBy = [candidate] := rfl
  obtain ⟨next, pushed, groups⟩ := (@HostedQueryPlan.push_cases plan doubles (fun _ => "")
    (HostedQueryPlan.startReduction doubles) (plan.reductionInput candidate) (List.length_map _)
      (List.length_map _) reduces).resolve_right (push_single lowers short)
  -- the only group of the host, and the only group of the executor
  have group : HostedQueryPlan.pushRow (plan.groupOf doubles (fun _ => "")
      (HostedQueryPlan.startReduction doubles) (plan.reductionInput candidate))
        (plan.reductionInput candidate) =
        plan.streamed doubles
          { key := "", values := plan.rowValues (plan.reductionInput candidate)
            members := [candidate] } :=
    plan.pushRow_streamed doubles
      { key := "", values := plan.rowValues (plan.reductionInput candidate), members := [] }
      candidate
  have hosted : plan.finish next =
      { groups := some
          [{ values := plan.rowValues (plan.reductionInput candidate), count := 1
             summaries := (plan.finishSummaries (plan.consumed doubles [candidate])).1 }]
        diagnostics := (plan.finishSummaries (plan.consumed doubles [candidate])).2 ++ [] } := by
    rw [HostedQueryPlan.finish, if_neg reduces, groups, group]
    rfl
  have reduced : plan.reduceMatches doubles (fun _ => "") [plan.reductionInput candidate] =
      .ok (plan.finish next) := by
    rw [HostedQueryPlan.reduceMatches, List.foldlM_cons, pushed]
    rfl
  have canonical : (operators.grouping doubles (fun _ => "") evaluate).ordered [candidate] =
      [{ key := ""
         values := (operators.grouping doubles (fun _ => "") evaluate).groupValues candidate
         members := [candidate] }] := rfl
  rw [sorted, List.map_singleton, reduced,
    Grouping.buildGroups_eq_render _ asked (.inl (List.cons_ne_nil _ _)), canonical, hosted] at same
  simp only [Grouping.render, Prod.mk.injEq, Option.some.injEq, List.cons.injEq, Group.mk.injEq,
    List.append_nil, and_true] at same
  exact ⟨same.1.1, Prod.ext same.1.2.2 same.2⟩

end

theorem builtinSummary_null {doubles : Doubles} {function : String}
    (other : function ∉ ["count", "empty", "filled"]) :
    builtinSummary doubles function [.null] = .ok .null := by
  simp only [List.mem_cons, List.not_mem_nil, or_false, not_or] at other
  simp [builtinSummary, other]

theorem builtinSummary_composite {doubles : Doubles} {function : String} {value : Value}
    (other : function ∉ ["count", "empty", "filled"])
    (composite : kind value ∈ [Kind.array, Kind.object]) :
    ∃ message, builtinSummary doubles function [value] = .error message := by
  simp only [List.mem_cons, List.not_mem_nil, or_false, not_or] at other
  cases value <;> simp only [kind, List.mem_cons, List.not_mem_nil, reduceCtorEq, or_false,
    or_self] at composite
  case array items | object members =>
    by_cases numeric : function ∈ ["sum", "average", "minimum", "maximum"]
    · refine ⟨nonNumericMessage function, ?_⟩
      simp only [builtinSummary, other, numeric]
      rfl
    · refine ⟨nonStringMessage function, ?_⟩
      simp only [builtinSummary, other, numeric]
      rfl

/-- Every summary but the count tells a filled array or object from nothing. -/
theorem shown_ne {doubles : Doubles} {function name : String} {value : Value}
    (other : function ≠ "count") (composite : kind value ∈ [Kind.array, Kind.object])
    (filled : isEmptyValue value = false)
    (sameValue : shownValue (builtinSummary doubles function [value]) =
      shownValue (builtinSummary doubles function [.null]))
    (sameDiagnostic : shownDiagnostic name (builtinSummary doubles function [value]) =
      shownDiagnostic name (builtinSummary doubles function [.null])) : False := by
  by_cases counts : function = "empty" ∨ function = "filled"
  · have blank : isEmptyValue .null = true := rfl
    rcases counts with rfl | rfl <;>
      simp [builtinSummary, filled, blank, shownValue, countValue] at sameValue
  · have rest : function ∉ ["count", "empty", "filled"] := by simpa [other] using counts
    obtain ⟨message, failed⟩ := @builtinSummary_composite doubles function value rest composite
    rw [failed, builtinSummary_null rest] at sameDiagnostic
    cases sameDiagnostic

section

variable {told even : Candidate → String → Value} {twin : Bool → String → Candidate}

theorem Telling.reads_ne (telling : Telling selected told even field twin)
    (roles : AreReadings told even) :
    hostedReading (twin true "a.md") field ≠ candidateValue (twin true "a.md") field := by
  intro same
  have missed := telling.missed "a.md"
  have found := (telling.found "a.md").1
  rcases roles with ⟨rfl, rfl⟩ | ⟨rfl, rfl⟩
  · rw [same, missed] at found
    exact absurd found (by decide)
  · rw [← same, missed] at found
    exact absurd found (by decide)

theorem Telling.short (telling : Telling selected told even field twin) (lowered : CandidateField)
    (text : String) (read : hostedCandidateValue (twin true "a.md") lowered = .string text) :
    text.utf8ByteSize ≤ 4 := by
  rw [telling.texts "a.md" lowered text read]
  decide

end

variable {doubles : Doubles} {evaluate : Summary → List Value → Except Diagnostic Value}

/-- A host that agrees on single records groups by plain fields only. -/
theorem isPlainField_of_groups (lowers : Lowers operators plan)
    (agrees : ∀ candidate : Candidate, candidate.IsMatch selected →
      HostedAgrees operators plan doubles (fun _ => "") evaluate [candidate])
    {item : OrderBy} (member : item ∈ operators.groupBy) :
    isPlainField selected item.field = true := by
  by_contra odd
  obtain ⟨lowered, found⟩ := Option.isSome_iff_exists.mp (lowers.accepted.2.1 item member)
  obtain ⟨told, even, twin, roles, telling⟩ := exists_telling found (Bool.not_eq_true _ ▸ odd)
  have asked : ¬(operators.groupBy.isEmpty ∧ operators.summaries.isEmpty) := by
    intro idle
    rw [List.isEmpty_iff.mp idle.1] at member
    exact List.not_mem_nil member
  have same := ((agrees _ (telling.isMatch true "a.md")).single lowers telling.short asked).1
  have canonical := @memberOrNull_groupValues (operators.grouping doubles (fun _ => "") evaluate)
    (twin true "a.md") item member
  rw [← same, lowers.rowValues_eq, memberOrNull, get_foldl_set (hostedReading _),
    if_pos (List.mem_map_of_mem member), Option.getD_some] at canonical
  exact telling.reads_ne roles canonical

/-- A host that agrees on single records summarises plain fields only, but for counts. -/
theorem isPlainField_of_summaries (lowers : Lowers operators plan)
    (agrees : ∀ candidate : Candidate, candidate.IsMatch selected →
      HostedAgrees operators plan doubles (fun _ => "") evaluate [candidate])
    {item : Summary} (member : item ∈ operators.summaries) (other : item.function ≠ "count") :
    isPlainField selected item.field = true := by
  by_contra odd
  obtain ⟨lowered, found⟩ := Option.isSome_iff_exists.mp (lowers.accepted.2.2 item member)
  obtain ⟨told, even, twin, roles, telling⟩ := exists_telling found (Bool.not_eq_true _ ▸ odd)
  have asked : ¬(operators.groupBy.isEmpty ∧ operators.summaries.isEmpty) := by
    intro idle
    rw [List.isEmpty_iff.mp idle.2] at member
    exact List.not_mem_nil member
  have builtin := lowers.summaries_builtin
  have same := ((agrees _ (telling.isMatch true "a.md")).single lowers telling.short asked).2
  rw [finishSummaries_eq_reported lowers.aggregates_builtin, lowers.outcomes_eq,
    summarize_eq_reported _ builtin] at same
  have names {outcome : Summary → Except String Value} :
      ((operators.summaries.map fun item =>
        (item.outputName, outcome item)).map Prod.fst).Nodup := by
    rw [List.map_map]
    exact lowers.names
  have shown := shown_of_reported_eq names names same (List.mem_map_of_mem member)
    (List.mem_map_of_mem member)
  have found := telling.found "a.md"
  have missed := telling.missed "a.md"
  rcases roles with ⟨rfl, rfl⟩ | ⟨rfl, rfl⟩
  · rw [List.map_singleton, List.map_singleton, missed] at shown
    exact shown_ne other found.1 found.2 shown.1 shown.2
  · rw [List.map_singleton, List.map_singleton, missed] at shown
    exact shown_ne other found.1 found.2 shown.1.symm shown.2.symm

/-- The host agrees with the executor on all matched records exactly if the names it compares,
groups and summarises by are plain. On no record at all it agrees exactly if no summaries are
asked without groups. -/
theorem hostedAgrees_iff (compiled : operators.compile = .ok plan) (selected : List String) :
    ((∀ doubles text evaluate candidates, candidates ≠ [] →
        (candidates.map Candidate.path).Nodup →
        (∀ candidate ∈ candidates, candidate.IsMatch selected) →
        HostedAgrees operators plan doubles text evaluate candidates) ↔
      operators.IsPlain selected) ∧
    ∀ doubles text evaluate, HostedAgrees operators plan doubles text evaluate [] ↔
      (operators.groupBy = [] → operators.summaries = []) := by
  have lowers := lowers_of_compile compiled
  refine ⟨⟨fun agrees => ?_,
      fun plain doubles text evaluate candidates present distinct matched => ?_⟩,
    fun doubles text evaluate => ?_⟩
  · have single (candidate : Candidate) (isMatch : candidate.IsMatch selected) :
        HostedAgrees operators plan exactDoubles (fun _ => "") (fun _ _ => .ok .null)
          [candidate] :=
      agrees exactDoubles (fun _ => "") (fun _ _ => .ok .null) [candidate] (List.cons_ne_nil _ _)
        (List.nodup_singleton _) (by simpa using isMatch)
    refine ⟨?_, fun item member => isPlainField_of_groups lowers single member,
      fun item member => ?_⟩
    · by_contra odd
      obtain ⟨left, right, apart, leftMatch, rightMatch, differ⟩ :=
        exists_sortBy_ne lowers.accepted.1 (Bool.not_eq_true _ ▸ odd)
      have sorted := (agrees exactDoubles (fun _ => "") (fun _ _ => .ok .null) [left, right]
        (List.cons_ne_nil _ _) (by simpa using apart) (by simp [leftMatch, rightMatch])).sequence
      rw [lowers.compareMatches_eq, sortCandidates, compareCandidates_eq_compareBy] at sorted
      exact differ sorted
    · by_cases count : item.function = "count"
      · exact .inl count
      · exact .inr (isPlainField_of_summaries lowers single member count)
  · exact ((plain.readsAlike distinct matched).agrees_iff lowers).mpr fun absent =>
      absurd absent present
  · have nothing : ReadsAlike operators [] :=
      ⟨by simp, by simp, fun _ _ => .inr (by simp)⟩
    rw [nothing.agrees_iff lowers]
    exact ⟨fun agree => agree rfl, fun agree _ => agree⟩

/-- A ranking by bare names: the highest rank first, counted by status. -/
def rankedByStatus : QueryOperators where
  orderBy := [{ field := "rank", direction := .desc }]
  groupBy := [{ field := "status" }]
  summaries :=
    [{ field := "rank", function := "count" }, { field := "rank", function := "maximum" }]

/-- The plan of the ranking by bare names. -/
def rankedByStatusPlan : HostedQueryPlan where
  order := [{ field := .effectiveFrontmatter ["rank"], direction := .desc }]
  groups :=
    [{ field := .effectiveFrontmatter ["status"], outputName := "status", direction := .asc }]
  aggregates :=
    [{ field := .effectiveFrontmatter ["rank"], function := "count", outputName := "count" },
      { field := .effectiveFrontmatter ["rank"], function := "maximum", outputName := "maximum" }]

theorem rankedNote_isMatch (path : String) (rank : Value) (status : String) :
    (rankedNote path rank status).IsMatch [] where
  filed := rfl
  values _ _ := rfl

theorem partlyRanked_isMatch : ∀ candidate ∈ partlyRanked, candidate.IsMatch [] := by
  simp only [partlyRanked, List.forall_mem_cons, rankedNote_isMatch, true_and]
  exact List.forall_mem_nil _

theorem hostedAgrees_rankedByStatus :
    HostedAgrees rankedByStatus rankedByStatusPlan exactDoubles byStatus.text byStatus.evaluate
      partlyRanked :=
  (hostedAgrees_iff (by decide +kernel) []).1.mpr (by decide +kernel) exactDoubles byStatus.text
    byStatus.evaluate partlyRanked (by decide) (by decide) partlyRanked_isMatch

/-- A ranking by the path of the member in the record. -/
def rankedByRecord : QueryOperators where
  orderBy := [{ field := "record.rank" }]
  groupBy := []
  summaries := []

/-- The plan of the ranking by the path of the member. -/
def rankedByRecordPlan : HostedQueryPlan where
  order := [{ field := .effectiveFrontmatter ["rank"], direction := .asc }]
  groups := []
  aggregates := []

/-- Two notes of which the second has the lower rank. -/
def twoRanks : List Candidate :=
  [rankedNote "a.md" (.number (.posInt 2)) "open", rankedNote "b.md" (.number (.posInt 1)) "open"]

/-- The compiler resolves `record.rank` to the rank of the record; the executor
looks for a member of that very name, finds none and falls back to the paths. -/
theorem twoRanks_sorted_differently :
    ¬∀ (operators : QueryOperators) (plan : HostedQueryPlan) (selected : List String)
      (doubles : Doubles) (text : Value → String)
      (evaluate : Summary → List Value → Except Diagnostic Value) (candidates : List Candidate),
        operators.compile = .ok plan → (candidates.map Candidate.path).Nodup →
          (∀ candidate ∈ candidates, candidate.IsMatch selected) →
            HostedAgrees operators plan doubles text evaluate candidates := by
  intro agrees
  have matched : ∀ candidate ∈ twoRanks, candidate.IsMatch [] := by
    simp only [twoRanks, List.forall_mem_cons, rankedNote_isMatch, true_and]
    exact List.forall_mem_nil _
  have both := (agrees rankedByRecord rankedByRecordPlan [] exactDoubles byStatus.text
    byStatus.evaluate twoRanks (by decide +kernel) (by decide) matched).sequence
  have hosted : (sortBy rankedByRecordPlan.compareMatches twoRanks).map Candidate.path =
      ["b.md", "a.md"] := by
    decide +kernel
  have canonical : (sortCandidates twoRanks rankedByRecord.orderBy).map Candidate.path =
      ["a.md", "b.md"] := by
    decide +kernel
  rw [both, canonical] at hosted
  exact absurd hosted (by decide)

end Mdbase.Query
