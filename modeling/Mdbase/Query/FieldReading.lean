import Mdbase.Query.CandidateVerdict

/-!
# Reading a field of a record

A condition reads a field by evaluating its path over the bindings of a candidate;
a candidate predicate reads it from the projected facts. Where the facts have a value
the condition has it too, possibly as an instant.
-/

namespace Mdbase.Query

open Library Mdbase.Runtime Mdbase.Cel

/-- The names along a field path. -/
def fieldSegments : Expr → Option (List String)
  | .ident name => some [name]
  | .select operand field false => (fieldSegments operand).map (· ++ [field])
  | .call "_[_]" none [parent, .literal (.string field)] =>
    (fieldSegments parent).map (· ++ [field])
  | _ => none

/-- No name along the path contains the separator. -/
def plainPath (expression : Expr) : Bool :=
  (fieldSegments expression).all fun segments => segments.all fun segment => '.' ∉ segment.toList

theorem intercalate_append_one {α : Type} (mark : α) (parts : List (List α)) (last : List α)
    (nonempty : parts ≠ []) :
    [mark].intercalate (parts ++ [last]) = [mark].intercalate parts ++ mark :: last := by
  induction parts with
  | nil => exact absurd rfl nonempty
  | cons part rest ih =>
    cases rest with
    | nil => simp [List.intercalate_cons_cons]
    | cons next more =>
      rw [List.cons_append, List.cons_append, List.intercalate_cons_cons,
        List.intercalate_cons_cons, ← List.cons_append, ih (List.cons_ne_nil _ _)]
      simp

variable {expression : Expr}

theorem fieldSegments_ne_nil {segments : List String}
    (found : fieldSegments expression = some segments) : segments ≠ [] := by
  unfold fieldSegments at found
  split at found
  · cases found
    exact List.cons_ne_nil _ _
  · obtain ⟨_, _, rfl⟩ := Option.map_eq_some_iff.mp found
    simp
  · obtain ⟨_, _, rfl⟩ := Option.map_eq_some_iff.mp found
    simp
  · cases found

/-- The path of an expression joins its segments with dots. -/
theorem expressionPath_eq (expression : Expr) :
    (expressionPath expression).map String.toList =
      (fieldSegments expression).map fun segments =>
        ['.'].intercalate (segments.map String.toList) := by
  have join : ∀ parent (field : String),
      (expressionPath parent).map String.toList = (fieldSegments parent).map (fun segments =>
        ['.'].intercalate (segments.map String.toList)) →
      ((expressionPath parent).map (· ++ "." ++ field)).map String.toList =
        ((fieldSegments parent).map (· ++ [field])).map (fun segments =>
          ['.'].intercalate (segments.map String.toList)) := by
    intro parent field ih
    cases segments : fieldSegments parent with
    | none =>
      rw [segments] at ih
      cases path : expressionPath parent with
      | none => rfl
      | some path' =>
        rw [path] at ih
        cases ih
    | some segments' =>
      rw [segments] at ih
      cases path : expressionPath parent with
      | none =>
        rw [path] at ih
        cases ih
      | some path' =>
        rw [path] at ih
        have same : path'.toList = ['.'].intercalate (segments'.map String.toList) :=
          Option.some.inj ih
        simp only [Option.map_some, List.map_append, List.map_cons, List.map_nil]
        rw [intercalate_append_one _ _ _ (by simpa using fieldSegments_ne_nil segments), ← same]
        simp
  fun_induction expressionPath expression with
  | case1 name => simp [fieldSegments]
  | case2 operand field ih => exact join operand field ih
  | case3 parent field ih => exact join parent field ih
  | case4 expression notIdent notSelect notIndex =>
    have absent : fieldSegments expression = none := by
      unfold fieldSegments
      split
      · exact absurd rfl (notIdent _)
      · exact absurd rfl (notSelect _ _)
      · exact absurd rfl (notIndex _ _)
      · rfl
    rw [absent]
    rfl

theorem dotSegments_of_plainPath (plain : plainPath expression) {path : String}
    (found : expressionPath expression = some path) :
    fieldSegments expression = some (dotSegments path) := by
  have joined := expressionPath_eq expression
  rw [found] at joined
  cases segments : fieldSegments expression with
  | none =>
    rw [segments] at joined
    cases joined
  | some names =>
    rw [segments] at joined
    have whole : path.toList = ['.'].intercalate (names.map String.toList) := Option.some.inj joined
    have nonempty := fieldSegments_ne_nil segments
    rw [plainPath, segments, Option.all_some, List.all_eq_true] at plain
    have split : path.toList.splitOn '.' = names.map String.toList := by
      rw [whole]
      apply List.splitOn_intercalate
      · intro part member
        obtain ⟨name, nameMember, rfl⟩ := List.mem_map.mp member
        simpa using plain name nameMember
      · simpa using nonempty
    rw [dotSegments, split, List.map_map]
    simp [Function.comp_def]

theorem ident_of_fieldSegments {name : String}
    (found : fieldSegments expression = some [name]) : expression = .ident name := by
  have longer : ∀ {parent : Expr} {field : String},
      (fieldSegments parent).map (· ++ [field]) ≠ some [name] := by
    intro parent field joined
    obtain ⟨segments, parentFound, appended⟩ := Option.map_eq_some_iff.mp joined
    have nonempty := fieldSegments_ne_nil parentFound
    cases segments with
    | nil => exact nonempty rfl
    | cons head tail => simp at appended
  unfold fieldSegments at found
  split at found
  · cases found
    rfl
  · exact absurd found longer
  · exact absurd found longer
  · cases found

/-- A value of a condition that a JSON value of the record appears as. -/
def Renders (parsers : TextParsers) (value : Value) (rendered : CelValue) : Prop :=
  rendered = toCel value ∨ ∃ text instant, value = .string text ∧
    parsers.instant text = some instant ∧ rendered = .timestamp instant

theorem renders_typedField (parsers : TextParsers) (dateTimes : List String) (name : String)
    (value : Value) :
    Renders parsers value (typedField parsers.instant dateTimes name value) := by
  unfold typedField
  split
  · cases value with
    | string text =>
      cases found : parsers.instant text with
      | none =>
        left
        simp [typedScalar, found, toCel]
      | some instant => exact .inr ⟨text, instant, rfl, found, by simp [typedScalar, found]⟩
    | null | bool _ | number _ | array _ | object _ => exact .inl rfl
  · exact .inl rfl

theorem typedField_object (parsers : TextParsers) (dateTimes : List String) (name : String)
    (members : List (String × Value)) :
    typedField parsers.instant dateTimes name (.object members) = .map (toCelMembers members) := by
  unfold typedField
  split <;> rfl

theorem nested_append_one (root : List (String × Value)) {path : List String} (last : String)
    (nonempty : path ≠ []) :
    nested root (path ++ [last]) = (nested root path).bind fun value => value.get last := by
  cases path with
  | nil => exact absurd rfl nonempty
  | cons first rest =>
    simp only [List.cons_append, nested, List.foldlM_append, List.foldlM_cons, List.foldlM_nil]
    cases (Value.object root).get first with
    | none => rfl
    | some value =>
      simp only [Option.bind_some, bind_pure]
      rfl

variable {catalog : Catalog} {context : FilterContext} {record : RecordDocument}
  {resolve : String → Option CelValue}

theorem eval_member {parent : Expr} {members : List (String × CelValue)}
    (found : eval catalog.engine resolve parent = some (.map members)) (field : String) :
    eval catalog.engine resolve (.select parent field false) = lookup members field ∧
      eval catalog.engine resolve (.call "_[_]" none [parent, .literal (.string field)]) =
        lookup members field := by
  constructor
  · simp [eval, found]
  · simp [eval, evalTarget, evalAll, found, applyFunction, literalValue, CelValue.index]

/-- A path below a root that is bound to the fields of an object reads what the
projected facts hold under the rest of the path. -/
theorem eval_fieldPath {root : String} {fields : List (String × Value)} {dateTimes : List String}
    (bound : resolve root = some (typedObject catalog.parsers.instant dateTimes (.object fields))) :
    ∀ (expression : Expr) (path : List String), fieldSegments expression = some (root :: path) →
      (path = [] → eval catalog.engine resolve expression =
        some (typedObject catalog.parsers.instant dateTimes (.object fields))) ∧
      ∀ first rest, path = first :: rest → ∀ value, nested fields path = some value →
        eval catalog.engine resolve expression =
          some (if rest = [] then typedField catalog.parsers.instant dateTimes first value
            else toCel value) := by
  intro expression
  have step : ∀ parent field, (∀ path, fieldSegments parent = some (root :: path) →
      (path = [] → eval catalog.engine resolve parent =
        some (typedObject catalog.parsers.instant dateTimes (.object fields))) ∧
      ∀ first rest, path = first :: rest → ∀ value, nested fields path = some value →
        eval catalog.engine resolve parent =
          some (if rest = [] then typedField catalog.parsers.instant dateTimes first value
            else toCel value)) →
      ∀ path, (fieldSegments parent).map (· ++ [field]) = some (root :: path) →
        path ≠ [] ∧ ∀ first rest, path = first :: rest → ∀ value, nested fields path = some value →
          ∃ members, eval catalog.engine resolve parent = some (.map members) ∧
            lookup members field =
              some (if rest = [] then typedField catalog.parsers.instant dateTimes first value
                else toCel value) := by
    intro parent field ih path found
    obtain ⟨segments, parentFound, joined⟩ := Option.map_eq_some_iff.mp found
    cases segments with
    | nil => exact absurd rfl (fieldSegments_ne_nil parentFound)
    | cons head before =>
      rw [List.cons_append] at joined
      obtain ⟨rfl, rfl⟩ := List.cons.inj joined
      refine ⟨by simp, ?_⟩
      intro first rest split value present
      obtain ⟨whole, deeper⟩ := ih before parentFound
      cases before with
      | nil =>
        obtain ⟨rfl, rfl⟩ := List.cons.inj split
        refine ⟨_, whole rfl, ?_⟩
        have read : (Value.object fields).get field = some value := by
          simpa [nested] using present
        rw [lookup_typed, read]
        rfl
      | cons next more =>
        rw [List.cons_append] at split
        obtain ⟨rfl, rfl⟩ := List.cons.inj split
        rw [nested_append_one _ _ (List.cons_ne_nil _ _)] at present
        obtain ⟨parentValue, parentPresent, last⟩ := Option.bind_eq_some_iff.mp present
        have parentRead := deeper next more rfl parentValue parentPresent
        cases parentValue with
        | object members =>
          refine ⟨toCelMembers members, ?_, ?_⟩
          · rw [parentRead]
            split
            · rw [typedField_object]
            · rfl
          · rw [lookup_toCelMembers, last, if_neg (by simp)]
            rfl
        | null | bool _ | number _ | string _ | array _ => cases last
  fun_induction fieldSegments expression with
  | case1 name =>
    intro path found
    obtain ⟨rfl, rfl⟩ := List.cons.inj (Option.some.inj found)
    refine ⟨fun _ => by rw [eval, bound], ?_⟩
    intro first rest impossible
    cases impossible
  | case2 operand field ih =>
    intro path found
    obtain ⟨nonempty, reads⟩ := step operand field ih path found
    refine ⟨fun empty => absurd empty nonempty, ?_⟩
    intro first rest split value present
    obtain ⟨members, parent, read⟩ := reads first rest split value present
    rw [(eval_member parent field).1, read]
  | case3 parent field ih =>
    intro path found
    obtain ⟨nonempty, reads⟩ := step parent field ih path found
    refine ⟨fun empty => absurd empty nonempty, ?_⟩
    intro first rest split value present
    obtain ⟨members, parent, read⟩ := reads first rest split value present
    rw [(eval_member parent field).2, read]
  | case4 =>
    intro path found
    cases found

/-- What each root of an expression is bound to. -/
theorem get_candidateBindings (name : String) (free : name ∉ ["types", "projection"]) :
    (catalog.candidateBindings context record).get name =
      if name = "raw" then some (.object (membersOf (Catalog.rawOf record)))
      else if name = "record" then some (.object (membersOf (catalog.effectiveOf record)))
      else if name ∈ reservedRoots then none
      else (Value.object (membersOf (catalog.effectiveOf record))).get name := by
  simp only [List.mem_cons, List.not_mem_nil, or_false, not_or] at free
  unfold Catalog.candidateBindings Catalog.enrichRecordBindings
  obtain ⟨first, recordSet⟩ := Value.exists_set_eq_object
    ((membersOf (catalog.effectiveOf record)).filter fun member => member.1 ∉ reservedRoots)
    "record" (.object (membersOf (catalog.effectiveOf record)))
  obtain ⟨second, rawSet⟩ := Value.exists_set_eq_object first "raw"
    (.object (membersOf (Catalog.rawOf record)))
  obtain ⟨third, projectionSet⟩ := Value.exists_set_eq_object second "projection"
    (.object context.projections)
  rw [recordSet, rawSet, projectionSet, Value.get_set_of_ne _ free.1, ← projectionSet,
    Value.get_set_of_ne _ free.2, ← rawSet]
  by_cases isRaw : name = "raw"
  · rw [if_pos isRaw, isRaw, Value.get_set_self]
  · rw [if_neg isRaw, Value.get_set_of_ne _ isRaw, ← recordSet]
    by_cases isRecord : name = "record"
    · rw [if_pos isRecord, isRecord, Value.get_set_self]
    · rw [if_neg isRecord, Value.get_set_of_ne _ isRecord]
      unfold Value.get
      simp only [List.find?_filter]
      by_cases reserved : name ∈ reservedRoots
      · rw [if_pos reserved]
        rw [Option.map_eq_none_iff, List.find?_eq_none]
        intro member _ both
        simp only [decide_eq_true_eq] at both
        exact both.1 (both.2 ▸ reserved)
      · rw [if_neg reserved]
        congr 2
        funext member
        by_cases here : member.1 = name
        · simp [here, reserved]
        · simp [here]

/-- The declared instants among the fields of a record. -/
def Catalog.dateTimesOf (catalog : Catalog) (record : RecordDocument) : List String :=
  catalog.dateTimeFields (catalog.typesOf record)

theorem resolve_record : catalog.resolve context record "record" =
    some (typedObject catalog.parsers.instant (catalog.dateTimesOf record)
      (.object (membersOf (catalog.effectiveOf record)))) := by
  have bound := @get_candidateBindings catalog context record "record" (by decide)
  rw [if_neg (by decide), if_pos rfl] at bound
  simp only [Catalog.resolve, bound]
  rfl

theorem resolve_raw : catalog.resolve context record "raw" =
    some (typedObject catalog.parsers.instant (catalog.dateTimesOf record)
      (.object (record.frontmatter.getD []))) := by
  have bound := @get_candidateBindings catalog context record "raw" (by decide)
  rw [if_pos rfl] at bound
  simp only [Catalog.resolve, bound]
  rfl

theorem resolve_field {name : String} (free : name ∉ "types" :: reservedRoots) {value : Value}
    (present : (Value.object (membersOf (catalog.effectiveOf record))).get name = some value) :
    catalog.resolve context record name =
      some (typedField catalog.parsers.instant (catalog.dateTimesOf record) name value) := by
  have unreserved : name ∉ reservedRoots := fun reserved => free (List.mem_cons_of_mem _ reserved)
  have differs : ∀ other ∈ reservedRoots, name ≠ other := fun other reserved same =>
    unreserved (same ▸ reserved)
  have bound := @get_candidateBindings catalog context record name (by
    simp only [List.mem_cons, List.not_mem_nil, or_false, not_or]
    exact ⟨fun same => free (same ▸ List.mem_cons_self), differs _ (by decide)⟩)
  rw [if_neg (differs _ (by decide)), if_neg (differs _ (by decide)), if_neg unreserved,
    present] at bound
  simp only [Catalog.resolve, bound, if_neg (differs "file" (by decide))]
  rw [if_neg]
  · rfl
  · simp only [List.mem_cons, List.not_mem_nil, or_false, not_or]
    exact ⟨differs _ (by decide), differs _ (by decide), differs _ (by decide)⟩

theorem effectiveFrontmatter_of_complete
    (complete : (catalog.projectRecord record).semanticComplete) :
    (catalog.projectRecord record).effectiveFrontmatter =
      membersOf (catalog.effectiveOf record) := by
  simp only [Catalog.projectRecord, Bool.and_eq_true, List.isEmpty_iff] at complete ⊢
  obtain ⟨⟨mapping, _⟩, independent⟩ := complete
  rw [if_pos mapping, independent]
  simp

/-- A fact that the projection has under a field is the value that the condition
reads from the field. -/
theorem eval_lowerField (complete : (catalog.projectRecord record).semanticComplete)
    {expression : Expr} (plain : plainPath expression) {field : CandidateField}
    (lowered : lowerField expression = some field) {value : Value}
    (present : projectionValue (catalog.projectRecord record) field = some value) :
    ∃ rendered, catalog.evaluate context record expression = some rendered ∧
      Renders catalog.parsers value rendered := by
  obtain ⟨path, found, compiled⟩ := Option.bind_eq_some_iff.mp lowered
  have segments := dotSegments_of_plainPath plain found
  have effective := effectiveFrontmatter_of_complete complete
  have below : ∀ {root : String} {fields : List (String × Value)} {rest : List String},
      catalog.resolve context record root = some (typedObject catalog.parsers.instant
        (catalog.dateTimesOf record) (.object fields)) →
      fieldSegments expression = some (root :: rest) → nested fields rest = some value →
      ∃ rendered, catalog.evaluate context record expression = some rendered ∧
        Renders catalog.parsers value rendered := by
    intro root fields rest bound names read
    cases rest with
    | nil => cases read
    | cons first rest =>
      have answer := (eval_fieldPath bound expression _ names).2 first rest rfl value read
      refine ⟨_, answer, ?_⟩
      split
      · exact renders_typedField ..
      · exact .inl rfl
  unfold lowerQueryField at compiled
  split at compiled
  next => cases compiled; cases present
  next rest split =>
    cases compiled
    rw [split] at segments
    rw [projectionValue, effective] at present
    exact below resolve_record segments present
  next rest split =>
    cases compiled
    rw [split] at segments
    exact below resolve_raw segments present
  next => cases compiled; cases present
  next => cases compiled; cases present
  next =>
    split at compiled
    · cases compiled
      cases present
    · cases compiled
  next single notTypes notRecord notRaw split =>
    split at compiled
    next => cases compiled
    rename_i unreserved
    cases compiled
    rw [split] at segments
    rw [projectionValue, effective] at present
    have read : (Value.object (membersOf (catalog.effectiveOf record))).get single =
        some value := by
      simpa [nested] using present
    have free : single ∉ "types" :: reservedRoots := by
      intro member
      rcases List.mem_cons.mp member with rfl | reserved
      · exact notTypes rfl
      · exact unreserved reserved
    have named : catalog.evaluate context record expression =
        catalog.resolve context record single := by
      rw [ident_of_fieldSegments segments, Catalog.evaluate, eval]
    rw [named, resolve_field free read]
    exact ⟨_, rfl, renders_typedField ..⟩
  next => cases compiled

end Mdbase.Query
