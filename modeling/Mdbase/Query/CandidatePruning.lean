import Mdbase.Query.FieldReading

/-!
# Soundness of candidate pruning

A candidate predicate describes the condition it was lowered from as long as three
re-implementations agree with the canonical evaluation: a joined field path splits
into the names it was written with, two numbers are ordered alike as doubles and by
their values, and a folder does not lose a leading separator only on one side. Where
they agree, a rejected record does not match.
-/

namespace Mdbase.Runtime

/-- The number itself. -/
def Number.exactValue : Number → Rat
  | .posInt value => value
  | .negInt value => value
  | .float value => value

end Mdbase.Runtime

namespace Mdbase.Query

open Library Mdbase.Runtime Mdbase.Cel

/-- The fact under the joined path of an expression is the one that its names lead to. -/
def readAsWritten (projection : SemanticProjection) (expression : Expr) : Bool :=
  plainPath expression || ((lowerField expression).bind (projectionValue projection)).isNone

/-- An ordering of two numbers does not depend on their rounding to doubles. -/
def orderedAsWritten (projection : SemanticProjection) (comparison : CandidateComparison) :
    Bool :=
  match comparison.operator.accepts, projectionValue projection comparison.field,
      comparison.value with
  | some accepts, some (.number left), .number right =>
    accepts (compare left.asF64 right.asF64) = accepts (compare left.exactValue right.exactValue)
  | _, _, _ => true

/-- A lowered comparison of two operands reads and orders them as they are written. -/
def comparedAsWritten (projection : SemanticProjection) (left right : Expr)
    (comparison : CandidateComparison) : Bool :=
  comparison.pruning ≠ .exactJson ||
    (readAsWritten projection left && readAsWritten projection right &&
      orderedAsWritten projection comparison)

/-- A folder written with a leading separator does not contain the record. -/
def folderAsWritten (projection : SemanticProjection) (argument : Expr) : Bool :=
  match literalJson argument with
  | some (.string folder) =>
    !(['/'].isPrefixOf (trimEnd '/' folder).toList &&
      pathIsInFolder projection.path (trimStart '/' (trimEnd '/' folder)))
  | _ => true

/-- The lowered part of an expression has an answer. -/
def answers (parsers : TextParsers) (projection : SemanticProjection) (expression : Expr)
    (answer : Truth) : Bool :=
  (lowerExpression parsers expression).any fun lowered =>
    evaluatePredicate projection lowered.predicate = answer

/-- Every term that the lowering keeps and that is evaluated is read as it is written. The second
operand of a connective is not evaluated when the first one decides. -/
def asWritten (parsers : TextParsers) (projection : SemanticProjection) : Expr → Bool
  | .call "_&&_" none [left, right] =>
    asWritten parsers projection left &&
      (answers parsers projection left .fails || asWritten parsers projection right)
  | .call "_||_" none [left, right] =>
    (disjoin (lowerExpression parsers left) (lowerExpression parsers right)).isNone ||
      asWritten parsers projection left &&
        (answers parsers projection left .holds || asWritten parsers projection right)
  | .call "!_" none [inner] =>
    (negate (lowerExpression parsers inner)).isNone || asWritten parsers projection inner
  | .call operator none [left, right] =>
    (lowerComparison parsers operator left right).all (comparedAsWritten projection left right)
  | .call "inFolder" (some receiver) [argument] =>
    (lowerInFolder receiver argument).all fun _ => folderAsWritten projection argument
  | .call "contains" (some receiver) [argument] =>
    (lowerContains parsers receiver argument).all (comparedAsWritten projection receiver argument)
  | _ => true

section Literals

variable {engine : Engine} {resolve : String → Option CelValue} {parsers : TextParsers}

theorem eval_exactScalar {expression : Expr} {value : Value}
    (literal : literalJson expression = some value) (exact : parsers.exactScalar value) :
    eval engine resolve expression = some (toCel value) := by
  unfold literalJson at literal
  split at literal
  case h_1 | h_2 | h_6 =>
    cases literal
    simp [eval, literalValue, toCel]
  case h_3 | h_4 | h_5 =>
    cases literal
    simp [TextParsers.exactScalar, integerValue] at exact
  case h_7 =>
    split at literal
    · obtain ⟨items, _, rfl⟩ := Option.map_eq_some_iff.mp literal
      simp [TextParsers.exactScalar] at exact
    · cases literal
  case h_8 => cases literal

theorem eval_number {expression : Expr} {number : Number}
    (literal : literalJson expression = some (.number number)) :
    ∃ denoted, eval engine resolve expression = some denoted ∧
      denoted.numeric = some (.finite number.exactValue) := by
  unfold literalJson at literal
  split at literal
  case h_3 value =>
    refine ⟨.int value, by simp [eval, literalValue], ?_⟩
    unfold integerValue at literal
    by_cases natural : 0 ≤ value
    · rw [if_pos natural] at literal
      cases literal
      obtain ⟨magnitude, rfl⟩ := Int.eq_ofNat_of_zero_le natural
      simp [CelValue.numeric, Number.exactValue]
    · rw [if_neg natural] at literal
      cases literal
      simp [CelValue.numeric, Number.exactValue]
  case h_4 value =>
    cases literal
    exact ⟨.uint value, by simp [eval, literalValue], rfl⟩
  case h_5 value =>
    cases literal
    exact ⟨.float (.finite value), by simp [eval, literalValue], rfl⟩
  case h_7 =>
    split at literal
    · obtain ⟨items, _, impossible⟩ := Option.map_eq_some_iff.mp literal
      cases impossible
    · cases literal
  all_goals cases literal

theorem eval_exactItems {expression : Expr} {values : List Value}
    (literal : literalJson expression = some (.array values))
    (exact : values.all parsers.exactScalar) :
    eval engine resolve expression = some (.list (values.map toCel)) := by
  unfold literalJson at literal
  split at literal
  case h_7 elements optionalIndices =>
    split at literal
    next plain =>
      obtain ⟨items, found, same⟩ := Option.map_eq_some_iff.mp literal
      cases same
      have results : allResults (evalAll engine resolve elements) = some (values.map toCel) := by
        clear literal
        induction elements generalizing values with
        | nil =>
          cases found
          rfl
        | cons element rest ih =>
          rw [literalItems] at found
          obtain ⟨value, head, tail⟩ := Option.bind_eq_some_iff.mp found
          obtain ⟨others, restFound, rfl⟩ := Option.map_eq_some_iff.mp tail
          rw [List.all_cons, Bool.and_eq_true] at exact
          rw [evalAll, eval_exactScalar head exact.1, allResults, Option.bind_some,
            ih exact.2 restFound]
          rfl
      rw [eval, if_pos plain, results]
      rfl
    next => cases literal
  case h_3 | h_4 | h_5 => simp [integerValue] at literal
  all_goals cases literal

end Literals

section Operators

variable {engine : Engine} {parsers : TextParsers} {value literal : Value}
  {rendered denoted : CelValue}

theorem numeric_toCel (number : Number) :
    (toCel (.number number)).numeric = some (.finite number.exactValue) := by
  cases number with
  | posInt magnitude =>
    rw [toCel]
    split <;> simp [CelValue.numeric, Number.exactValue]
  | negInt negative => simp [toCel, CelValue.numeric, Number.exactValue]
  | float double => rfl

theorem equals_of_numeric {number other : CelValue} {known : Double}
    (numeric : number.numeric = some known) (different : other.numeric = none) :
    number.equals engine other = false ∧ other.equals engine number = false := by
  cases number <;> cases other <;> simp_all [CelValue.numeric, CelValue.equals]

/-- A converted value and an exact scalar are equal in the condition exactly when they
are as JSON values, in both orders. -/
theorem equals_exactScalar (value : Value) (exact : parsers.exactScalar literal) :
    (toCel value).equals engine (toCel literal) = decide (value = literal) ∧
      (toCel literal).equals engine (toCel value) = decide (literal = value) := by
  have scalar : (toCel literal).numeric = none := by
    cases literal <;> simp_all [TextParsers.exactScalar, toCel, CelValue.numeric]
  cases value with
  | number number =>
    obtain ⟨left, right⟩ := @equals_of_numeric engine _ _ _ (numeric_toCel number) scalar
    rw [left, right]
    cases literal <;> simp_all [TextParsers.exactScalar]
  | null | bool _ | string _ | array _
  | object _ => cases literal <;> simp_all [TextParsers.exactScalar, toCel, CelValue.equals]

/-- The same for a fact that may be rendered as an instant: the text of an instant is
no exact scalar. -/
theorem equals_rendered (renders : Renders parsers value rendered)
    (exact : parsers.exactScalar literal) :
    rendered.equals engine (toCel literal) = decide (value = literal) ∧
      (toCel literal).equals engine rendered = decide (literal = value) := by
  rcases renders with rfl | ⟨text, instant, rfl, parsed, rfl⟩
  · exact equals_exactScalar value exact
  · have different : Value.string text ≠ literal := by
      rintro rfl
      simp [TextParsers.exactScalar, TextParsers.ambiguous, parsed] at exact
    rw [decide_eq_false different, decide_eq_false different.symm]
    cases literal <;> simp_all [TextParsers.exactScalar, toCel, CelValue.equals, CelValue.numeric]

theorem any_eq_decide_mem {test : Value → Bool} {values : List Value}
    (recognizes : ∀ item ∈ values, test item = decide (item = value)) :
    values.any test = decide (value ∈ values) := by
  rw [Bool.eq_iff_iff, List.any_eq_true, decide_eq_true_iff]
  constructor
  · rintro ⟨item, member, passed⟩
    rw [recognizes item member, decide_eq_true_iff] at passed
    exact passed ▸ member
  · intro member
    exact ⟨value, member, by simp [recognizes value member]⟩

theorem isIn_rendered (renders : Renders parsers value rendered) {values : List Value}
    (exact : values.all parsers.exactScalar) :
    rendered.isIn engine (.list (values.map toCel)) = some (decide (value ∈ values)) := by
  have each : (values.map toCel).any (fun item => item.equals engine rendered) =
      decide (value ∈ values) := by
    rw [List.any_map]
    exact any_eq_decide_mem fun item member =>
      (equals_rendered renders (List.all_eq_true.mp exact item member)).2
  cases rendered <;> simp only [CelValue.isIn, each]

theorem any_equals_exactScalar (values : List Value) (exact : parsers.exactScalar literal) :
    ((toCelItems values).any fun item => item.equals engine (toCel literal)) =
      decide (literal ∈ values) := by
  rw [toCelItems_eq_map, List.any_map]
  exact any_eq_decide_mem fun item _ => (equals_exactScalar item exact).1

theorem contains_described (renders : Renders parsers value rendered)
    (exact : parsers.exactScalar literal) :
    (compareJson value .contains literal).Describes (rendered.contains engine (toCel literal)) ∧
      (compareJson value .contains literal).Describes ((toCel literal).isIn engine rendered) := by
  rcases renders with rfl | ⟨text, instant, rfl, parsed, rfl⟩
  · cases value with
    | array values =>
      have same := @any_equals_exactScalar engine parsers literal values exact
      simp only [toCel, CelValue.contains, CelValue.isIn, compareJson, same]
      exact ⟨Truth.describes_ofBool _, Truth.describes_ofBool _⟩
    | string text =>
      cases literal <;> simp_all [TextParsers.exactScalar, compareJson, toCel,
        CelValue.contains, CelValue.isIn]
    | null | bool _ | number _ | object _ => simp [compareJson]
  · -- an instant contains nothing
    cases literal <;> simp_all [TextParsers.exactScalar, CelValue.contains, CelValue.isIn]

theorem compares_swap (left right : Double) :
    right.compares left = (left.compares right).map Ordering.swap := by
  cases left with
  | finite left =>
    cases right with
    | finite right => exact congrArg some Std.OrientedCmp.eq_swap
    | infinite negative => cases negative <;> rfl
    | nan => rfl
  | infinite first =>
    cases right with
    | finite _ => cases first <;> rfl
    | infinite second => cases first <;> cases second <;> rfl
    | nan => rfl
  | nan => cases right <;> rfl

variable {accepts : Ordering → Bool}

theorem orders_of_numeric {first second : Double}
    (left : rendered.numeric = some first) (right : denoted.numeric = some second) :
    rendered.orders engine accepts denoted = some ((first.compares second).any accepts) := by
  cases rendered <;> cases denoted <;> simp_all [CelValue.numeric, CelValue.orders]

/-- The literal operand of an ordering: a text, or a number up to its representation. -/
inductive Ordered : Value → CelValue → Prop where
  | text (text : String) : Ordered (.string text) (.string text)
  | number {number : Number} {denoted : CelValue}
      (numeric : denoted.numeric = some (.finite number.exactValue)) :
      Ordered (.number number) denoted

variable {operator : CandidateComparisonOperator}

theorem compareJson_ordering (ordering : operator.accepts = some accepts) (left right : Value) :
    compareJson left operator right =
      match left, right with
      | .string left, .string right => .ofBool (accepts (compare left right))
      | .number left, .number right => .ofBool (accepts (compare left.asF64 right.asF64))
      | _, _ => .unknown := by
  cases operator <;> cases ordering <;> cases left <;> cases right <;> rfl

/-- Both ways to order a fact and a literal are described, if numbers are ordered alike
as doubles and by their values. -/
theorem orders_described
    (ordering : operator.accepts = some accepts) (renders : Renders parsers value rendered)
    (denotes : Ordered literal denoted)
    (exact : ∀ left right, value = .number left → literal = .number right →
      accepts (compare left.asF64 right.asF64) =
        accepts (compare left.exactValue right.exactValue)) :
    (compareJson value operator literal).Describes (rendered.orders engine accepts denoted) ∧
      (compareJson value operator literal).Describes
        (denoted.orders engine (fun order => accepts order.swap) rendered) := by
  rw [compareJson_ordering ordering]
  cases denotes with
  | text right =>
    cases value with
    | string left =>
      rcases renders with rfl | ⟨_, instant, _, _, rfl⟩
      · simp only [toCel, CelValue.orders, ← Std.OrientedCmp.eq_swap]
        exact ⟨Truth.describes_ofBool _, Truth.describes_ofBool _⟩
      · -- an instant is not ordered with a text
        exact ⟨Truth.describes_none, Truth.describes_none⟩
    | null | bool _ | number _ | array _ | object _ => simp
  | @number right _ numeric =>
    cases value with
    | number left =>
      rcases renders with rfl | ⟨_, _, impossible, _, _⟩
      · rw [orders_of_numeric (numeric_toCel left) numeric,
          orders_of_numeric numeric (numeric_toCel left),
          compares_swap (.finite left.exactValue)]
        simp only [Double.compares, Option.any_some, Option.map_some, Ordering.swap_swap,
          exact left right rfl rfl]
        exact ⟨Truth.describes_ofBool _, Truth.describes_ofBool _⟩
      · cases impossible
    | null | bool _ | string _ | array _ | object _ => simp

theorem exactScalar_of_exactJson
    (scalar : operator = .equal ∨ operator = .notEqual ∨ operator = .contains)
    (exact : comparisonPruning parsers operator literal = .exactJson) :
    parsers.exactScalar literal := by
  unfold comparisonPruning at exact
  rcases scalar with rfl | rfl | rfl <;> grind

theorem exactItems_of_exactJson (exact : comparisonPruning parsers .in_ literal = .exactJson) :
    ∃ values, literal = .array values ∧ values.all parsers.exactScalar := by
  unfold comparisonPruning at exact
  cases literal <;> simp_all [CandidateComparisonOperator.isEquality,
    CandidateComparisonOperator.accepts, Value.asStr, Value.asArray]

theorem ordered_of_exactJson (ordering : operator.accepts = some accepts)
    (exact : comparisonPruning parsers operator literal = .exactJson) :
    (∃ text, literal = .string text ∧ parsers.exactScalar literal) ∨
      ∃ number, literal = .number number := by
  unfold comparisonPruning at exact
  cases operator <;> cases ordering <;> cases literal <;>
    simp_all [Value.asStr, TextParsers.exactScalar, CandidateComparisonOperator.accepts] <;> grind

/-- The value of a literal in the condition: an exact scalar or a list of them as it
is, and a number up to its representation. -/
structure Denotes (parsers : TextParsers) (literal : Value) (denoted : CelValue) : Prop where
  scalar : parsers.exactScalar literal → denoted = toCel literal
  items : ∀ values, literal = .array values → values.all parsers.exactScalar →
    denoted = .list (values.map toCel)
  numeric : ∀ number, literal = .number number → denoted.numeric = some (.finite number.exactValue)

/-- A literal that prunes exactly denotes the value that the expression has. -/
theorem exists_denotes {operator : CandidateComparisonOperator} {expression : Expr}
    {resolve : String → Option CelValue} (found : literalJson expression = some literal)
    (exact : comparisonPruning parsers operator literal = .exactJson) :
    ∃ denoted, eval engine resolve expression = some denoted ∧ Denotes parsers literal denoted := by
  have scalar : parsers.exactScalar literal → ∃ denoted,
      eval engine resolve expression = some denoted ∧ Denotes parsers literal denoted := by
    intro plain
    refine ⟨_, eval_exactScalar found plain, fun _ => rfl, ?_, ?_⟩
    · rintro values rfl
      simp [TextParsers.exactScalar] at plain
    · rintro number rfl
      simp [TextParsers.exactScalar] at plain
  have ordering : ∀ accepts, operator.accepts = some accepts → ∃ denoted,
      eval engine resolve expression = some denoted ∧ Denotes parsers literal denoted := by
    intro accepts isOrdering
    rcases ordered_of_exactJson isOrdering exact with ⟨text, _, plain⟩ | ⟨number, rfl⟩
    · exact scalar plain
    · obtain ⟨denoted, value, numeric⟩ := @eval_number engine resolve _ _ found
      refine ⟨denoted, value, fun plain => ?_, fun values impossible => ?_, ?_⟩
      · simp [TextParsers.exactScalar] at plain
      · cases impossible
      · intro other same
        cases same
        exact numeric
  cases operator with
  | equal => exact scalar (exactScalar_of_exactJson (.inl rfl) exact)
  | notEqual => exact scalar (exactScalar_of_exactJson (.inr (.inl rfl)) exact)
  | contains => exact scalar (exactScalar_of_exactJson (.inr (.inr rfl)) exact)
  | lessThan | lessThanOrEqual | greaterThan | greaterThanOrEqual => exact ordering _ rfl
  | in_ =>
    obtain ⟨values, rfl, plain⟩ := exactItems_of_exactJson exact
    refine ⟨_, eval_exactItems found plain, fun impossible => ?_, fun others same _ => ?_, ?_⟩
    · simp [TextParsers.exactScalar] at impossible
    · cases same
      rfl
    · intro number impossible
      cases impossible

variable {comparison : CandidateComparisonOperator}

theorem applyFunction_isBool {operator : String} {reversed : Bool}
    (known : comparisonOperator operator reversed = some comparison)
    (left right : Option CelValue) :
    ∃ outcome : Option Bool, applyFunction engine operator none [left, right] =
      outcome.map .bool := by
  unfold comparisonOperator at known
  split at known <;> cases known <;> rcases left with _ | left <;> rcases right with _ | right
  all_goals first | exact ⟨none, rfl⟩ | exact ⟨some _, rfl⟩ | exact ⟨_, rfl⟩

/-- The operands of a comparison in the order they are written. -/
def inOrder {α : Type} (reversed : Bool) (field literal : α) : List α :=
  if reversed then [literal, field] else [field, literal]

/-- A comparison operator between a fact and a literal is described by the comparison
it was lowered to. -/
theorem applyFunction_described {operator : String} {reversed : Bool}
    (known : comparisonOperator operator reversed = some comparison)
    (renders : Renders parsers value rendered)
    (denotes : Denotes parsers literal denoted)
    (exact : comparisonPruning parsers comparison literal = .exactJson)
    (ordered : ∀ accepts, comparison.accepts = some accepts →
      ∀ left right, value = .number left → literal = .number right →
        accepts (compare left.asF64 right.asF64) =
          accepts (compare left.exactValue right.exactValue)) :
    ∃ outcome : Option Bool,
      applyFunction engine operator none (inOrder reversed (some rendered) (some denoted)) =
        outcome.map .bool ∧
      (compareJson value comparison literal).Describes outcome := by
  have orders : ∀ accepts, comparison.accepts = some accepts →
      (compareJson value comparison literal).Describes (rendered.orders engine accepts denoted) ∧
      (compareJson value comparison literal).Describes
        (denoted.orders engine (fun order => accepts order.swap) rendered) := by
    intro accepts ordering
    refine orders_described ordering renders ?_ (ordered accepts ordering)
    rcases ordered_of_exactJson ordering exact with ⟨text, rfl, plain⟩ | ⟨number, rfl⟩
    · rw [denotes.scalar plain]
      exact .text text
    · exact .number (denotes.numeric number rfl)
  unfold comparisonOperator at known
  split at known
  next =>
    cases known
    have plain := exactScalar_of_exactJson (.inl rfl) exact
    obtain ⟨straight, turned⟩ := @equals_rendered engine _ _ _ _ renders plain
    rw [denotes.scalar plain]
    cases reversed
    · exact ⟨some _, rfl, by rw [straight]; exact Truth.describes_ofBool _⟩
    · refine ⟨some _, rfl, ?_⟩
      rw [turned, decide_eq_decide.mpr eq_comm]
      exact Truth.describes_ofBool _
  next =>
    cases known
    have plain := exactScalar_of_exactJson (.inr (.inl rfl)) exact
    obtain ⟨straight, turned⟩ := @equals_rendered engine _ _ _ _ renders plain
    rw [denotes.scalar plain]
    have answer : (compareJson value .notEqual literal).Describes
        (some !decide (value = literal)) := by
      simp only [compareJson, ne_eq, decide_not]
      exact Truth.describes_ofBool _
    cases reversed
    · exact ⟨some _, rfl, by rw [straight]; exact answer⟩
    · refine ⟨some _, rfl, ?_⟩
      rw [turned, decide_eq_decide.mpr eq_comm]
      exact answer
  case h_3 | h_5 | h_7 | h_9 =>
    cases known
    exact ⟨_, rfl, (orders _ rfl).1⟩
  case h_4 | h_6 | h_8 | h_10 =>
    cases known
    exact ⟨_, rfl, by simpa using (orders _ rfl).2⟩
  case h_11 =>
    cases known
    obtain ⟨values, rfl, plain⟩ := exactItems_of_exactJson exact
    rw [denotes.items values rfl plain]
    refine ⟨rendered.isIn engine (.list (values.map toCel)), rfl, ?_⟩
    rw [isIn_rendered renders plain]
    exact Truth.describes_ofBool _
  case h_12 =>
    cases known
    have plain := exactScalar_of_exactJson (.inr (.inr rfl)) exact
    rw [denotes.scalar plain]
    exact ⟨_, rfl, (contains_described renders plain).2⟩
  case h_13 => cases known

end Operators

theorem trimEnd_eq_self_iff (mark : Char) (text : String) :
    trimEnd mark text = text ↔ ∀ nonempty : text.toList ≠ [],
      text.toList.getLast nonempty ≠ mark := by
  rw [← String.toList_inj, trimEnd, String.toList_ofList]
  exact List.rdropWhile_eq_self_iff.trans (by simp)

theorem trimEnd_trimmed (mark : Char) (text : String) :
    trimEnd mark (trimEnd mark text) = trimEnd mark text ∧
      trimEnd mark (trimStart mark (trimEnd mark text)) = trimStart mark (trimEnd mark text) := by
  have last : ∀ nonempty : (trimEnd mark text).toList ≠ [],
      (trimEnd mark text).toList.getLast nonempty ≠ mark := by
    intro nonempty
    simp only [trimEnd, String.toList_ofList] at nonempty ⊢
    simpa [List.rdropWhile] using
      List.rdropWhile_last_not (fun letter => decide (letter = mark)) _ nonempty
  refine ⟨(trimEnd_eq_self_iff mark _).mpr last, (trimEnd_eq_self_iff mark _).mpr ?_⟩
  intro nonempty
  have rest : (trimStart mark (trimEnd mark text)).toList <:+ (trimEnd mark text).toList := by
    rw [trimStart, String.toList_ofList]
    exact List.dropWhile_suffix _
  rw [rest.getLast nonempty]
  exact last _

theorem recordFolder_relative {path : String} (relative : ¬['/'] <+: path.toList) :
    ¬['/'] <+: (recordFolder path).toList := by
  have start : (recordFolder path).toList <+: path.toList := by
    rw [recordFolder, String.toList_ofList, ← List.reverse_suffix, List.reverse_reverse]
    exact (List.drop_suffix ..).trans (List.dropWhile_suffix _)
  exact fun leading => relative (leading.trans start)

theorem any_stripped (front text : String) (mark : Char) :
    ((stripped front text).any fun suffix => [mark].isPrefixOf suffix.toList) =
      (front.toList ++ [mark]).isPrefixOf text.toList := by
  rw [Bool.eq_iff_iff, List.isPrefixOf_iff_prefix, stripped]
  split
  next starts =>
    obtain ⟨rest, split⟩ := List.isPrefixOf_iff_prefix.mp starts
    rw [← split]
    simp [List.prefix_append_right_inj]
  rename_i other
  simp only [Option.any_none, Bool.false_eq_true, false_iff]
  intro starts
  exact other (List.isPrefixOf_iff_prefix.mpr ((List.prefix_append ..).trans starts))

theorem pathIsInFolder_of_trimmed {path folder : String} (trimmed : trimEnd '/' folder = folder)
    (relative : ¬['/'] <+: path.toList) :
    pathIsInFolder path folder = (recordFolder path = folder ||
      (folder.toList ++ ['/']).isPrefixOf (recordFolder path).toList) := by
  simp only [pathIsInFolder, trimmed, any_stripped]
  by_cases root : folder = ""
  · have missing : (['/'].isPrefixOf (recordFolder path).toList) = false := by
      rw [← Bool.not_eq_true, List.isPrefixOf_iff_prefix]
      exact recordFolder_relative relative
    simp [root, missing]
  · simp [root]

theorem pathIsInFolder_of_leading {path folder : String} (trimmed : trimEnd '/' folder = folder)
    (relative : ¬['/'] <+: path.toList) (leading : ['/'] <+: folder.toList) :
    pathIsInFolder path folder = false := by
  have free := recordFolder_relative relative
  rw [pathIsInFolder_of_trimmed trimmed relative, Bool.or_eq_false_iff, decide_eq_false_iff_not,
    ← Bool.not_eq_true, List.isPrefixOf_iff_prefix]
  exact ⟨fun same => free (same ▸ leading),
    fun inside => free ((leading.trans (List.prefix_append ..)).trans inside)⟩

/-- The host function asks whether the record lies in the folder without separators
on either side. -/
theorem inFolder_fileValue (context : FilterContext) (record : RecordDocument) (folder : String) :
    inFolder (Catalog.fileValue context record) folder =
      pathIsInFolder record.path (trimStart '/' (trimEnd '/' folder)) := by
  have actual : memberText (Catalog.fileValue context record) "folder" =
      some (recordFolder record.path) := rfl
  rw [pathIsInFolder_of_trimmed (trimEnd_trimmed '/' folder).2 record.relative, inFolder, actual]
  simp

variable {catalog : Catalog} {context : FilterContext} {record : RecordDocument}

/-- A lowered comparison of a field with a literal reads them as written. -/
def pairAsWritten (projection : SemanticProjection) (expression : Expr)
    (comparison : CandidateComparison) : Prop :=
  comparison.pruning = .exactJson →
    readAsWritten projection expression ∧ orderedAsWritten projection comparison

/-- A lowered comparison stays open, or it compares the value of the literal with the
fact that the condition reads from the field. -/
theorem evaluatePredicate_compare (complete : (catalog.projectRecord record).semanticComplete)
    {expression literal : Expr} {field : CandidateField} {value : Value}
    (lowered : fieldAndLiteral expression literal = some (field, value))
    (operator : CandidateComparisonOperator)
    (asWritten : pairAsWritten (catalog.projectRecord record) expression
      (catalog.parsers.comparison field operator value)) :
    evaluatePredicate (catalog.projectRecord record)
        (.compare (catalog.parsers.comparison field operator value)) = .unknown ∨
      ∃ fact rendered denoted,
        catalog.evaluate context record expression = some rendered ∧
        catalog.evaluate context record literal = some denoted ∧
        Renders catalog.parsers fact rendered ∧ Denotes catalog.parsers value denoted ∧
        comparisonPruning catalog.parsers operator value = .exactJson ∧
        (∀ accepts, operator.accepts = some accepts → ∀ left right, fact = .number left →
          value = .number right → accepts (compare left.asF64 right.asF64) =
            accepts (compare left.exactValue right.exactValue)) ∧
        evaluatePredicate (catalog.projectRecord record)
          (.compare (catalog.parsers.comparison field operator value)) =
            compareJson fact operator value := by
  obtain ⟨field, fieldLowered, rest⟩ := Option.bind_eq_some_iff.mp lowered
  obtain ⟨value, literalFound, pair⟩ := Option.map_eq_some_iff.mp rest
  obtain ⟨rfl, rfl⟩ := Prod.mk.inj pair
  by_cases exact : comparisonPruning catalog.parsers operator value = .exactJson
  · obtain ⟨read, ordered⟩ := asWritten exact
    cases present : projectionValue (catalog.projectRecord record) field with
    | none =>
      left
      simp [evaluatePredicate, TextParsers.comparison, present]
    | some fact =>
      right
      have plain : plainPath expression := by
        simpa [readAsWritten, fieldLowered, present] using read
      obtain ⟨rendered, readField, renders⟩ :=
        @eval_lowerField catalog context record complete expression plain _ fieldLowered _ present
      obtain ⟨denoted, readLiteral, denotes⟩ :=
        @exists_denotes catalog.engine catalog.parsers value operator literal
          (catalog.resolve context record) literalFound exact
      refine ⟨fact, rendered, denoted, readField, readLiteral, renders, denotes, exact, ?_, ?_⟩
      · intro accepts ordering left right isLeft isRight
        subst isLeft isRight
        simpa [orderedAsWritten, TextParsers.comparison, ordering, present] using ordered
      · simp [evaluatePredicate, TextParsers.comparison, exact, present]
  · left
    simp [evaluatePredicate, TextParsers.comparison, exact]

theorem evaluate_call (operator : String) (reversed : Bool) (field literal : Expr) :
    catalog.evaluate context record (.call operator none (inOrder reversed field literal)) =
      applyFunction catalog.engine operator none
        (inOrder reversed (catalog.evaluate context record field)
          (catalog.evaluate context record literal)) := by
  cases reversed <;> simp [Catalog.evaluate, inOrder, eval, evalTarget, evalAll]

variable {field : CandidateField}

theorem comparison_described (complete : (catalog.projectRecord record).semanticComplete)
    {operator : String} {reversed : Bool} {comparison : CandidateComparisonOperator}
    (known : comparisonOperator operator reversed = some comparison)
    {expression literal : Expr} {value : Value}
    (lowered : fieldAndLiteral expression literal = some (field, value))
    (asWritten : pairAsWritten (catalog.projectRecord record) expression
      (catalog.parsers.comparison field comparison value)) :
    ∃ outcome : Option Bool,
      catalog.evaluate context record
        (.call operator none (inOrder reversed expression literal)) = outcome.map .bool ∧
      (evaluatePredicate (catalog.projectRecord record)
        (.compare (catalog.parsers.comparison field comparison value))).Describes outcome := by
  rw [evaluate_call]
  rcases @evaluatePredicate_compare catalog context record complete _ _ _ _ lowered comparison
    asWritten with unknown | ⟨fact, rendered, denoted, readField, readLiteral, renders, denotes,
      exact, ordered, answer⟩
  · rw [unknown]
    have isBool : ∃ outcome : Option Bool, applyFunction catalog.engine operator none
        (inOrder reversed (catalog.evaluate context record expression)
          (catalog.evaluate context record literal)) = outcome.map .bool := by
      cases reversed <;> exact applyFunction_isBool known _ _
    obtain ⟨outcome, value⟩ := isBool
    exact ⟨outcome, value, Truth.describes_unknown⟩
  · rw [readField, readLiteral, answer]
    exact applyFunction_described known renders denotes exact ordered

variable {receiver argument : Expr}

theorem contains_call_described (complete : (catalog.projectRecord record).semanticComplete)
    {value : Value}
    (lowered : fieldAndLiteral receiver argument = some (field, value))
    (asWritten : pairAsWritten (catalog.projectRecord record) receiver
      (catalog.parsers.comparison field .contains value)) :
    ∃ outcome : Option Bool,
      catalog.evaluate context record (.call "contains" (some receiver) [argument]) =
        outcome.map .bool ∧
      (evaluatePredicate (catalog.projectRecord record)
        (.compare (catalog.parsers.comparison field .contains value))).Describes outcome := by
  have call : catalog.evaluate context record (.call "contains" (some receiver) [argument]) =
      applyFunction catalog.engine "contains" (some (catalog.evaluate context record receiver))
        [catalog.evaluate context record argument] := by
    simp [Catalog.evaluate, eval, evalTarget, evalAll]
  rw [call]
  rcases @evaluatePredicate_compare catalog context record complete _ _ _ _ lowered .contains
    asWritten with unknown | ⟨fact, rendered, denoted, readField, readLiteral, renders, denotes,
      exact, _, answer⟩
  · rw [unknown]
    cases catalog.evaluate context record receiver with
    | none => exact ⟨none, rfl, Truth.describes_unknown⟩
    | some container =>
      cases catalog.evaluate context record argument with
      | none => exact ⟨none, rfl, Truth.describes_unknown⟩
      | some element => exact ⟨_, rfl, Truth.describes_unknown⟩
  · have plain := exactScalar_of_exactJson (.inr (.inr rfl)) exact
    rw [readField, readLiteral, answer, denotes.scalar plain]
    exact ⟨_, rfl, (contains_described renders plain).1⟩

theorem ident_of_expressionPath {expression : Expr} {name : String}
    (found : expressionPath expression = some name) (plain : '.' ∉ name.toList) :
    expression = .ident name := by
  have longer : ∀ parent field, (expressionPath parent).map (· ++ "." ++ field) ≠ some name := by
    intro parent field joined
    obtain ⟨path, _, rfl⟩ := Option.map_eq_some_iff.mp joined
    simp at plain
  unfold expressionPath at found
  split at found
  · cases found
    rfl
  · exact absurd found (longer _ _)
  · exact absurd found (longer _ _)
  · cases found

theorem eval_string {engine : Engine} {resolve : String → Option CelValue} {expression : Expr}
    {text : String} (literal : literalJson expression = some (.string text)) :
    eval engine resolve expression = some (.string text) := by
  unfold literalJson at literal
  split at literal
  case h_6 =>
    cases literal
    simp [eval, literalValue]
  case h_7 =>
    split at literal
    · obtain ⟨items, _, impossible⟩ := Option.map_eq_some_iff.mp literal
      cases impossible
    · cases literal
  all_goals cases literal

/-- The lowered folder test describes the call it stands for. -/
theorem inFolder_described {predicate : CandidatePredicate}
    (lowered : lowerInFolder receiver argument = some predicate)
    (asWritten : folderAsWritten (catalog.projectRecord record) argument) :
    ∃ outcome : Option Bool,
      catalog.evaluate context record (.call "inFolder" (some receiver) [argument]) =
        outcome.map .bool ∧
      (evaluatePredicate (catalog.projectRecord record) predicate).Describes outcome := by
  unfold lowerInFolder at lowered
  split at lowered
  next file =>
    split at lowered
    next folder found =>
      cases lowered
      have receives : receiver = .ident "file" := ident_of_expressionPath file (by decide)
      have value : catalog.evaluate context record (.call "inFolder" (some receiver) [argument]) =
          some (.bool (inFolder (Catalog.fileValue context record) folder)) := by
        rw [receives]
        simp [Catalog.evaluate, eval, evalTarget, evalAll, eval_string found, applyFunction,
          Catalog.resolve]
      refine ⟨some (inFolder (Catalog.fileValue context record) folder), value, ?_⟩
      have trimmed := (trimEnd_trimmed '/' folder).1
      have agrees : pathIsInFolder record.path (trimEnd '/' folder) =
          inFolder (Catalog.fileValue context record) folder := by
        rw [inFolder_fileValue]
        by_cases leading : ['/'] <+: (trimEnd '/' folder).toList
        · rw [pathIsInFolder_of_leading trimmed record.relative leading]
          have outside : pathIsInFolder record.path (trimStart '/' (trimEnd '/' folder)) =
              false := by
            simpa [folderAsWritten, found, List.isPrefixOf_iff_prefix.mpr leading,
              Catalog.projectRecord] using asWritten
          rw [outside]
        · have unchanged : trimStart '/' (trimEnd '/' folder) = trimEnd '/' folder := by
            rw [← String.toList_inj]
            simp only [trimStart, String.toList_ofList]
            cases shape : (trimEnd '/' folder).toList with
            | nil => rfl
            | cons first rest =>
              rw [shape] at leading
              refine List.dropWhile_cons_of_neg ?_
              simpa [List.cons_prefix_cons, eq_comm] using leading
          rw [unchanged]
      rw [evaluatePredicate, ← agrees]
      exact Truth.describes_ofBool _
    next => cases lowered
  next => cases lowered

variable {projection : SemanticProjection} {comparison : CandidateComparison}

theorem pairAsWritten_left {left right : Expr}
    (asWritten : comparedAsWritten projection left right comparison) :
    pairAsWritten projection left comparison ∧ pairAsWritten projection right comparison := by
  unfold comparedAsWritten at asWritten
  simp only [Bool.or_eq_true, decide_eq_true_eq, Bool.and_eq_true] at asWritten
  constructor <;> intro exact <;>
    obtain ⟨⟨readLeft, readRight⟩, ordered⟩ := asWritten.resolve_left (not_not.mpr exact)
  · exact ⟨readLeft, ordered⟩
  · exact ⟨readRight, ordered⟩

theorem lowerComparison_described (complete : (catalog.projectRecord record).semanticComplete)
    {operator : String} {left right : Expr}
    (lowered : lowerComparison catalog.parsers operator left right = some comparison)
    (asWritten : comparedAsWritten (catalog.projectRecord record) left right comparison) :
    ∃ outcome : Option Bool,
      catalog.evaluate context record (.call operator none [left, right]) = outcome.map .bool ∧
      (evaluatePredicate (catalog.projectRecord record) (.compare comparison)).Describes
        outcome := by
  obtain ⟨leftWritten, rightWritten⟩ := pairAsWritten_left asWritten
  unfold lowerComparison at lowered
  split at lowered
  next field value found =>
    obtain ⟨meant, known, rfl⟩ := Option.map_eq_some_iff.mp lowered
    exact comparison_described complete known found leftWritten
  obtain ⟨⟨field, value⟩, found, rest⟩ := Option.bind_eq_some_iff.mp lowered
  obtain ⟨meant, known, rfl⟩ := Option.map_eq_some_iff.mp rest
  exact comparison_described complete known found rightWritten

/-- A lowered predicate describes the outcome of its condition, which is a boolean or
missing; when it leaves out terms, it still excludes no outcome that is met. -/
structure Sound (projection : SemanticProjection) (lowered : LoweredPredicate)
    (result : Option CelValue) : Prop where
  isBool : ∃ outcome : Option Bool, result = outcome.map .bool
  excludes : (evaluatePredicate projection lowered.predicate).Excludes (CelValue.asBool result)
  describes : lowered.complete →
    (evaluatePredicate projection lowered.predicate).Describes (CelValue.asBool result)

@[simp] theorem asBool_map_bool (outcome : Option Bool) :
    CelValue.asBool (outcome.map .bool) = outcome := by
  cases outcome <;> rfl

theorem Sound.of_described {projection : SemanticProjection} {predicate : CandidatePredicate}
    {result : Option CelValue} (described : ∃ outcome : Option Bool,
      result = outcome.map .bool ∧ (evaluatePredicate projection predicate).Describes outcome) :
    Sound projection (.whole predicate) result := by
  obtain ⟨outcome, rfl, describes⟩ := described
  exact
    { isBool := ⟨outcome, rfl⟩
      excludes := by simpa [LoweredPredicate.whole] using describes.excludes
      describes := fun _ => by simpa [LoweredPredicate.whole] using describes }

section Connectives

variable {projection : SemanticProjection} {left right : Option LoweredPredicate}
  {lowered : LoweredPredicate} {first second : Option CelValue}

/-- A conjunction is sound if its parts are, the second only where the first does not fail. -/
theorem Sound.conjoin (found : conjoin left right = some lowered)
    (leftSound : ∀ kept, left = some kept → Sound projection kept first)
    (rightSound : (∀ kept, left = some kept → evaluatePredicate projection kept.predicate ≠ .fails) →
      ∀ kept, right = some kept → Sound projection kept second) :
    Sound projection lowered
      ((absorbingAnd (CelValue.asBool first) (CelValue.asBool second)).map .bool) := by
  refine ⟨⟨_, rfl⟩, ?_, ?_⟩ <;> rw [asBool_map_bool] <;> cases left with
  | none =>
    cases right with
    | none => cases found
    | some kept =>
      cases found
      have sound := rightSound nofun kept rfl
      first
        | exact sound.excludes.and_right
        | exact fun whole => absurd whole (by simp)
  | some kept =>
    cases right with
    | none =>
      cases found
      have sound := leftSound kept rfl
      first
        | exact sound.excludes.and_left
        | exact fun whole => absurd whole (by simp)
    | some other =>
      cases found
      have sound := leftSound kept rfl
      have otherSound (undecided : evaluatePredicate projection kept.predicate ≠ .fails) :=
        rightSound (fun _ same => Option.some.inj same ▸ undecided) other rfl
      rw [evaluatePredicate, evaluatePredicates, evaluatePredicates, evaluatePredicates]
      first
        | exact sound.excludes.and fun undecided => (otherSound undecided).excludes
        | exact fun whole =>
          (sound.describes (Bool.and_elim_left whole)).and fun undecided =>
            (otherSound undecided).describes (Bool.and_elim_right whole)

theorem Sound.disjoin (found : disjoin left right = some lowered)
    (leftSound : ∀ kept, left = some kept → Sound projection kept first)
    (rightSound : (∀ kept, left = some kept → evaluatePredicate projection kept.predicate ≠ .holds) →
      ∀ kept, right = some kept → Sound projection kept second) :
    Sound projection lowered
      ((absorbingOr (CelValue.asBool first) (CelValue.asBool second)).map .bool) := by
  obtain ⟨kept, rfl, rest⟩ := Option.bind_eq_some_iff.mp found
  obtain ⟨other, rfl, joined⟩ := Option.bind_eq_some_iff.mp rest
  split at joined
  next whole =>
    cases joined
    rw [Bool.and_eq_true] at whole
    have describes := ((leftSound kept rfl).describes whole.1).or fun undecided =>
      (rightSound (fun _ same => Option.some.inj same ▸ undecided) other rfl).describes whole.2
    refine @Sound.of_described projection (.or [kept.predicate, other.predicate]) _ ⟨_, rfl, ?_⟩
    rw [evaluatePredicate, evaluatePredicates, evaluatePredicates, evaluatePredicates]
    exact describes
  next => cases joined

theorem Sound.negate (found : negate left = some lowered)
    (leftSound : ∀ kept, left = some kept → Sound projection kept first) :
    Sound projection lowered (((CelValue.asBool first).map Bool.not).map .bool) := by
  obtain ⟨kept, rfl, joined⟩ := Option.bind_eq_some_iff.mp found
  split at joined
  next whole =>
    cases joined
    refine @Sound.of_described projection (.not kept.predicate) _ ⟨_, rfl, ?_⟩
    rw [evaluatePredicate]
    exact ((leftSound kept rfl).describes whole).not
  next => cases joined

end Connectives

theorem evaluate_logical (left right : Expr) :
    catalog.evaluate context record (.call "_&&_" none [left, right]) =
        (absorbingAnd (CelValue.asBool (catalog.evaluate context record left))
          (CelValue.asBool (catalog.evaluate context record right))).map .bool ∧
      catalog.evaluate context record (.call "_||_" none [left, right]) =
        (absorbingOr (CelValue.asBool (catalog.evaluate context record left))
          (CelValue.asBool (catalog.evaluate context record right))).map .bool ∧
      catalog.evaluate context record (.call "!_" none [left]) =
        ((CelValue.asBool (catalog.evaluate context record left)).map Bool.not).map .bool := by
  simp [Catalog.evaluate, eval, evalTarget, evalAll, applyFunction]

theorem not_answers {parsers : TextParsers} {projection : SemanticProjection} {expression : Expr}
    {answer : Truth} (undecided : ∀ kept, lowerExpression parsers expression = some kept →
      evaluatePredicate projection kept.predicate ≠ answer) :
    ¬answers parsers projection expression answer = true := by
  intro decided
  obtain ⟨kept, lowered, same⟩ := (Option.any_eq_true _ _).mp decided
  exact undecided kept lowered (of_decide_eq_true same)

/-- A lowered predicate is sound for its expression. -/
theorem lowerExpression_sound (complete : (catalog.projectRecord record).semanticComplete)
    (expression : Expr) {lowered : LoweredPredicate}
    (found : lowerExpression catalog.parsers expression = some lowered)
    (written : asWritten catalog.parsers (catalog.projectRecord record) expression) :
    Sound (catalog.projectRecord record) lowered (catalog.evaluate context record expression) := by
  fun_induction lowerExpression catalog.parsers expression generalizing lowered with
  | case1 value =>
    cases found
    refine .of_described ⟨some value, by simp [Catalog.evaluate, eval, literalValue], ?_⟩
    cases value <;> constructor <;> simp [evaluatePredicate]
  | case2 left right ihLeft ihRight =>
    rw [asWritten, Bool.and_eq_true, Bool.or_eq_true] at written
    rw [(evaluate_logical left right).1]
    exact .conjoin found (fun kept first => ihLeft first written.1)
      fun undecided kept second =>
        ihRight second (written.2.resolve_left (not_answers undecided))
  | case3 left right ihLeft ihRight =>
    rw [asWritten, found, Option.isNone_some, Bool.false_or, Bool.and_eq_true,
      Bool.or_eq_true] at written
    rw [(evaluate_logical left right).2.1]
    exact .disjoin found (fun kept first => ihLeft first written.1)
      fun undecided kept second =>
        ihRight second (written.2.resolve_left (not_answers undecided))
  | case4 inner ih =>
    rw [asWritten, found, Option.isNone_some, Bool.false_or] at written
    rw [(evaluate_logical inner inner).2.2]
    exact .negate found fun kept first => ih first written
  | case5 operator left right notAnd notOr =>
    obtain ⟨comparison, pair, rfl⟩ := Option.map_eq_some_iff.mp found
    refine .of_described (lowerComparison_described complete pair ?_)
    rw [asWritten, pair, Option.all_some] at written
    · exact written
    · exact notAnd
    · exact notOr
  | case6 receiver argument =>
    obtain ⟨predicate, folder, rfl⟩ := Option.map_eq_some_iff.mp found
    refine .of_described (inFolder_described folder ?_)
    simpa [asWritten, folder] using written
  | case7 receiver argument =>
    obtain ⟨comparison, method, rfl⟩ := Option.map_eq_some_iff.mp found
    obtain ⟨⟨field, value⟩, pair, rfl⟩ := Option.map_eq_some_iff.mp method
    rw [asWritten, method, Option.all_some] at written
    exact .of_described (contains_call_described complete pair (pairAsWritten_left written).1)
  | case8 => cases found

theorem evaluatePredicates_eq_map (projection : SemanticProjection)
    (terms : List CandidatePredicate) :
    evaluatePredicates projection terms = terms.map (evaluatePredicate projection) := by
  induction terms with
  | nil => rfl
  | cons term rest ih => rw [evaluatePredicates, ih, List.map_cons]

theorem conjunction_fails_iff (projection : SemanticProjection) (terms : List CandidatePredicate) :
    evaluatePredicate projection (Catalog.conjunction terms) = .fails ↔
      ∃ term ∈ terms, evaluatePredicate projection term = .fails := by
  unfold Catalog.conjunction
  split
  · simp [evaluatePredicate]
  · simp
  · rw [evaluatePredicate, evaluatePredicates_eq_map, Truth.all_eq_fails_iff, List.mem_map]

theorem hasTypes_ne_fails {query : FilterQuery}
    (foldsAscii : ∀ left right, asciiLower left = asciiLower right →
      catalog.toLowercase left = catalog.toLowercase right)
    (some_ : ¬query.types.isEmpty) (matches_ : Catalog.typesMatch query (catalog.typesOf record)) :
    evaluatePredicate (catalog.projectRecord record)
      (.or (query.types.map fun name => .hasType (catalog.toLowercase name))) ≠ .fails := by
  rw [evaluatePredicate, evaluatePredicates_eq_map, ne_eq, Truth.any_eq_fails_iff]
  intro allFail
  rw [Catalog.typesMatch, Bool.eq_false_of_not_eq_true some_, Bool.false_or, List.any_eq_true]
    at matches_
  obtain ⟨actual, actualMember, found⟩ := matches_
  obtain ⟨wanted, wantedMember, same⟩ := List.any_eq_true.mp found
  have fails := allFail (.ofBool (catalog.toLowercase wanted ∈
      (catalog.projectRecord record).types)) (by
    rw [List.map_map, List.mem_map]
    exact ⟨wanted, wantedMember, by rw [Function.comp_apply, evaluatePredicate]⟩)
  have listed : catalog.toLowercase wanted ∈ (catalog.projectRecord record).types := by
    rw [Catalog.projectRecord, List.mem_dedup, List.mem_insertionSort, List.mem_map]
    exact ⟨actual, actualMember, (foldsAscii _ _ (by simpa using same)).symm⟩
  rw [decide_eq_true listed] at fails
  cases fails

theorem fails_of_reject {plan : CandidatePlan} {digest : CandidatePlan → String}
    {availability : ProjectionAvailability}
    (rejected : plan.candidateVerdict digest (some projection) availability = .reject) :
    evaluatePredicate projection plan.candidate = .fails ∧ plan.diagnosticTypeMatchers = false := by
  unfold CandidatePlan.candidateVerdict at rejected
  split at rejected
  · cases rejected
  · split at rejected
    · cases rejected
    · simp only at rejected
      split at rejected
      · cases rejected
      · split at rejected
        next => split at rejected <;> cases rejected
        next => cases rejected
        next fails =>
          split at rejected
          next => cases rejected
          next undiagnosed => exact ⟨fails, Bool.eq_false_iff.mpr undiagnosed⟩

/-- The condition of a query is read as it is written, as far as it is evaluated: it is not when
the filter by types rules the record out before, and nothing is rejected by it while some types
are matched by diagnostics. -/
def Catalog.readsAsWritten (catalog : Catalog) (query : FilterQuery) (record : RecordDocument) :
    Bool :=
  catalog.hasDiagnosticTypeMatchers || !Catalog.typesMatch query (catalog.typesOf record) ||
    query.whereExpression.all (asWritten catalog.parsers (catalog.projectRecord record))

/-- Candidate pruning never loses a match whose condition is read as it is written:
the record of a complete projection that the canonical filter keeps is not rejected. -/
theorem candidateVerdict_ne_reject {query : FilterQuery} {plan : CandidatePlan}
    (compiled : catalog.compileHostedQuery query = .ok plan)
    (complete : (catalog.projectRecord record).semanticComplete)
    (foldsAscii : ∀ left right, asciiLower left = asciiLower right →
      catalog.toLowercase left = catalog.toLowercase right)
    (written : catalog.readsAsWritten query record) (matched : catalog.matched query context record) :
    plan.candidateVerdict catalog.digest (some (catalog.projectRecord record)) .current ≠
      .reject := by
  have candidate : plan.candidate = catalog.candidateOf query ∧
      plan.diagnosticTypeMatchers = catalog.hasDiagnosticTypeMatchers := by
    unfold Catalog.compileHostedQuery at compiled
    split at compiled
    · cases compiled
    · cases compiled
      exact ⟨rfl, rfl⟩
  intro rejected
  obtain ⟨fails, undiagnosed⟩ := fails_of_reject rejected
  rw [Catalog.matched, Bool.and_eq_true] at matched
  obtain ⟨typed, met⟩ := matched
  rw [Catalog.readsAsWritten, ← candidate.2, undiagnosed, typed, Bool.not_true, Bool.false_or,
    Bool.false_or] at written
  revert fails
  rw [candidate.1, Catalog.candidateOf, conjunction_fails_iff]
  rintro ⟨term, member, fails⟩
  rcases List.mem_append.mp member with ofTypes | ofWhere
  · split at ofTypes
    next => cases ofTypes
    next some_ =>
      rw [List.mem_singleton] at ofTypes
      exact hasTypes_ne_fails foldsAscii some_ typed (ofTypes ▸ fails)
  · rw [Option.mem_toList] at ofWhere
    obtain ⟨lowered, found, rfl⟩ := Option.map_eq_some_iff.mp ofWhere
    obtain ⟨expression, asked, loweredFrom⟩ := Option.bind_eq_some_iff.mp found
    rw [asked, Option.all_some] at written met
    have sound := @lowerExpression_sound catalog context record complete expression _
      loweredFrom written
    obtain ⟨outcome, isBool⟩ := sound.isBool
    refine sound.excludes fails ?_
    rw [isBool] at met ⊢
    cases outcome with
    | none => cases met
    | some value => exact congrArg some met

/-- A collection without types, computed fields or declared instants. -/
def plainCatalog : Catalog where
  resourceRevision := "catalog-1"
  engineVersion := "engine-1"
  hasDiagnosticTypeMatchers := false
  determineTypes := fun _ _ => []
  effective := fun raw _ _ _ => raw
  bodyDependentComputedFields := fun _ => []
  dateTimeFields := fun _ => []
  toLowercase := asciiLower
  digest := CandidatePlan.catalogRevision
  parsers :=
    { number := fun _ => false
      instant := fun _ => none
      date := fun _ => false
      dateTime := fun _ => false }
  engine :=
    { call := fun _ _ _ => none
      other := fun _ => none
      list := fun _ _ => none
      select := fun _ _ _ => none
      bytes := List.length
      same := fun left right => left = right
      compareOther := fun _ _ => none
      serializesTrue := fun _ => false }

/-- A record in the folder `archive`. -/
def archivedRecord : RecordDocument where
  path := "archive/x.md"
  relative := by decide
  frontmatter := some []
  body := ""
  linksWellFormed := true

/-- The query `file.inFolder(folder)`. -/
def inFolderQuery (folder : String) : FilterQuery where
  types := []
  whereExpression := some (.call "inFolder" (some (.ident "file")) [.literal (.string folder)])

/-- No query by another part of the record, and no invocation context. -/
def bareContext : FilterContext where
  projections := []
  this := none
  fileFacts := []

theorem candidateVerdict_ne_reject_archive :
    ∃ plan, plainCatalog.compileHostedQuery (inFolderQuery "archive/") = .ok plan ∧
      plan.candidateVerdict plainCatalog.digest (some (plainCatalog.projectRecord archivedRecord))
        .current ≠ .reject :=
  ⟨_, rfl, @candidateVerdict_ne_reject plainCatalog bareContext archivedRecord
    (inFolderQuery "archive/") _ rfl
    (by decide) (fun _ _ same => same) (by decide +kernel) (by decide +kernel)⟩

/-- With a leading separator the same folder still matches, and the record is rejected. -/
theorem leadingSeparator_loses_match :
    ∃ plan, plainCatalog.compileHostedQuery (inFolderQuery "/archive") = .ok plan ∧
      (plainCatalog.projectRecord archivedRecord).semanticComplete ∧
      plainCatalog.matched (inFolderQuery "/archive") bareContext archivedRecord = true ∧
      plan.candidateVerdict plainCatalog.digest (some (plainCatalog.projectRecord archivedRecord))
        .current = .reject :=
  ⟨_, rfl, by decide, by decide +kernel, by decide +kernel⟩

end Mdbase.Query
