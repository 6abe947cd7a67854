import Mdbase.Library.Fallible
import Mdbase.Query.HostedReduction
import Mdbase.Query.LoadOrder

/-!
# Hosted operators and the canonical executor

The hosted reduction carries the image of the canonical table of groups: a group
with its members is represented by the number of members and by the summary
states that consumed their values. Sorting, grouping and summaries agree with the
executor wherever both sides read the same value under the name of a field. The
compiler accepts names that they read differently.
-/

namespace Mdbase.Query

open Library Mdbase.Runtime

/-- The comparison of a hosted sort: two candidates by their order values and paths. -/
def HostedQueryPlan.compareMatches (plan : HostedQueryPlan) (left right : Candidate) : Ordering :=
  plan.compareOrderValues (plan.orderValues left) left.path (plan.orderValues right) right.path

theorem lowerOrder_ok {item : OrderBy} {order : HostedOrder}
    (lowered : lowerOrder item = .ok order) :
    lowerQueryField item.field = some order.field ∧ order.direction = item.direction := by
  unfold lowerOrder at lowered
  split at lowered
  next field found =>
    cases lowered
    exact ⟨found, rfl⟩
  next => cases lowered

theorem lowerGroup_ok {item : OrderBy} {group : HostedGroup}
    (lowered : lowerGroup item = .ok group) :
    lowerQueryField item.field = some group.field ∧ group.direction = item.direction ∧
      group.outputName = item.field := by
  unfold lowerGroup at lowered
  split at lowered
  next field found =>
    cases lowered
    exact ⟨found, rfl, rfl⟩
  next => cases lowered

theorem lowerSummary_ok {functions : List String} {item : Summary} {aggregate : HostedAggregate}
    (lowered : lowerSummary functions item = .ok aggregate) :
    lowerQueryField item.field = some aggregate.field ∧ aggregate.function = item.function ∧
      aggregate.outputName = item.outputName ∧ isBuiltinSummary item.function := by
  unfold lowerSummary at lowered
  split at lowered
  next field found =>
    split at lowered
    next builtin =>
      cases lowered
      exact ⟨found, rfl, rfl, builtin.1⟩
    next => cases lowered
  next => cases lowered

theorem forall₂_of_lowered {α β : Type} {lower : α → Except CatalogError β} {items : List α}
    {lowered : List β} {stands : α → β → Prop} (all : items.mapM lower = .ok lowered)
    (each : ∀ item ∈ items, ∀ image, lower item = .ok image → stands item image) :
    List.Forall₂ stands items lowered := by
  have images := forall₂_of_mapM_ok all
  refine List.forall₂_iff_zip.mpr ⟨images.length_eq, ?_⟩
  intro item image pair
  exact each item (List.of_mem_zip pair).1 image ((List.forall₂_iff_zip.mp images).2 pair)

variable {operators : QueryOperators} {candidates : List Candidate} {plan : HostedQueryPlan}

/-- The operators of a compiled plan are the lowered ones of the query, in order. -/
structure Lowers (operators : QueryOperators) (plan : HostedQueryPlan) : Prop where
  order : List.Forall₂ (fun (item : OrderBy) (order : HostedOrder) =>
    lowerQueryField item.field = some order.field ∧ order.direction = item.direction)
    operators.orderBy plan.order
  groups : List.Forall₂ (fun (item : OrderBy) (group : HostedGroup) =>
    lowerQueryField item.field = some group.field ∧ group.direction = item.direction ∧
      group.outputName = item.field) operators.groupBy plan.groups
  aggregates : List.Forall₂ (fun (item : Summary) (aggregate : HostedAggregate) =>
    lowerQueryField item.field = some aggregate.field ∧ aggregate.function = item.function ∧
      aggregate.outputName = item.outputName ∧ isBuiltinSummary item.function)
    operators.summaries plan.aggregates
  names : (operators.summaries.map Summary.outputName).Nodup
  limit : plan.aggregates.length ≤ 32
  budgets : plan.budgets = {}

theorem nodup_of_summaryIssues {functions names : List String} {summaries : List Summary}
    (none : summaryIssues functions names summaries = []) :
    (summaries.map Summary.outputName).Nodup ∧
      ∀ item ∈ summaries, item.outputName ∉ names := by
  induction summaries generalizing names with
  | nil => simp
  | cons item rest ih =>
    simp only [summaryIssues, List.append_eq_nil_iff] at none
    obtain ⟨distinct, others⟩ := ih none.2
    have fresh : item.outputName ∉ names := by
      intro taken
      simp [taken] at none
    refine ⟨List.nodup_cons.mpr ⟨fun again => ?_, distinct⟩, List.forall_mem_cons.mpr
      ⟨fresh, fun other member taken => others other member (List.mem_cons_of_mem _ taken)⟩⟩
    obtain ⟨other, member, same⟩ := List.mem_map.mp again
    exact others other member (same ▸ List.mem_cons_self)

theorem lowers_of_compile (compiled : operators.compile = .ok plan) : Lowers operators plan := by
  unfold QueryOperators.compile at compiled
  split at compiled
  · cases compiled
  next issues =>
  split at compiled
  · cases compiled
  next limits =>
    cases orders : operators.orderBy.mapM lowerOrder with
    | error failure =>
      rw [orders] at compiled
      cases compiled
    | ok order =>
      cases grouped : operators.groupBy.mapM lowerGroup with
      | error failure =>
        rw [orders, grouped] at compiled
        cases compiled
      | ok groups =>
        cases summed : operators.summaries.mapM (lowerSummary operators.summaryFunctions) with
        | error failure =>
          rw [orders, grouped, summed] at compiled
          cases compiled
        | ok aggregates =>
          rw [orders, grouped, summed] at compiled
          cases compiled
          exact ⟨forall₂_of_lowered orders fun _ _ _ => lowerOrder_ok,
            forall₂_of_lowered grouped fun _ _ _ => lowerGroup_ok,
            forall₂_of_lowered summed fun _ _ _ => lowerSummary_ok,
            (nodup_of_summaryIssues (not_not.mp issues)).1,
            (forall₂_of_mapM_ok summed).length_eq ▸ by omega, rfl⟩

/-- What the host reads under the name of a field. -/
def hostedReading (candidate : Candidate) (field : String) : Value :=
  (lowerQueryField field).elim .null (hostedCandidateValue candidate)

/-- Clause after clause by the values that are read, then the path. -/
def compareBy (read : Candidate → String → Value) :
    (orderBy : List OrderBy) → (left right : Candidate) → Ordering
  | [], left, right => compare left.path right.path
  | order :: rest, left, right =>
    (compareValues (read left order.field) (read right order.field) order.direction).then
      (compareBy read rest left right)

theorem compareCandidates_eq_compareBy (orderBy : List OrderBy) :
    compareCandidates orderBy = compareBy candidateValue orderBy := by
  funext left right
  induction orderBy with
  | nil => rfl
  | cons order rest ih => rw [compareCandidates, compareBy, ih]

theorem Lowers.compareMatches_eq (lowers : Lowers operators plan) :
    plan.compareMatches = compareBy hostedReading operators.orderBy := by
  funext left right
  have clauses := lowers.order
  unfold HostedQueryPlan.compareMatches HostedQueryPlan.compareOrderValues
    HostedQueryPlan.orderValues
  generalize operators.orderBy = items at clauses ⊢
  generalize plan.order = orders at clauses ⊢
  induction clauses with
  | nil => rfl
  | @cons item order items orders first rest ih =>
    rw [List.map_cons, List.map_cons, compareHostedValues, Ordering.then_assoc,
      List.tail_cons, List.tail_cons, ih, compareBy, List.headD_cons, List.headD_cons,
      hostedReading, hostedReading, first.1, first.2]
    rfl

theorem forall_of_forall₂ {α β : Type} {related : α → β → Prop} {holds : α → Prop} {items : List α}
    {images : List β} (pairs : List.Forall₂ related items images)
    (each : ∀ item image, related item image → holds item) : ∀ item ∈ items, holds item := by
  induction pairs with
  | nil => exact fun _ absent => absurd absent List.not_mem_nil
  | cons first _ ih => exact List.forall_mem_cons.mpr ⟨each _ _ first, ih⟩

theorem Lowers.accepted (lowers : Lowers operators plan) :
    (∀ item ∈ operators.orderBy, (lowerQueryField item.field).isSome) ∧
      (∀ item ∈ operators.groupBy, (lowerQueryField item.field).isSome) ∧
        ∀ item ∈ operators.summaries, (lowerQueryField item.field).isSome :=
  ⟨forall_of_forall₂ lowers.order fun _ _ found => by rw [found.1]; rfl,
    forall_of_forall₂ lowers.groups fun _ _ found => by rw [found.1]; rfl,
    forall_of_forall₂ lowers.aggregates fun _ _ found => by rw [found.1]; rfl⟩

theorem Lowers.summaries_builtin (lowers : Lowers operators plan) :
    ∀ item ∈ operators.summaries, isBuiltinSummary item.function :=
  forall_of_forall₂ lowers.aggregates fun _ _ found => found.2.2.2

theorem Lowers.aggregates_builtin (lowers : Lowers operators plan) :
    ∀ aggregate ∈ plan.aggregates, isBuiltinSummary aggregate.function :=
  forall_of_forall₂ lowers.aggregates.flip fun _ _ found => found.2.1 ▸ found.2.2.2

theorem isEmpty_of_forall₂ {α β : Type} {related : α → β → Prop} {left : List α} {right : List β}
    (pairs : List.Forall₂ related left right) : right.isEmpty = left.isEmpty := by
  cases pairs <;> rfl

theorem Lowers.isEmpty (lowers : Lowers operators plan) :
    plan.groups.isEmpty = operators.groupBy.isEmpty ∧
      plan.aggregates.isEmpty = operators.summaries.isEmpty :=
  ⟨isEmpty_of_forall₂ lowers.groups, isEmpty_of_forall₂ lowers.aggregates⟩

theorem Lowers.rowValues_eq (lowers : Lowers operators plan) (candidate : Candidate) :
    plan.rowValues (plan.reductionInput candidate) =
      operators.groupBy.foldl (fun (values : Value) clause =>
        values.set clause.field (hostedReading candidate clause.field)) (.object []) := by
  have clauses := lowers.groups
  unfold HostedQueryPlan.rowValues HostedQueryPlan.reductionInput
  simp only
  generalize (Value.object []) = start
  generalize operators.groupBy = items at clauses ⊢
  generalize plan.groups = groups at clauses ⊢
  induction clauses generalizing start with
  | nil => rfl
  | @cons item group items groups first rest ih =>
    rw [List.map_cons, List.zip_cons_cons, List.foldl_cons, List.foldl_cons, ih, first.2.2,
      hostedReading, first.1, Option.elim_some]

theorem Lowers.compareHostedGroups_eq (lowers : Lowers operators plan) (left right : Value) :
    HostedQueryPlan.compareHostedGroups plan.groups left right =
      compareGroups operators.groupBy left right := by
  have clauses := lowers.groups
  generalize operators.groupBy = items at clauses ⊢
  generalize plan.groups = groups at clauses ⊢
  induction clauses with
  | nil => rfl
  | @cons item group items groups first rest ih =>
    rw [HostedQueryPlan.compareHostedGroups, compareGroups, ih, first.2.1, first.2.2]

theorem Lowers.outcomes_eq (lowers : Lowers operators plan) (doubles : Doubles)
    (members : List Candidate) :
    (plan.aggregates.map fun aggregate => (aggregate.outputName,
      builtinSummary doubles aggregate.function
        (members.map (hostedCandidateValue · aggregate.field)))) =
      operators.summaries.map fun item => (item.outputName,
        builtinSummary doubles item.function (members.map (hostedReading · item.field))) := by
  have clauses := lowers.aggregates
  generalize operators.summaries = items at clauses ⊢
  generalize plan.aggregates = aggregates at clauses ⊢
  induction clauses with
  | nil => rfl
  | @cons item aggregate items aggregates first rest ih =>
    have reads : (hostedCandidateValue · aggregate.field) = (hostedReading · item.field) := by
      funext candidate
      rw [hostedReading, first.1, Option.elim_some]
    rw [List.map_cons, List.map_cons, ih, first.2.1, first.2.2.1, reads]

namespace HostedSummaryState

variable {doubles : Doubles}

theorem foldl_push_count (values : List Value) (seen : Nat) :
    values.foldl push (.count seen : HostedSummaryState doubles) =
      .count (seen + values.length) := by
  induction values generalizing seen with
  | nil => rfl
  | cons value rest ih => rw [List.foldl_cons, push, ih, List.length_cons, Nat.add_assoc,
      Nat.add_comm 1]

theorem foldl_push_empty (values : List Value) (total blank : Nat) :
    values.foldl push (.empty total blank : HostedSummaryState doubles) =
      .empty (total + values.length) (blank + values.countP isEmptyValue) := by
  induction values generalizing total blank with
  | nil => rfl
  | cons value rest ih =>
    rw [List.foldl_cons, push, ih, List.length_cons, List.countP_cons, Nat.add_assoc,
      Nat.add_comm 1]
    split <;> simp only [HostedSummaryState.empty.injEq, true_and] <;> omega

variable {values : List Value}

theorem foldl_push_number {numbers : List doubles.Double}
    (numeric : (values.filter (· ≠ .null)).mapM doubles.asDouble = some numbers) (seen : Nat)
    (sum minimum maximum : doubles.Double) (invalid : Bool) :
    values.foldl push (.number seen sum minimum maximum invalid) =
      .number (seen + numbers.length) (numbers.foldl doubles.add sum)
        (numbers.foldl doubles.min minimum) (numbers.foldl doubles.max maximum) invalid := by
  induction values generalizing numbers seen sum minimum maximum with
  | nil =>
    cases numeric
    rfl
  | cons value rest ih =>
    rw [List.foldl_cons, push]
    by_cases blank : value = .null
    · rw [if_pos blank]
      rw [List.filter_cons_of_neg (by simpa using blank)] at numeric
      exact ih numeric ..
    · rw [if_neg blank]
      rw [List.filter_cons_of_pos (by simpa using blank), List.mapM_cons] at numeric
      obtain ⟨double, found, numeric⟩ := Option.bind_eq_some_iff.mp numeric
      obtain ⟨others, more, same⟩ := Option.bind_eq_some_iff.mp numeric
      cases same
      rw [found]
      simp only
      rw [ih more, List.length_cons, Nat.add_assoc, Nat.add_comm 1]
      rfl

/-- If values with a readable one in front cannot all be read, the others cannot. -/
theorem mapM_eq_none_of_cons {β : Type} {read : Value → Option β} {value : Value} {found : β}
    {rest : List Value} (here : read value = some found)
    (absent : (value :: rest).mapM read = none) : rest.mapM read = none := by
  rw [List.mapM_cons, here] at absent
  cases others : rest.mapM read with
  | none => rfl
  | some found =>
    rw [others] at absent
    cases absent

theorem finish_of_not_number (function : String) (seen : Nat)
    (sum minimum maximum : doubles.Double) (invalid : Bool)
    (other : invalid = true ∨ (values.filter (· ≠ .null)).mapM doubles.asDouble = none) :
    (values.foldl push (.number seen sum minimum maximum invalid)).finish function =
      .error (nonNumericMessage function) := by
  induction values generalizing seen sum minimum maximum invalid with
  | nil =>
    rcases other with rfl | impossible
    · rfl
    · cases impossible
  | cons value rest ih =>
    rw [List.foldl_cons, push]
    by_cases blank : value = .null
    · rw [if_pos blank]
      rw [List.filter_cons_of_neg (by simpa using blank)] at other
      exact ih _ _ _ _ _ other
    · rw [if_neg blank]
      rw [List.filter_cons_of_pos (by simpa using blank)] at other
      cases found : doubles.asDouble value with
      | none => exact ih _ _ _ _ _ (.inl rfl)
      | some double => exact ih _ _ _ _ _ (other.imp_right (mapM_eq_none_of_cons found))

/-- The selected text after more texts. -/
def select (latest : Bool) (selected : Option String) (texts : List String) : Option String :=
  texts.foldl (fun selected text => if replaces latest selected text then some text else selected)
    selected

theorem foldl_push_string {texts : List String}
    (textual : (values.filter (· ≠ .null)).mapM Value.asStr = some texts)
    (selected : Option String) (latest invalid : Bool) :
    values.foldl push (.string selected latest invalid : HostedSummaryState doubles) =
      .string (select latest selected texts) latest invalid := by
  induction values generalizing texts selected with
  | nil =>
    cases textual
    rfl
  | cons value rest ih =>
    rw [List.foldl_cons, push]
    by_cases blank : value = .null
    · rw [if_pos blank]
      rw [List.filter_cons_of_neg (by simpa using blank)] at textual
      exact ih textual ..
    · rw [if_neg blank]
      rw [List.filter_cons_of_pos (by simpa using blank), List.mapM_cons] at textual
      obtain ⟨text, found, textual⟩ := Option.bind_eq_some_iff.mp textual
      obtain ⟨others, more, same⟩ := Option.bind_eq_some_iff.mp textual
      cases same
      rw [found, select, List.foldl_cons]
      simp only
      split
      · exact ih more ..
      · exact ih more ..

theorem finish_of_not_string (function : String) (selected : Option String) (latest invalid : Bool)
    (other : invalid = true ∨ (values.filter (· ≠ .null)).mapM Value.asStr = none) :
    (values.foldl push (.string selected latest invalid : HostedSummaryState doubles)).finish
      function = .error (nonStringMessage function) := by
  induction values generalizing selected invalid with
  | nil =>
    rcases other with rfl | impossible
    · rfl
    · cases impossible
  | cons value rest ih =>
    rw [List.foldl_cons, push]
    by_cases blank : value = .null
    · rw [if_pos blank]
      rw [List.filter_cons_of_neg (by simpa using blank)] at other
      exact ih _ _ other
    · rw [if_neg blank]
      rw [List.filter_cons_of_pos (by simpa using blank)] at other
      cases found : value.asStr with
      | none => exact ih _ _ (.inl rfl)
      | some text =>
        have later := other.imp_right (mapM_eq_none_of_cons found)
        simp only
        split
        · exact ih _ _ later
        · exact ih _ _ later

theorem select_some (latest : Bool) (first : String) (rest : List String) :
    select latest (some first) rest = some (rest.foldl (if latest then max else min) first) := by
  induction rest generalizing first with
  | nil => rfl
  | cons text rest ih =>
    have step : (if replaces latest (some first) text then some text else some first) =
        some ((if latest then max else min) first text) := by
      cases latest with
      | false =>
        rcases lt_or_ge text first with below | above
        · simp [replaces, below, min_eq_right below.le]
        · simp [replaces, not_lt.mpr above, min_eq_left above]
      | true =>
        rcases lt_or_ge first text with below | above
        · simp [replaces, below, max_eq_right below.le]
        · simp [replaces, not_lt.mpr above, max_eq_left above]
    rw [select, List.foldl_cons, step]
    exact ih _

theorem select_none (latest : Bool) (texts : List String) :
    select latest none texts = if latest then texts.max? else texts.min? := by
  cases texts with
  | nil => cases latest <;> rfl
  | cons text rest =>
    rw [List.max?_cons', List.min?_cons']
    have started : select latest none (text :: rest) = select latest (some text) rest := rfl
    rw [started, select_some]
    cases latest <;> rfl

theorem isEmpty_of_mapM_none {α β : Type} {read : α → Option β} {items : List α}
    (failed : items.mapM read = none) : items.isEmpty = false := by
  cases items with
  | nil => cases failed
  | cons item rest => rfl

variable {function : String}

theorem builtinSummary_numeric
    (numeric : function ∈ ["sum", "average", "minimum", "maximum"]) (values : List Value) :
    builtinSummary doubles function values =
      if (values.filter (· ≠ .null)).isEmpty then .ok .null
      else
        match (values.filter (· ≠ .null)).mapM doubles.asDouble with
        | some numbers => .ok (doubles.toValue (doubles.combine function numbers))
        | none => .error (nonNumericMessage function) := by
  simp only [List.mem_cons, List.not_mem_nil, or_false] at numeric
  rcases numeric with rfl | rfl | rfl | rfl <;> rfl

theorem finish_numeric
    (numeric : function ∈ ["sum", "average", "minimum", "maximum"]) (values : List Value) :
    (values.foldl push (new doubles function)).finish function =
      builtinSummary doubles function values := by
  have started : new doubles function =
      .number 0 doubles.zero doubles.infinity doubles.negInfinity false := by
    simp only [List.mem_cons, List.not_mem_nil, or_false] at numeric
    rcases numeric with rfl | rfl | rfl | rfl <;> rfl
  rw [builtinSummary_numeric numeric, started]
  cases read : (values.filter (· ≠ .null)).mapM doubles.asDouble with
  | none =>
    rw [finish_of_not_number function 0 _ _ _ false (.inr read),
      isEmpty_of_mapM_none read, if_neg Bool.false_ne_true]
  | some numbers =>
    rw [foldl_push_number read, finish, if_neg Bool.false_ne_true, Nat.zero_add]
    cases filtered : values.filter (· ≠ .null) with
    | nil =>
      rw [filtered] at read
      cases read
      rfl
    | cons value rest =>
      rw [filtered, List.mapM_cons] at read
      obtain ⟨double, _, read⟩ := Option.bind_eq_some_iff.mp read
      obtain ⟨others, _, same⟩ := Option.bind_eq_some_iff.mp read
      cases same
      simp only [List.mem_cons, List.not_mem_nil, or_false] at numeric
      rcases numeric with rfl | rfl | rfl | rfl <;> rfl

theorem finish_textual (textual : function ∈ ["earliest", "latest"]) (values : List Value) :
    (values.foldl push (new doubles function)).finish function =
      builtinSummary doubles function values := by
  have started : new doubles function = .string none (function = "latest") false := by
    simp only [List.mem_cons, List.not_mem_nil, or_false] at textual
    rcases textual with rfl | rfl <;> rfl
  have other : function ≠ "count" ∧ ¬(function = "empty" ∨ function = "filled") ∧
      function ∉ ["sum", "average", "minimum", "maximum"] := by
    simp only [List.mem_cons, List.not_mem_nil, or_false] at textual
    rcases textual with rfl | rfl <;> decide
  rw [builtinSummary, if_neg other.1, if_neg other.2.1, started]
  dsimp only
  rw [if_neg other.2.2]
  cases read : (values.filter (· ≠ .null)).mapM Value.asStr with
  | none =>
    rw [finish_of_not_string function none _ false (.inr read),
      isEmpty_of_mapM_none read, if_neg Bool.false_ne_true]
  | some texts =>
    rw [foldl_push_string read, finish, if_neg Bool.false_ne_true, select_none]
    cases filtered : values.filter (· ≠ .null) with
    | nil =>
      rw [filtered] at read
      cases read
      simp
    | cons value rest =>
      simp only [List.mem_cons, List.not_mem_nil, or_false] at textual
      rcases textual with rfl | rfl <;> rfl

theorem finish_foldl_push (builtin : isBuiltinSummary function) (values : List Value) :
    (values.foldl push (new doubles function)).finish function =
      builtinSummary doubles function values := by
  simp only [isBuiltinSummary, List.mem_cons, List.not_mem_nil, or_false,
    decide_eq_true_eq] at builtin
  rcases builtin with rfl | rfl | rfl | rfl | rfl | rfl | rfl | rfl | rfl
  · have counted : new doubles "count" = .count 0 := rfl
    rw [counted, foldl_push_count, Nat.zero_add]
    rfl
  · exact finish_numeric (by decide) values
  · exact finish_numeric (by decide) values
  · exact finish_numeric (by decide) values
  · exact finish_numeric (by decide) values
  · exact finish_textual (by decide) values
  · exact finish_textual (by decide) values
  · have counted : new doubles "empty" = .empty 0 0 := rfl
    rw [counted, foldl_push_empty, Nat.zero_add, Nat.zero_add]
    rfl
  · have counted : new doubles "filled" = .empty 0 0 := rfl
    rw [counted, foldl_push_empty, Nat.zero_add, Nat.zero_add]
    rfl

end HostedSummaryState

/-- The grouping phase of the executor for the same query. -/
def QueryOperators.grouping (operators : QueryOperators) (doubles : Doubles) (text : Value → String)
    (evaluate : Summary → List Value → Except Diagnostic Value) : Grouping where
  groupBy := operators.groupBy
  summaries := operators.summaries
  doubles := doubles
  text := text
  evaluate := evaluate

namespace HostedQueryPlan

variable (plan : HostedQueryPlan) (doubles : Doubles)

/-- The states that consumed the values of some candidates. -/
def consumed (members : List Candidate) : List (HostedSummaryState doubles) :=
  plan.aggregates.map fun aggregate =>
    (members.map (hostedCandidateValue · aggregate.field)).foldl HostedSummaryState.push
      (.new doubles aggregate.function)

/-- What the hosted reduction keeps of a group. -/
def streamed (entry : GroupEntry) : HostedReductionGroupState doubles where
  key := entry.key
  values := entry.values
  count := entry.members.length
  summaries := plan.consumed doubles entry.members

theorem streamed_key (entry : GroupEntry) : (plan.streamed doubles entry).key = entry.key := rfl

/-- The streamed form of a table of groups. -/
def streamedTable (table : Table GroupEntry.key) :
    Table fun group : HostedReductionGroupState doubles => group.key :=
  table.image (plan.streamed doubles) (plan.streamed_key doubles)

theorem get?_streamedTable (table : Table GroupEntry.key) (key : String) :
    (plan.streamedTable doubles table).get? key = (table.get? key).map (plan.streamed doubles) :=
  Table.get?_image table (plan.streamed_key doubles) key

theorem streamedTable_insert (table : Table GroupEntry.key) (entry : GroupEntry) :
    plan.streamedTable doubles (table.insert entry) =
      (plan.streamedTable doubles table).insert (plan.streamed doubles entry) :=
  Table.image_insert table (plan.streamed_key doubles) entry

theorem pushRow_streamed (entry : GroupEntry) (candidate : Candidate) :
    pushRow (plan.streamed doubles entry) (plan.reductionInput candidate) =
      plan.streamed doubles { entry with members := entry.members ++ [candidate] } := by
  have states : ((plan.consumed doubles entry.members).zip
        (plan.reductionInput candidate).aggregateValues).map
        (fun pair => pair.1.push pair.2) =
      plan.consumed doubles (entry.members ++ [candidate]) := by
    rw [consumed, consumed, reductionInput, List.zip_map', List.map_map]
    apply List.map_congr_left
    intro aggregate _
    simp only [Function.comp_apply, List.map_append, List.foldl_append, List.map_cons,
      List.map_nil, List.foldl_cons, List.foldl_nil]
  simp only [pushRow, streamed, List.length_append, List.length_singleton]
  exact congrArg _ states

/-- A budget of the hosted reduction is exhausted. -/
def isBudgetError (error : CatalogError) : Bool :=
  error.code ∈ ["hosted_group_budget_exceeded", "hosted_aggregation_state_budget_exceeded"]

/-- A group that has counted no row. -/
def freshGroup (key : String) (values : Value) : HostedReductionGroupState doubles where
  key := key
  values := values
  count := 0
  summaries := plan.aggregates.map fun aggregate => .new doubles aggregate.function

/-- The group of a row, fresh when it is the first of its key. -/
def groupOf (text : Value → String) (accumulator : HostedReductionAccumulator doubles)
    (row : HostedReductionInput) : HostedReductionGroupState doubles :=
  (accumulator.groups.get? (text (plan.rowValues row))).getD
    (plan.freshGroup doubles (text (plan.rowValues row)) (plan.rowValues row))

variable {plan doubles} {text : Value → String}

/-- A row joins its group, unless a budget is exhausted. -/
theorem push_cases {accumulator : HostedReductionAccumulator doubles} {row : HostedReductionInput}
    (groupsAlign : row.groupValues.length = plan.groups.length)
    (aggregatesAlign : row.aggregateValues.length = plan.aggregates.length)
    (reduces : ¬(plan.groups.isEmpty ∧ plan.aggregates.isEmpty)) :
    (∃ next, plan.push doubles text accumulator row = .ok next ∧
      next.groups = accumulator.groups.insert
        (pushRow (plan.groupOf doubles text accumulator row) row)) ∨
    ∃ error, plan.push doubles text accumulator row = .error error ∧ isBudgetError error := by
  have aligned : ¬(row.groupValues.length ≠ plan.groups.length ∨
      row.aggregateValues.length ≠ plan.aggregates.length) := by
    simp [groupsAlign, aggregatesAlign]
  have grows : ∀ growth, (plan.ensureRetainedGrowth accumulator.retainedBytes growth = .ok ()) ∨
      ∃ error, plan.ensureRetainedGrowth accumulator.retainedBytes growth = .error error ∧
        isBudgetError error := by
    intro growth
    unfold ensureRetainedGrowth
    split
    · exact .inl rfl
    · exact .inr ⟨_, rfl, by simp [isBudgetError]⟩
  rw [push, if_neg aligned, if_neg reduces]
  simp only
  cases found : accumulator.groups.get? (text (plan.rowValues row)) with
  | none =>
    simp only
    split
    next => exact .inr ⟨_, rfl, by simp [isBudgetError]⟩
    rcases grows (saturatingAdd (groupRetainedBytes (text (plan.rowValues row))
        (plan.aggregates.map fun aggregate => HostedSummaryState.new doubles
          aggregate.function).length)
      (summaryGrowth (plan.aggregates.map fun aggregate => HostedSummaryState.new doubles
        aggregate.function) row)) with fits | ⟨error, failed, budget⟩
    · rw [fits]
      exact .inl ⟨_, rfl, by rw [groupOf, found]; rfl⟩
    · rw [failed]
      exact .inr ⟨error, rfl, budget⟩
  | some group =>
    simp only
    rcases grows (summaryGrowth group.summaries row) with fits | ⟨error, failed, budget⟩
    · rw [fits]
      exact .inl ⟨_, rfl, by rw [groupOf, found]; rfl⟩
    · rw [failed]
      exact .inr ⟨error, rfl, budget⟩

end HostedQueryPlan

theorem Grouping.collectOne_eq (grouping : Grouping) (table : Table GroupEntry.key)
    (candidate : Candidate) :
    let entry := (table.get? (grouping.keyOf candidate)).getD
      { key := grouping.keyOf candidate, values := grouping.groupValues candidate, members := [] }
    grouping.collectOne table candidate =
      table.insert { entry with members := entry.members ++ [candidate] } := by
  unfold Grouping.collectOne Grouping.keyOf
  simp only
  cases table.get? (grouping.text (grouping.groupValues candidate)) <;> rfl

/-- Report the outcome of one more summary. -/
def report (known : Value × List Diagnostic) (entry : String × Except String Value) :
    Value × List Diagnostic :=
  match entry.2 with
  | .ok value => (known.1.set entry.1 value, known.2)
  | .error message =>
    (known.1.set entry.1 .null, known.2 ++ [summaryDiagnostic entry.1 message])

/-- What the summaries of a group come to, in the order of their names. -/
def reported (outcomes : List (String × Except String Value)) : Value × List Diagnostic :=
  outcomes.foldl report (.object [], [])

theorem summarize_eq_reported (grouping : Grouping)
    (builtin : ∀ item ∈ grouping.summaries, isBuiltinSummary item.function)
    (members : List Candidate) :
    grouping.summarize members = reported (grouping.summaries.map fun item =>
      (item.outputName, builtinSummary grouping.doubles item.function
        (members.map (candidateValue · item.field)))) := by
  rw [Grouping.summarize, reported, List.foldl_map]
  refine List.foldl_ext _ _ _ fun output item member => ?_
  rw [Grouping.summaryValue, if_pos (builtin item member)]
  cases builtinSummary grouping.doubles item.function
    (members.map (candidateValue · item.field)) <;> rfl

theorem finishSummaries_eq_reported {doubles : Doubles}
    (builtin : ∀ aggregate ∈ plan.aggregates, isBuiltinSummary aggregate.function)
    (members : List Candidate) :
    plan.finishSummaries (plan.consumed doubles members) =
      reported (plan.aggregates.map fun aggregate =>
        (aggregate.outputName, builtinSummary doubles aggregate.function
          (members.map (hostedCandidateValue · aggregate.field)))) := by
  rw [HostedQueryPlan.finishSummaries, HostedQueryPlan.consumed, reported, List.foldl_map]
  have pairs : plan.aggregates.zip (plan.aggregates.map fun aggregate =>
      (members.map (hostedCandidateValue · aggregate.field)).foldl HostedSummaryState.push
        (.new doubles aggregate.function)) =
      plan.aggregates.map fun aggregate => (aggregate,
        (members.map (hostedCandidateValue · aggregate.field)).foldl HostedSummaryState.push
          (.new doubles aggregate.function)) := by
    conv_lhs => rw [← List.map_id plan.aggregates, List.map_map, List.zip_map']
    rfl
  rw [pairs, List.foldl_map]
  refine List.foldl_ext _ _ _ fun output aggregate member => ?_
  simp only [HostedSummaryState.finish_foldl_push (builtin aggregate member)]
  cases builtinSummary doubles aggregate.function
    (members.map (hostedCandidateValue · aggregate.field)) <;> rfl

/-- The operators of a query read the candidates alike, as the host and as the executor; a count
reads nothing. -/
structure ReadsAlike (operators : QueryOperators) (candidates : List Candidate) : Prop where
  order : ∀ left ∈ candidates, ∀ right ∈ candidates,
    compareBy hostedReading operators.orderBy left right =
      compareBy candidateValue operators.orderBy left right
  groups : ∀ item ∈ operators.groupBy, ∀ candidate ∈ candidates,
    hostedReading candidate item.field = candidateValue candidate item.field
  summaries : ∀ item ∈ operators.summaries, item.function = "count" ∨
    ∀ candidate ∈ candidates,
      hostedReading candidate item.field = candidateValue candidate item.field

section

variable {operators : QueryOperators} {candidates : List Candidate} {plan : HostedQueryPlan}
  {doubles : Doubles} {text : Value → String}
  {evaluate : Summary → List Value → Except Diagnostic Value}

theorem ReadsAlike.rowValues_eq (alike : ReadsAlike operators candidates)
    (lowers : Lowers operators plan) {candidate : Candidate} (member : candidate ∈ candidates) :
    plan.rowValues (plan.reductionInput candidate) =
      (operators.grouping doubles text evaluate).groupValues candidate := by
  rw [lowers.rowValues_eq]
  refine List.foldl_ext _ _ _ fun values item within => ?_
  rw [alike.groups item within candidate member]

theorem ReadsAlike.finishSummaries_eq (alike : ReadsAlike operators candidates)
    (lowers : Lowers operators plan) {members : List Candidate}
    (included : ∀ candidate ∈ members, candidate ∈ candidates) :
    plan.finishSummaries (plan.consumed doubles members) =
      (operators.grouping doubles text evaluate).summarize members := by
  rw [finishSummaries_eq_reported lowers.aggregates_builtin, lowers.outcomes_eq,
    summarize_eq_reported _ lowers.summaries_builtin]
  refine congrArg reported (List.map_congr_left fun item within => ?_)
  rcases alike.summaries item within with count | reads
  · simp [builtinSummary, count]
  · rw [List.map_congr_left fun candidate member => reads candidate (included candidate member)]
    rfl

theorem ReadsAlike.push_streamed (alike : ReadsAlike operators candidates)
    (lowers : Lowers operators plan) (reduces : ¬(plan.groups.isEmpty ∧ plan.aggregates.isEmpty))
    {accumulator : HostedReductionAccumulator doubles} {table : Table GroupEntry.key}
    (same : accumulator.groups = plan.streamedTable doubles table) {candidate : Candidate}
    (member : candidate ∈ candidates) :
    (∃ next, plan.push doubles text accumulator (plan.reductionInput candidate) = .ok next ∧
      next.groups = plan.streamedTable doubles
        ((operators.grouping doubles text evaluate).collectOne table candidate)) ∨
    ∃ error, plan.push doubles text accumulator (plan.reductionInput candidate) = .error error ∧
      HostedQueryPlan.isBudgetError error := by
  have counted := @HostedQueryPlan.push_cases plan doubles text accumulator
    (plan.reductionInput candidate) (List.length_map _) (List.length_map _) reduces
  refine counted.imp_left ?_
  rintro ⟨next, pushed, groups⟩
  refine ⟨next, pushed, ?_⟩
  have values : plan.rowValues (plan.reductionInput candidate) =
      (operators.grouping doubles text evaluate).groupValues candidate :=
    alike.rowValues_eq lowers member
  have group : plan.groupOf doubles text accumulator (plan.reductionInput candidate) =
      plan.streamed doubles ((table.get? ((operators.grouping doubles text evaluate).keyOf
        candidate)).getD
        { key := (operators.grouping doubles text evaluate).keyOf candidate
          values := (operators.grouping doubles text evaluate).groupValues candidate
          members := [] }) := by
    rw [HostedQueryPlan.groupOf, values, same, HostedQueryPlan.get?_streamedTable]
    unfold Grouping.keyOf QueryOperators.grouping
    simp only
    cases table.get? _ <;> rfl
  rw [groups, group, HostedQueryPlan.pushRow_streamed, same,
    ← HostedQueryPlan.streamedTable_insert, Grouping.collectOne_eq]

theorem ReadsAlike.reduce_streamed (alike : ReadsAlike operators candidates)
    (lowers : Lowers operators plan) (reduces : ¬(plan.groups.isEmpty ∧ plan.aggregates.isEmpty))
    (rows : List Candidate)
    (included : ∀ candidate ∈ rows, candidate ∈ candidates)
    {accumulator : HostedReductionAccumulator doubles} {table : Table GroupEntry.key}
    (same : accumulator.groups = plan.streamedTable doubles table) :
    (∃ last, (rows.map plan.reductionInput).foldlM (plan.push doubles text) accumulator = .ok last ∧
      last.groups = plan.streamedTable doubles
        (rows.foldl (operators.grouping doubles text evaluate).collectOne table)) ∨
    ∃ error, (rows.map plan.reductionInput).foldlM (plan.push doubles text) accumulator =
        .error error ∧ HostedQueryPlan.isBudgetError error := by
  induction rows generalizing accumulator table with
  | nil => exact .inl ⟨accumulator, rfl, same⟩
  | cons candidate rows ih =>
    rw [List.map_cons, List.foldlM_cons, List.foldl_cons]
    rcases @alike.push_streamed _ _ plan doubles text evaluate lowers reduces _ _ same _
      (included candidate List.mem_cons_self) with ⟨next, pushed, groups⟩ | ⟨error, failed, budget⟩
    · rw [pushed]
      exact ih (fun other member => included other (List.mem_cons_of_mem _ member)) groups
    · rw [failed]
      exact .inr ⟨error, rfl, budget⟩

theorem ReadsAlike.finishGroups_eq (alike : ReadsAlike operators candidates)
    (lowers : Lowers operators plan) (entries : List GroupEntry)
    (included : ∀ entry ∈ entries, ∀ candidate ∈ entry.members, candidate ∈ candidates) :
    plan.finishGroups (entries.map (plan.streamed doubles)) =
      (operators.grouping doubles text evaluate).render entries := by
  induction entries with
  | nil => rfl
  | cons entry rest ih =>
    have summaries : plan.finishSummaries (plan.streamed doubles entry).summaries =
        (operators.grouping doubles text evaluate).summarize entry.members :=
      alike.finishSummaries_eq lowers (included entry List.mem_cons_self)
    rw [List.map_cons, HostedQueryPlan.finishGroups, Grouping.render, summaries,
      ih fun other member => included other (List.mem_cons_of_mem _ member)]
    rfl

variable {rows : List Candidate}

theorem ReadsAlike.finish_eq (alike : ReadsAlike operators candidates)
    (lowers : Lowers operators plan) (reduces : ¬(plan.groups.isEmpty ∧ plan.aggregates.isEmpty))
    (included : ∀ candidate ∈ rows, candidate ∈ candidates)
    {accumulator : HostedReductionAccumulator doubles}
    (same : accumulator.groups = plan.streamedTable doubles
      ((operators.grouping doubles text evaluate).collect rows)) :
    plan.finish accumulator =
      { groups := some ((operators.grouping doubles text evaluate).render
          ((operators.grouping doubles text evaluate).ordered rows)).1
        diagnostics := ((operators.grouping doubles text evaluate).render
          ((operators.grouping doubles text evaluate).ordered rows)).2 } := by
  have entries : sortBy
        (fun left right => HostedQueryPlan.compareHostedGroups plan.groups left.values right.values)
        accumulator.groups.entries =
      ((operators.grouping doubles text evaluate).ordered rows).map (plan.streamed doubles) := by
    rw [same]
    exact (map_sortBy (plan.streamed doubles) fun left _ right _ =>
      (lowers.compareHostedGroups_eq left.values right.values).symm).symm
  have within : ∀ entry ∈ (operators.grouping doubles text evaluate).ordered rows,
      ∀ candidate ∈ entry.members, candidate ∈ candidates := by
    intro entry member candidate present
    have collected : entry ∈ (operators.grouping doubles text evaluate).collect rows :=
      mem_sortBy.mp member
    rw [(Grouping.of_mem_collect collected).1] at present
    exact included candidate (List.mem_filter.mp present).1
  rw [HostedQueryPlan.finish, if_neg reduces, entries,
    @ReadsAlike.finishGroups_eq _ _ plan doubles text evaluate alike lowers _ within]

theorem Grouping.ordered_of_ungrouped (grouping : Grouping) (ungrouped : grouping.groupBy = [])
    (present : rows ≠ []) :
    grouping.ordered rows =
      [{ key := grouping.text (.object []), values := .object [], members := rows }] := by
  have values : ∀ candidate, grouping.groupValues candidate = .object [] := by
    intro candidate
    rw [groupValues, ungrouped]
    rfl
  have whole : rows.filter (grouping.keyOf · = grouping.text (.object [])) = rows := by
    apply List.filter_eq_self.mpr
    intro candidate _
    simp [keyOf, values]
  have single : grouping.collect rows = Table.empty.insert
      { key := grouping.text (.object []), values := .object [], members := rows } := by
    ext key
    rw [get?_collect, entryOf, Table.get?_insert]
    by_cases here : key = grouping.text (.object [])
    · rw [here, whole, if_pos rfl]
      cases rows with
      | nil => exact absurd rfl present
      | cons first rest => simp only [values]
    · have none : rows.filter (grouping.keyOf · = key) = [] := by
        apply List.filter_eq_nil_iff.mpr
        intro candidate _
        simpa [keyOf, values] using Ne.symm here
      rw [none, if_neg here]
      rfl
  rw [ordered, single]
  rfl

/-- The groups of the executor are the rendered ordered groups, whenever there is a
group to render. -/
theorem Grouping.buildGroups_eq_render (grouping : Grouping)
    (asked : ¬(grouping.groupBy.isEmpty ∧ grouping.summaries.isEmpty))
    (present : rows ≠ [] ∨ grouping.groupBy ≠ []) :
    grouping.buildGroups rows = (some (grouping.render (grouping.ordered rows)).1,
      (grouping.render (grouping.ordered rows)).2) := by
  rw [buildGroups, if_neg asked]
  by_cases ungrouped : grouping.groupBy = []
  · have rowsPresent := present.resolve_right (not_not.mpr ungrouped)
    rw [if_pos (by rw [ungrouped]; rfl), grouping.ordered_of_ungrouped ungrouped rowsPresent]
    simp [render]
  · rw [if_neg (by simpa using ungrouped)]

/-- A host that sorts, groups and summarises the matched candidates with a plan
arrives at the sequence and the groups of the executor, unless a budget is exhausted. -/
structure HostedAgrees (operators : QueryOperators) (plan : HostedQueryPlan) (doubles : Doubles)
    (text : Value → String) (evaluate : Summary → List Value → Except Diagnostic Value)
    (candidates : List Candidate) : Prop where
  sequence : sortBy plan.compareMatches candidates = sortCandidates candidates operators.orderBy
  groups : match plan.reduceMatches doubles text
      ((sortCandidates candidates operators.orderBy).map plan.reductionInput) with
    | .ok reduction => (reduction.groups, reduction.diagnostics) =
        (operators.grouping doubles text evaluate).buildGroups
          (sortCandidates candidates operators.orderBy)
    | .error error => HostedQueryPlan.isBudgetError error

theorem HostedQueryPlan.reduceMatches_idle (idle : plan.groups.isEmpty ∧ plan.aggregates.isEmpty)
    (rows : List Candidate) :
    plan.reduceMatches doubles text (rows.map plan.reductionInput) =
      .ok { groups := none, diagnostics := [] } := by
  have unchanged : ∀ accumulator : HostedReductionAccumulator doubles,
      (rows.map plan.reductionInput).foldlM (plan.push doubles text) accumulator =
        .ok accumulator := by
    intro accumulator
    induction rows with
    | nil => rfl
    | cons candidate rows ih =>
      have kept : plan.push doubles text accumulator (plan.reductionInput candidate) =
          .ok accumulator := by
        rw [push, if_neg (by simp [reductionInput]), if_pos idle]
      rw [List.map_cons, List.foldlM_cons, kept]
      exact ih
  rw [reduceMatches, unchanged]
  simp only [Except.map, finish, if_pos idle]

/-- A host that reads the candidates as the executor does agrees with the executor, exactly unless
summaries are asked of no candidates at all: the executor then reports one group of no members,
the host no group. -/
theorem ReadsAlike.agrees_iff (alike : ReadsAlike operators candidates)
    (lowers : Lowers operators plan) :
    HostedAgrees operators plan doubles text evaluate candidates ↔
      (candidates = [] → operators.groupBy = [] → operators.summaries = []) := by
  constructor
  · rintro ⟨_, agree⟩ rfl ungrouped
    by_contra asked
    have reduces : ¬(plan.groups.isEmpty ∧ plan.aggregates.isEmpty) := by
      rw [lowers.isEmpty.2]
      simp [asked]
    have nothing : plan.reduceMatches doubles text [] =
        .ok { groups := some [], diagnostics := [] } := by
      change Except.ok (plan.finish (HostedQueryPlan.startReduction doubles)) = _
      rw [HostedQueryPlan.finish, if_neg reduces]
      rfl
    have sorted : sortCandidates [] operators.orderBy = [] := rfl
    rw [sorted, List.map_nil, nothing] at agree
    simp [Grouping.buildGroups, QueryOperators.grouping, ungrouped, asked] at agree
  · intro asked
    refine ⟨?_, ?_⟩
    · rw [lowers.compareMatches_eq, sortCandidates, compareCandidates_eq_compareBy]
      exact sortBy_congr alike.order
    have included : ∀ candidate ∈ sortCandidates candidates operators.orderBy,
        candidate ∈ candidates := fun candidate member => mem_sortBy.mp member
    by_cases idle : plan.groups.isEmpty ∧ plan.aggregates.isEmpty
    · rw [HostedQueryPlan.reduceMatches_idle idle]
      rw [lowers.isEmpty.1, lowers.isEmpty.2] at idle
      exact (if_pos idle).symm
    · have present : sortCandidates candidates operators.orderBy ≠ [] ∨
          (operators.grouping doubles text evaluate).groupBy ≠ [] := by
        by_contra neither
        obtain ⟨empty, ungrouped⟩ := not_or.mp neither
        have lengths := (sortBy_perm (compareCandidates operators.orderBy) candidates).length_eq
        have nothing : candidates = [] := by
          apply List.eq_nil_of_length_eq_zero
          rw [← lengths]
          exact List.length_eq_zero_iff.mpr (not_not.mp empty)
        have ungrouped : operators.groupBy = [] := not_not.mp ungrouped
        apply idle
        rw [lowers.isEmpty.1, lowers.isEmpty.2, ungrouped,
          asked nothing ungrouped]
        exact ⟨rfl, rfl⟩
      have asks : ¬((operators.grouping doubles text evaluate).groupBy.isEmpty ∧
          (operators.grouping doubles text evaluate).summaries.isEmpty) := by
        rw [lowers.isEmpty.1, lowers.isEmpty.2] at idle
        exact idle
      rw [Grouping.buildGroups_eq_render _ asks present, HostedQueryPlan.reduceMatches]
      rcases @ReadsAlike.reduce_streamed _ _ plan doubles text evaluate alike lowers idle _ included
          (HostedQueryPlan.startReduction doubles) .empty rfl with
        ⟨last, reduced, same⟩ | ⟨error, failed, budget⟩
      · rw [reduced]
        simp only [Except.map]
        rw [alike.finish_eq lowers idle included same]
      · rw [failed]
        exact budget

end

end Mdbase.Query
