import Mdbase.Library.Rounds
import Mdbase.Runtime.Members
import Mdbase.Runtime.Planner
import Mdbase.Runtime.References

/-!
# Workflow variables

The variables of a workflow are evaluated in rounds: a round evaluates the variables whose found
references are evaluated. A round that finds none is the end, with all variables evaluated or a
cycle left. What a template refers to and what the search finds in it are kept apart here.
-/

namespace Mdbase.Runtime

open Library

/-- A variable of this name is declared. -/
def Declared (vars : List (String × Value)) (name : String) : Prop := ∃ known ∈ vars, known.1 = name

/-- The template of one declared variable has a reference to another. -/
def Needs (references : Value → List String) (vars : List (String × Value))
    (name other : String) : Prop :=
  ∃ template, (name, template) ∈ vars ∧ other ∈ references template ∧ Declared vars other

/-- The variable is bound in an object. -/
def Bound (result : List (String × Value)) (name : String) : Prop :=
  ((Value.object result).get name).isSome = true

theorem bound_set_iff (result : List (String × Value)) (name : String) (item : Value) :
    ∃ after, (Value.object result).set name item = .object after ∧
      ∀ other, Bound after other ↔ Bound result other ∨ name = other := by
  obtain ⟨after, same⟩ := Value.exists_set_eq_object result name item
  refine ⟨after, same, fun other => ?_⟩
  rw [Bound, ← same]
  by_cases here : name = other
  · rw [← here, Value.get_set_self]
    exact iff_of_true rfl (.inr rfl)
  · rw [Value.get_set_of_ne item (Ne.symm here), or_iff_left here]
    exact Iff.rfl

section Evaluation

variable (ext : PlannerExternals) (now : DateTime) (timezone : Option String)
  (vars : List (String × Value)) (bindings : Value)

/-- The evaluation of one variable under the result so far. -/
def evaluateMember (result : Value) (member : String × Value) : Planning Value := do
  let value ← evaluateTemplate ext now timezone member.2 (bindings.set "vars" result)
  .ok (result.set member.1 value)

/-- The variables of a result are those that settle within a number of rounds. -/
def RoundsDone (rounds : Nat) (result : List (String × Value)) : Prop :=
  ∀ name, Bound result name ↔
    Declared vars name ∧ SettledIn (Needs ext.variableReferences vars) rounds name

/-- How many variables are not bound yet. -/
def openCount (result : List (String × Value)) : Nat :=
  (vars.filter fun member => ((Value.object result).get member.1).isNone).length

variable {ext now timezone vars bindings}

theorem roundsDone_zero : RoundsDone ext vars 0 [] := fun _ =>
  iff_of_false (fun bound => by cases bound) fun both => both.2

theorem evaluateReady_succ (rounds : Nat) (result : Value) :
    evaluateReady ext now timezone vars bindings (rounds + 1) result =
      if vars.all fun member => (result.get member.1).isSome then .ok result
      else
        match readyVars ext vars result with
        | [] => .fail "circular_workflow_variable"
            "Workflow variables contain a dependency cycle."
        | ready => ready.foldlM (evaluateMember ext now timezone bindings) result >>= fun after =>
          evaluateReady ext now timezone vars bindings rounds after := rfl

variable {name : String}

theorem template_unique (distinct : (vars.map Prod.fst).Nodup)
    {left right : Value} (leftHere : (name, left) ∈ vars) (rightHere : (name, right) ∈ vars) :
    left = right :=
  congrArg Prod.snd (List.inj_on_of_nodup_map distinct leftHere rightHere rfl)

variable {result : List (String × Value)} {rounds : Nat}

/-- A variable becomes ready in the round in which the last one that it needs is settled. -/
theorem mem_readyVars_iff (distinct : (vars.map Prod.fst).Nodup)
    (done : RoundsDone ext vars rounds result) (member : String × Value) :
    member ∈ readyVars ext vars (.object result) ↔ member ∈ vars ∧
      ¬SettledIn (Needs ext.variableReferences vars) rounds member.1 ∧
      SettledIn (Needs ext.variableReferences vars) (rounds + 1) member.1 := by
  unfold readyVars
  rw [List.mem_filter]
  refine and_congr_right fun here => ?_
  have declared : Declared vars member.1 := ⟨member, here, rfl⟩
  have fresh : ((Value.object result).get member.1).isNone = true ↔
      ¬SettledIn (Needs ext.variableReferences vars) rounds member.1 := by
    rw [← Option.not_isSome, Bool.not_eq_true', ← Bool.not_eq_true]
    exact not_congr ((done member.1).trans (and_iff_right declared))
  rw [decide_eq_true_iff, fresh]
  refine and_congr_right fun _ => ⟨?_, ?_⟩
  · rintro ready other ⟨template, there, found, known⟩
    obtain rfl := template_unique distinct here there
    exact ((done other).mp (ready other found known)).2
  · intro settled other found known
    exact (done other).mpr ⟨known, settled other ⟨member.2, here, found, known⟩⟩

variable {ready : List (String × Value)}

theorem bound_of_round {after : Value}
    (evaluated : ready.foldlM (evaluateMember ext now timezone bindings) (.object result) = .ok after) :
    ∃ members, after = .object members ∧
      ∀ name, Bound members name ↔ Bound result name ∨ Declared ready name := by
  induction ready generalizing result with
  | nil =>
    cases evaluated
    exact ⟨result, rfl, fun name => by simp [Declared]⟩
  | cons first rest ih =>
    rw [List.foldlM_cons] at evaluated
    obtain ⟨next, here, later⟩ := bind_eq_ok.mp evaluated
    obtain ⟨value, -, same⟩ := bind_eq_ok.mp here
    cases same
    obtain ⟨members, set, bound⟩ := bound_set_iff result first.1 value
    rw [set] at later
    obtain ⟨final, same, all⟩ := ih later
    refine ⟨final, same, fun name => ?_⟩
    rw [all, bound]
    simp only [Declared, List.mem_cons, exists_eq_or_imp]
    exact or_assoc

theorem not_bound_iff : ¬Bound result name ↔ ((Value.object result).get name).isNone = true := by
  rw [Bound, Bool.not_eq_true, Option.isSome_eq_false_iff]

variable {result after : List (String × Value)} {member : String × Value}

theorem openCount_lt (bound : ∀ name, Bound after name ↔ Bound result name ∨ Declared ready name)
    (here : member ∈ vars) (first : member ∈ ready) (fresh : ¬Bound result member.1) :
    openCount vars after < openCount vars result := by
  have stays {name : String} (still : ¬Bound after name) : ¬Bound result name :=
    fun before => still ((bound name).mpr (.inl before))
  have smaller : (vars.filter fun member => ((Value.object after).get member.1).isNone) =
      (vars.filter fun member => ((Value.object result).get member.1).isNone).filter
        fun member => ((Value.object after).get member.1).isNone := by
    rw [List.filter_filter]
    refine List.filter_congr fun other _ => ?_
    rw [Bool.eq_iff_iff, Bool.and_eq_true]
    exact (and_iff_left_of_imp fun still =>
      not_bound_iff.mp (stays (not_bound_iff.mpr still))).symm
  rw [openCount, smaller, openCount]
  refine List.length_filter_lt_length_iff_exists.mpr
    ⟨member, List.mem_filter.mpr ⟨here, not_bound_iff.mp fresh⟩, ?_⟩
  exact fun still => not_bound_iff.mpr still ((bound member.1).mpr (.inr ⟨member, first, rfl⟩))

theorem of_mem_readyVars (here : member ∈ readyVars ext vars (.object result)) :
    member ∈ vars ∧ ¬Bound result member.1 := by
  obtain ⟨declared, ready⟩ := List.mem_filter.mp here
  exact ⟨declared, not_bound_iff.mpr (of_decide_eq_true ready).1⟩

theorem all_bound_iff :
    (vars.all fun member => ((Value.object result).get member.1).isSome) = true ↔
      ∀ member ∈ vars, Bound result member.1 := List.all_eq_true

theorem all_bound_of_openCount
    (closed : openCount vars result = 0) : ∀ member ∈ vars, Bound result member.1 := by
  intro member here
  by_contra fresh
  have listed : member ∈ vars.filter fun member =>
      ((Value.object result).get member.1).isNone :=
    List.mem_filter.mpr ⟨here, not_bound_iff.mp fresh⟩
  rw [List.eq_nil_of_length_eq_zero closed] at listed
  cases listed

theorem evaluateReady_stable (enough : openCount vars result ≤ rounds) :
    evaluateReady ext now timezone vars bindings (rounds + 1) (.object result) =
      evaluateReady ext now timezone vars bindings rounds (.object result) := by
  induction rounds generalizing result with
  | zero =>
    rw [evaluateReady_succ, if_pos]
    · rfl
    · exact all_bound_iff.mpr (all_bound_of_openCount (Nat.le_zero.mp enough))
  | succ rounds ih =>
    rw [evaluateReady_succ, evaluateReady_succ]
    split
    next => rfl
    cases ready : readyVars ext vars (.object result) with
    | nil => rfl
    | cons first rest =>
      dsimp only
      cases evaluated : (first :: rest).foldlM (evaluateMember ext now timezone bindings)
          (.object result) with
      | error halt => rfl
      | ok after =>
        obtain ⟨members, rfl, bound⟩ := bound_of_round evaluated
        have member : first ∈ readyVars ext vars (.object result) := by
          rw [ready]
          exact List.mem_cons_self
        obtain ⟨declared, fresh⟩ := of_mem_readyVars member
        have fewer := openCount_lt bound declared List.mem_cons_self fresh
        exact ih (Nat.le_of_lt_succ (fewer.trans_le enough))

theorem openCount_le_length (result : List (String × Value)) :
    openCount vars result ≤ vars.length := List.length_filter_le _ _

theorem evaluateReady_eq_evaluateVars (enough : vars.length ≤ rounds) :
    evaluateReady ext now timezone vars bindings rounds (.object []) =
      evaluateVars ext now timezone (some (.object vars)) bindings := by
  induction rounds, enough using Nat.le_induction with
  | base => rfl
  | succ rounds enough ih => rw [evaluateReady_stable ((openCount_le_length []).trans enough), ih]

variable (ext now timezone vars bindings) (references : Value → List String)

/-- The evaluator succeeds on a template whenever the variables it refers to are bound. -/
def Supported : Prop :=
  ∀ member ∈ vars, ∀ bound, (∀ other, Needs references vars member.1 other → Bound bound other) →
    ∃ value, evaluateTemplate ext now timezone member.2 (bindings.set "vars" (.object bound)) =
      .ok value

/-- The evaluator reads no other variables. -/
def DependsOnly : Prop :=
  ∀ member ∈ vars, ∀ left right, (∀ other, Needs references vars member.1 other →
      (Value.object left).get other = (Value.object right).get other) →
    evaluateTemplate ext now timezone member.2 (bindings.set "vars" (.object left)) =
      evaluateTemplate ext now timezone member.2 (bindings.set "vars" (.object right))

/-- Every variable of the result was evaluated with all variables bound, to their final values,
that its template refers to. -/
def Explained (result : List (String × Value)) : Prop :=
  ∀ member ∈ vars, ∀ value, (Value.object result).get member.1 = some value →
    ∃ bound, (∀ other, Needs references vars member.1 other →
        ∃ needed, (Value.object bound).get other = some needed ∧
          (Value.object result).get other = some needed) ∧
      evaluateTemplate ext now timezone member.2 (bindings.set "vars" (.object bound)) = .ok value

variable {ext now timezone vars bindings references}

theorem explained_set (distinct : (vars.map Prod.fst).Nodup)
    (explained : Explained ext now timezone vars bindings references result)
    (here : member ∈ vars) (fresh : ¬Bound result member.1)
    (met : ∀ other, Needs references vars member.1 other → Bound result other) {value : Value}
    (evaluated : evaluateTemplate ext now timezone member.2
      (bindings.set "vars" (.object result)) = .ok value)
    (same : (Value.object result).set member.1 value = .object after) :
    Explained ext now timezone vars bindings references after := by
  have kept {name : String} {item : Value} (before : (Value.object result).get name = some item) :
      (Value.object after).get name = some item := by
    have other : name ≠ member.1 := fun same => fresh (by rw [Bound, ← same, before]; rfl)
    rw [← same, Value.get_set_of_ne value other, before]
  intro own ownHere item bound
  by_cases new : own.1 = member.1
  · obtain rfl : own = member := List.inj_on_of_nodup_map distinct ownHere here new
    rw [← same, Value.get_set_self] at bound
    cases bound
    refine ⟨result, fun other needed => ?_, evaluated⟩
    obtain ⟨value, before⟩ := Option.isSome_iff_exists.mp (met other needed)
    exact ⟨value, before, kept before⟩
  · rw [← same, Value.get_set_of_ne value new] at bound
    obtain ⟨earlier, needed, evaluated⟩ := explained own ownHere item bound
    refine ⟨earlier, fun other needs => ?_, evaluated⟩
    obtain ⟨value, first, before⟩ := needed other needs
    exact ⟨value, first, kept before⟩

theorem round_succeeds (distinct : (vars.map Prod.fst).Nodup)
    (supported : Supported ext now timezone vars bindings references)
    (declared : ∀ member ∈ ready, member ∈ vars) (apart : (ready.map Prod.fst).Nodup)
    (fresh : ∀ member ∈ ready, ¬Bound result member.1)
    (met : ∀ member ∈ ready, ∀ other, Needs references vars member.1 other → Bound result other)
    (explained : Explained ext now timezone vars bindings references result)
    (sorted : Sorted result) :
    ∃ after, ready.foldlM (evaluateMember ext now timezone bindings) (.object result) =
        .ok (.object after) ∧
      Explained ext now timezone vars bindings references after ∧ Sorted after := by
  induction ready generalizing result with
  | nil => exact ⟨result, rfl, explained, sorted⟩
  | cons first rest ih =>
    have here := declared first List.mem_cons_self
    have ready := met first List.mem_cons_self
    obtain ⟨value, evaluated⟩ := supported first here result ready
    obtain ⟨members, set, bound⟩ := bound_set_iff result first.1 value
    rw [List.map_cons, List.nodup_cons] at apart
    obtain ⟨after, later, facts⟩ := @ih members
      (fun member later => declared member (List.mem_cons_of_mem _ later)) apart.2
      (fun member later both => by
        rcases (bound member.1).mp both with before | same
        · exact fresh member (List.mem_cons_of_mem _ later) before
        · exact apart.1 (List.mem_map.mpr ⟨member, later, same.symm⟩))
      (fun member later other needs => (bound other).mpr
        (.inl (met member (List.mem_cons_of_mem _ later) other needs)))
      (explained_set distinct explained here (fresh first List.mem_cons_self) ready evaluated set)
      (sorted_set sorted _ _ set)
    refine ⟨after, ?_, facts⟩
    rw [List.foldlM_cons, ← later, ← set, evaluateMember, evaluated]
    rfl

/-- The error for a cycle. -/
def circularError : Planning Value :=
  .fail "circular_workflow_variable" "Workflow variables contain a dependency cycle."

theorem roundsDone_succ (distinct : (vars.map Prod.fst).Nodup)
    (done : RoundsDone ext vars rounds result)
    (bound : ∀ name, Bound after name ↔
      Bound result name ∨ Declared (readyVars ext vars (.object result)) name) :
    RoundsDone ext vars (rounds + 1) after := by
  intro name
  rw [bound, done]
  constructor
  · rintro (⟨declared, settled⟩ | ⟨member, ready, rfl⟩)
    · exact ⟨declared, settled.succ⟩
    · obtain ⟨here, -, settled⟩ := (mem_readyVars_iff distinct done member).mp ready
      exact ⟨⟨member, here, rfl⟩, settled⟩
  · rintro ⟨⟨member, here, rfl⟩, settled⟩
    by_cases before : SettledIn (Needs ext.variableReferences vars) rounds member.1
    · exact .inl ⟨⟨member, here, rfl⟩, before⟩
    · exact .inr ⟨member, (mem_readyVars_iff distinct done member).mpr ⟨here, before, settled⟩, rfl⟩

theorem settled_of_stalled (distinct : (vars.map Prod.fst).Nodup) {stalled : Nat}
    (done : RoundsDone ext vars stalled result) (ready : readyVars ext vars (.object result) = [])
    (declared : Declared vars name)
    (settled : SettledIn (Needs ext.variableReferences vars) rounds name) : Bound result name := by
  refine (done name).mpr ⟨declared, @SettledIn.of_stalled _ _ (Declared vars)
    (fun _ _ ⟨_, _, _, known⟩ => known) _ ?_ _ _ declared settled⟩
  rintro _ ⟨member, here, rfl⟩ next
  by_contra still
  have listed := (mem_readyVars_iff distinct done member).mpr ⟨here, still, next⟩
  rw [ready] at listed
  cases listed

/-- In the graph of the found references every variable is deeper than those it refers to. -/
def Deeper (found references : Value → List String) (vars : List (String × Value)) : Prop :=
  ∀ rounds name other, SettledIn (Needs found vars) (rounds + 1) name →
    Needs references vars name other → SettledIn (Needs found vars) rounds other

/-- With enough fuel, the rounds settle every variable that is ready. -/
theorem evaluateReady_runs (distinct : (vars.map Prod.fst).Nodup)
    (supported : Supported ext now timezone vars bindings references)
    (deeper : Deeper ext.variableReferences references vars) {fuel rounds : Nat}
    (enough : openCount vars result ≤ fuel) (done : RoundsDone ext vars rounds result)
    (explained : Explained ext now timezone vars bindings references result)
    (sorted : Sorted result) :
    (∃ after, evaluateReady ext now timezone vars bindings fuel (.object result) =
          .ok (.object after) ∧ (∀ name, Bound after name ↔ Declared vars name) ∧
        Explained ext now timezone vars bindings references after ∧ Sorted after ∧
        ∀ member ∈ vars, ∃ rounds, SettledIn (Needs ext.variableReferences vars) rounds member.1) ∨
      (evaluateReady ext now timezone vars bindings fuel (.object result) = circularError ∧
        ∃ member ∈ vars, ∀ rounds,
          ¬SettledIn (Needs ext.variableReferences vars) rounds member.1) := by
  have finished {rounds : Nat} {result : List (String × Value)}
      (done : RoundsDone ext vars rounds result) (all : ∀ member ∈ vars, Bound result member.1) :
      (∀ name, Bound result name ↔ Declared vars name) ∧ ∀ member ∈ vars, ∃ rounds,
        SettledIn (Needs ext.variableReferences vars) rounds member.1 := by
    refine ⟨fun name => ⟨fun bound => ((done name).mp bound).1, ?_⟩, fun member here =>
      ⟨rounds, ((done member.1).mp (all member here)).2⟩⟩
    rintro ⟨member, here, rfl⟩
    exact all member here
  induction fuel generalizing rounds result with
  | zero =>
    obtain ⟨bound, settles⟩ := finished done (all_bound_of_openCount (Nat.le_zero.mp enough))
    exact .inl ⟨result, rfl, bound, explained, sorted, settles⟩
  | succ fuel ih =>
    rw [evaluateReady_succ]
    split
    next all =>
      obtain ⟨bound, settles⟩ := finished done (all_bound_iff.mp all)
      exact .inl ⟨result, rfl, bound, explained, sorted, settles⟩
    rename_i some
    cases ready : readyVars ext vars (.object result) with
    | nil =>
      have unbound : ∃ member ∈ vars, ¬Bound result member.1 := by
        by_contra none
        refine some (all_bound_iff.mpr fun member here => ?_)
        by_contra fresh
        exact none ⟨member, here, fresh⟩
      obtain ⟨member, here, fresh⟩ := unbound
      exact .inr ⟨rfl, member, here, fun rounds settled =>
        fresh (settled_of_stalled distinct done ready ⟨member, here, rfl⟩ settled)⟩
    | cons first rest =>
      have listed {member : String × Value} (here : member ∈ first :: rest) :
          member ∈ readyVars ext vars (.object result) := by
        rw [ready]
        exact here
      have apart : ((first :: rest).map Prod.fst).Nodup := by
        rw [← ready]
        exact distinct.sublist (List.filter_sublist.map _)
      obtain ⟨after, evaluated, facts⟩ := round_succeeds distinct supported
        (fun member here => (of_mem_readyVars (listed here)).1) apart
        (fun member here => (of_mem_readyVars (listed here)).2)
        (fun member here other needs => by
          obtain ⟨declared, -, settled⟩ :=
            (mem_readyVars_iff distinct done member).mp (listed here)
          have known : Declared vars other := needs.elim fun _ facts => facts.2.2
          exact (done other).mpr ⟨known, deeper _ _ _ settled needs⟩)
        explained sorted
      obtain ⟨members, same, bound⟩ := bound_of_round evaluated
      cases same
      have fewer := openCount_lt bound (of_mem_readyVars (listed List.mem_cons_self)).1
        List.mem_cons_self (of_mem_readyVars (listed List.mem_cons_self)).2
      rw [← ready] at bound
      dsimp only
      rw [evaluated]
      exact ih (Nat.le_of_lt_succ (fewer.trans_le enough))
        (roundsDone_succ distinct done bound) facts.1 facts.2

variable (ext now timezone vars bindings references)

/-- The object binds the declared variables to what their templates evaluate to under it. -/
structure Solves (solution : List (String × Value)) : Prop where
  sorted : Sorted solution
  bound : ∀ name, Bound solution name ↔ Declared vars name
  equations : ∀ member ∈ vars, ∃ value, (Value.object solution).get member.1 = some value ∧
    evaluateTemplate ext now timezone member.2 (bindings.set "vars" (.object solution)) = .ok value

/-- The evaluation of the variables in the given order ends, reports exactly the cycles of the
references, and otherwise binds every variable after those that it refers to. -/
structure EvaluatesInOrder : Prop where
  terminates : ∀ rounds, vars.length ≤ rounds →
    evaluateReady ext now timezone vars bindings rounds (.object []) =
      evaluateVars ext now timezone (some (.object vars)) bindings
  circular : evaluateVars ext now timezone (some (.object vars)) bindings = circularError ↔
    Cyclic (Needs references vars)
  complete : ¬Cyclic (Needs references vars) → ∃ result,
    evaluateVars ext now timezone (some (.object vars)) bindings = .ok (.object result) ∧
      (∀ name, Bound result name ↔ Declared vars name) ∧
      Explained ext now timezone vars bindings references result
  unique : ¬Cyclic (Needs references vars) →
    DependsOnly ext now timezone vars bindings references → ∃ solution,
      evaluateVars ext now timezone (some (.object vars)) bindings = .ok (.object solution) ∧
      Solves ext now timezone vars bindings solution ∧
      ∀ other, Solves ext now timezone vars bindings other → other = solution

variable {ext now timezone vars bindings references}

theorem get_eq_of_settled {left right : List (String × Value)}
    (only : DependsOnly ext now timezone vars bindings references)
    (leftSolves : Solves ext now timezone vars bindings left)
    (rightSolves : Solves ext now timezone vars bindings right)
    (declared : Declared vars name) (settled : SettledIn (Needs references vars) rounds name) :
    (Value.object left).get name = (Value.object right).get name := by
  induction rounds generalizing name with
  | zero => cases settled
  | succ rounds ih =>
    obtain ⟨member, here, rfl⟩ := declared
    obtain ⟨leftValue, leftBound, leftEvaluated⟩ := leftSolves.equations member here
    obtain ⟨rightValue, rightBound, rightEvaluated⟩ := rightSolves.equations member here
    have same := only member here left right fun other needs =>
      ih (needs.elim fun _ facts => facts.2.2) (settled other needs)
    rw [leftEvaluated, rightEvaluated] at same
    rw [leftBound, rightBound, Except.ok.inj same]

theorem exists_unsettled_iff (found : Value → List String) :
    (∃ member ∈ vars, ∀ rounds, ¬SettledIn (Needs found vars) rounds member.1) ↔
      Cyclic (Needs found vars) := by
  have within : ∀ name other, Needs found vars name other →
      name ∈ vars.map Prod.fst ∧ other ∈ vars.map Prod.fst := by
    rintro name other ⟨template, here, -, known, knownHere, rfl⟩
    exact ⟨List.mem_map.mpr ⟨_, here, rfl⟩, List.mem_map.mpr ⟨known, knownHere, rfl⟩⟩
  rw [← exists_unsettled_iff_cyclic within]
  simp only [List.mem_map]
  constructor
  · rintro ⟨member, here, never⟩
    exact ⟨member.1, ⟨member, here, rfl⟩, never⟩
  · rintro ⟨_, ⟨member, here, rfl⟩, never⟩
    exact ⟨member, here, never⟩

theorem evaluatesInOrder_of_deeper (distinct : (vars.map Prod.fst).Nodup)
    (supported : Supported ext now timezone vars bindings references)
    (deeper : Deeper ext.variableReferences references vars)
    (cycles : Cyclic (Needs ext.variableReferences vars) → Cyclic (Needs references vars)) :
    EvaluatesInOrder ext now timezone vars bindings references := by
  have run := evaluateReady_runs distinct supported deeper (openCount_le_length []) roundsDone_zero
    (fun member _ value bound => by cases bound) List.Pairwise.nil
  change (∃ after, evaluateVars ext now timezone (some (.object vars)) bindings =
    .ok (.object after) ∧ _) ∨ (evaluateVars ext now timezone (some (.object vars)) bindings =
      circularError ∧ _) at run
  rcases run with ⟨after, evaluated, bound, explained, sorted, settles⟩ | ⟨failed, unsettled⟩
  · have settled : ∀ member ∈ vars, ∃ rounds, SettledIn (Needs references vars) rounds member.1 :=
      fun member here => (settles member here).imp fun rounds settled => settled.of_deeper deeper
    have acyclic : ¬Cyclic (Needs references vars) := by
      intro cyclic
      obtain ⟨member, here, never⟩ := (exists_unsettled_iff references).mpr cyclic
      obtain ⟨rounds, here⟩ := settled member here
      exact never rounds here
    refine ⟨fun rounds enough => evaluateReady_eq_evaluateVars enough,
      iff_of_false (by rw [evaluated]; exact fun same => by cases same) acyclic,
      fun _ => ⟨after, evaluated, bound, explained⟩, fun _ only => ?_⟩
    have solves : Solves ext now timezone vars bindings after := by
      refine ⟨sorted, bound, fun member here => ?_⟩
      obtain ⟨value, found⟩ := Option.isSome_iff_exists.mp
        ((bound member.1).mpr ⟨member, here, rfl⟩)
      obtain ⟨earlier, needed, computed⟩ := explained member here value found
      refine ⟨value, found, ?_⟩
      rw [← only member here earlier after fun other needs => ?_, computed]
      obtain ⟨value, first, last⟩ := needed other needs
      rw [first, last]
    refine ⟨after, evaluated, solves, fun other otherSolves => ?_⟩
    refine eq_of_get_eq otherSolves.sorted sorted fun name => ?_
    by_cases declared : Declared vars name
    · obtain ⟨member, here, rfl⟩ := declared
      obtain ⟨rounds, settled⟩ := settled member here
      exact get_eq_of_settled only otherSolves solves ⟨member, here, rfl⟩ settled
    · have absent {object : List (String × Value)} (bound : Bound object name ↔ Declared vars name) :
          (Value.object object).get name = none := by
        rw [← Option.isNone_iff_eq_none, ← not_bound_iff, bound]
        exact declared
      rw [absent (otherSolves.bound name), absent (bound name)]
  · have cyclic := cycles ((exists_unsettled_iff _).mp unsettled)
    exact ⟨fun rounds enough => evaluateReady_eq_evaluateVars enough, iff_of_true failed cyclic,
      fun acyclic => absurd cyclic acyclic, fun acyclic => absurd cyclic acyclic⟩

theorem round_error {result : Value} {halt : Halt}
    (failed : ready.foldlM (evaluateMember ext now timezone bindings) result = .error halt) :
    ∃ errors, halt = .error (expressionErrors errors) := by
  induction ready generalizing result with
  | nil => cases failed
  | cons first rest ih =>
    rw [List.foldlM_cons] at failed
    cases here : evaluateMember ext now timezone bindings result first with
    | ok after =>
      rw [here] at failed
      exact ih failed
    | error own =>
      rw [here] at failed
      cases failed
      unfold evaluateMember evaluateTemplate at here
      split at here
      next => cases here
      next errors _ =>
        cases here
        exact ⟨errors, rfl⟩

theorem evaluateReady_fails {first : String × Value} {rest : List (String × Value)}
    (distinct : ((first :: rest).map Prod.fst).Nodup) {late : Nat}
    (settled : SettledIn (Needs ext.variableReferences (first :: rest)) (late + 1) first.1)
    (fresh : ¬SettledIn (Needs ext.variableReferences (first :: rest)) late first.1)
    (insists : ∀ result, RoundsDone ext (first :: rest) late result → ∀ after,
      evaluateMember ext now timezone bindings (.object result) first ≠ .ok after)
    {fuel rounds : Nat} {result : List (String × Value)}
    (enough : openCount (first :: rest) result ≤ fuel)
    (done : RoundsDone ext (first :: rest) rounds result) (before : rounds ≤ late) :
    ∃ errors, evaluateReady ext now timezone (first :: rest) bindings fuel (.object result) =
      .error (.error (expressionErrors errors)) := by
  have unbound {rounds : Nat} {result : List (String × Value)}
      (done : RoundsDone ext (first :: rest) rounds result) (before : rounds ≤ late) :
      ¬Bound result first.1 := fun bound => fresh (((done first.1).mp bound).2.mono before)
  induction fuel generalizing rounds result with
  | zero =>
    exact absurd (all_bound_of_openCount (Nat.le_zero.mp enough) first List.mem_cons_self)
      (unbound done before)
  | succ fuel ih =>
    rw [evaluateReady_succ, if_neg fun all =>
      unbound done before (all_bound_iff.mp all first List.mem_cons_self)]
    cases ready : readyVars ext (first :: rest) (.object result) with
    | nil =>
      exact absurd (settled_of_stalled distinct done ready ⟨first, List.mem_cons_self, rfl⟩
        settled) (unbound done before)
    | cons head tail =>
      dsimp only
      cases evaluated : (head :: tail).foldlM (evaluateMember ext now timezone bindings)
          (.object result) with
      | error halt =>
        obtain ⟨errors, rfl⟩ := round_error evaluated
        exact ⟨errors, rfl⟩
      | ok after =>
        obtain ⟨members, rfl, bound⟩ := bound_of_round evaluated
        have listed : head ∈ readyVars ext (first :: rest) (.object result) := by
          rw [ready]
          exact List.mem_cons_self
        have fewer := openCount_lt bound (of_mem_readyVars listed).1 List.mem_cons_self
          (of_mem_readyVars listed).2
        rcases before.lt_or_eq with earlier | rfl
        · rw [← ready] at bound
          exact ih (Nat.le_of_lt_succ (fewer.trans_le enough))
            (roundsDone_succ distinct done bound) earlier
        · -- the first variable in the order is the first one of its round
          have own : first ∈ readyVars ext (first :: rest) (.object result) :=
            (mem_readyVars_iff distinct done first).mpr ⟨List.mem_cons_self, fresh, settled⟩
          have leads : head = first := by
            have listed : readyVars ext (first :: rest) (.object result) =
                first :: _ := List.filter_cons_of_pos (List.mem_filter.mp own).2
            rw [listed, List.cons.injEq] at ready
            exact ready.1.symm
          rw [leads, List.foldlM_cons] at evaluated
          obtain ⟨next, here, -⟩ := bind_eq_ok.mp evaluated
          exact absurd here (insists result done next)

end Evaluation

/-- Libraries whose evaluator insists on the variables that a template refers to. -/
def strictExternals (found references : Value → List String) (vars : List (String × Value)) :
    PlannerExternals where
  sha256 := id
  contractDigest _ := .ok ""
  evaluateRuntimeExpression _ _ _ _ := .ok (.bool true)
  evaluateRuntimeTemplate template bindings _ _ :=
    if (references template).all fun name => !(vars.any fun known => known.1 = name) ||
        (((bindings.get "vars").bind fun bound => bound.get name).isSome) then .ok .null
    else .error []
  compileSchema _ := .ok fun _ => []
  outcomeValue _ := .null
  variableReferences := found

variable {found references : Value → List String} {vars : List (String × Value)}

theorem strict_evaluates_iff (distinct : (vars.map Prod.fst).Nodup) {now : DateTime}
    {timezone : Option String} {member : String × Value} (here : member ∈ vars)
    (bound : List (String × Value)) :
    (∃ value, evaluateTemplate (strictExternals found references vars) now timezone member.2
        ((Value.object []).set "vars" (.object bound)) = .ok value) ↔
      ∀ other, Needs references vars member.1 other → Bound bound other := by
  have read : ((Value.object []).set "vars" (.object bound)).get "vars" = some (.object bound) :=
    Value.get_set_self [] "vars" _
  have accepts : ((references member.2).all fun name => !(vars.any fun known => known.1 = name) ||
      ((Value.object bound).get name).isSome) = true ↔
      ∀ other, Needs references vars member.1 other → Bound bound other := by
    simp only [List.all_eq_true, Bool.or_eq_true, Bool.not_eq_true', List.any_eq_false,
      decide_eq_true_eq]
    constructor
    · rintro all other ⟨template, there, listed, known, knownHere, rfl⟩
      obtain rfl := template_unique distinct there here
      exact (all _ listed).resolve_left fun none => none known knownHere rfl
    · intro needed name listed
      by_cases declared : Declared vars name
      · exact .inr (needed name ⟨member.2, here, listed, declared⟩)
      · exact .inl fun known knownHere same => declared ⟨known, knownHere, same⟩
  rw [← accepts]
  unfold evaluateTemplate strictExternals
  dsimp only
  simp only [read, Option.bind_some]
  split_ifs with met
  · exact iff_of_true ⟨.null, rfl⟩ met
  · exact iff_of_false (by rintro ⟨value, same⟩; cases same) met

/-- Under every evaluator that needs the referenced variables only, the variables are evaluated in
the order of their references, whatever the order of iteration is. -/
def DependencyOrdered (found references : Value → List String) (vars : List (String × Value)) :
    Prop :=
  ∀ (ext : PlannerExternals) (now : DateTime) (timezone : Option String)
    (fields : List (String × Value)), ext.variableReferences = found →
    Supported ext now timezone vars (.object fields) references →
    ∀ order : List (String × Value), order.Perm vars →
      EvaluatesInOrder ext now timezone order (.object fields) references ∧
      (¬Cyclic (Needs references vars) →
        DependsOnly ext now timezone vars (.object fields) references →
        evaluateVars ext now timezone (some (.object order)) (.object fields) =
          evaluateVars ext now timezone (some (.object vars)) (.object fields))

variable {order vars : List (String × Value)}

theorem declared_perm (same : order.Perm vars) : Declared order = Declared vars :=
  funext fun _ => propext (exists_congr fun _ => and_congr_left fun _ => same.mem_iff)

theorem needs_perm (same : order.Perm vars)
    (references : Value → List String) : Needs references order = Needs references vars := by
  funext name other
  refine propext (exists_congr fun template => and_congr same.mem_iff (and_congr_right fun _ => ?_))
  rw [declared_perm same]

/-- The evaluation does what it should in every order, if the found references put the others in
order and show no other cycles. -/
theorem dependencyOrdered_of_deeper (distinct : (vars.map Prod.fst).Nodup)
    (deeper : Deeper found references vars)
    (cycles : Cyclic (Needs found vars) → Cyclic (Needs references vars)) :
    DependencyOrdered found references vars := by
  rintro ext now timezone fields rfl supported order same
  have inOrder {order : List (String × Value)} (same : order.Perm vars) :
      EvaluatesInOrder ext now timezone order (.object fields) references := by
    refine evaluatesInOrder_of_deeper ((same.map Prod.fst).nodup_iff.mpr distinct) ?_ ?_ ?_
    · intro member here bound needed
      rw [needs_perm same] at needed
      exact supported member (same.mem_iff.mp here) bound needed
    · unfold Deeper
      rw [needs_perm same, needs_perm same]
      exact deeper
    · rw [needs_perm same, needs_perm same]
      exact cycles
  refine ⟨inOrder same, fun acyclic only => ?_⟩
  obtain ⟨solution, evaluated, -, unique⟩ := (inOrder (.refl vars)).unique acyclic only
  obtain ⟨other, otherEvaluated, solves, -⟩ := (inOrder same).unique
    (by rwa [needs_perm same]) fun member here left right agree =>
      only member (same.mem_iff.mp here) left right (by rwa [needs_perm same] at agree)
  have solved : Solves ext now timezone vars (.object fields) other := by
    refine ⟨solves.sorted, fun name => ?_, fun member here =>
      solves.equations member (same.mem_iff.mpr here)⟩
    rw [solves.bound, declared_perm same]
  rw [otherEvaluated, evaluated, unique other solved]

theorem deeper_of_dependencyOrdered (distinct : (vars.map Prod.fst).Nodup)
    (ordered : DependencyOrdered found references vars) : Deeper found references vars := by
  intro rounds name other settled needs
  by_contra unsettled
  obtain ⟨late, before, own, fresh⟩ := settled.exists_first
  have after : ¬SettledIn (Needs found vars) late other :=
    fun early => unsettled (early.mono (Nat.le_of_lt_succ before))
  obtain ⟨template, here, listed, declared⟩ := needs
  -- the variable comes first in the order of iteration
  have same : ((name, template) :: vars.erase (name, template)).Perm vars :=
    (List.perm_cons_erase here).symm
  have apart := (same.map Prod.fst).nodup_iff.mpr distinct
  have supported : Supported (strictExternals found references vars) 0 none vars (.object [])
      references := fun member here bound needed =>
    (strict_evaluates_iff distinct here bound).mpr needed
  have evaluated := (ordered (strictExternals found references vars) 0 none [] rfl supported _ same).1
  obtain ⟨errors, failed⟩ := @evaluateReady_fails (strictExternals found references vars) 0 none
    (.object []) _ _ apart late
    (by rw [needs_perm same]; exact own) (by rw [needs_perm same]; exact fresh)
    (fun result done after' evaluated => by
      obtain ⟨value, computed, -⟩ := bind_eq_ok.mp evaluated
      have bound := (strict_evaluates_iff distinct here result).mp ⟨value, computed⟩ other
        ⟨template, here, listed, declared⟩
      have early := ((done other).mp bound).2
      rw [needs_perm same] at early
      exact after early)
    _ 0 _ (openCount_le_length []) roundsDone_zero (Nat.zero_le _)
  change evaluateVars _ _ _ (some (.object ((name, template) :: vars.erase (name, template)))) _ = _
    at failed
  by_cases cyclic : Cyclic (Needs references ((name, template) :: vars.erase (name, template)))
  · have circular := failed.symm.trans (evaluated.circular.mpr cyclic)
    simp [circularError, Planning.fail, expressionErrors] at circular
  · obtain ⟨result, complete, -⟩ := evaluated.complete cyclic
    cases failed.symm.trans complete

theorem deeper_of_found
    (finds : ∀ member ∈ vars, ∀ name ∈ references member.2, name ∈ found member.2) :
    Deeper found references vars := by
  rintro rounds name other settled ⟨template, here, listed, declared⟩
  exact settled other ⟨template, here, finds _ here other listed, declared⟩

theorem cyclic_of_found
    (finds : ∀ member ∈ vars, ∀ name ∈ found member.2, name ∈ references member.2)
    (cyclic : Cyclic (Needs found vars)) : Cyclic (Needs references vars) := by
  obtain ⟨item, cycle⟩ := cyclic
  refine ⟨item, Relation.TransGen.mono ?_ item item cycle⟩
  rintro name other ⟨template, here, listed, declared⟩
  exact ⟨template, here, finds _ here other listed, declared⟩

/-- Variables are evaluated in the order of their references if and only if the references found
in the JSON texts put them in that order and close no cycle that the references do not. -/
theorem dependencyOrdered_iff (library : TextLibrary) {vars : List (String × Value)}
    (distinct : (vars.map Prod.fst).Nodup) :
    DependencyOrdered (dependencyNames library) (referencedNames library) vars ↔
      Deeper (dependencyNames library) (referencedNames library) vars ∧
      (Cyclic (Needs (dependencyNames library) vars) →
        Cyclic (Needs (referencedNames library) vars)) := by
  refine ⟨fun ordered => ?_, fun both => dependencyOrdered_of_deeper distinct both.1 both.2⟩
  have deeper := deeper_of_dependencyOrdered distinct ordered
  refine ⟨deeper, fun cyclic => ?_⟩
  have supported : Supported (strictExternals (dependencyNames library) (referencedNames library)
      vars) 0 none vars (.object []) (referencedNames library) := fun member here bound needed =>
    (strict_evaluates_iff distinct here bound).mpr needed
  have evaluated := (ordered _ 0 none [] rfl supported vars (.refl vars)).1
  rcases evaluateReady_runs distinct supported deeper (openCount_le_length []) roundsDone_zero
    (fun member _ value bound => by cases bound) List.Pairwise.nil with
    ⟨_, _, _, _, _, settles⟩ | ⟨failed, _⟩
  · obtain ⟨member, here, never⟩ := (exists_unsettled_iff _).mpr cyclic
    obtain ⟨rounds, settled⟩ := settles member here
    exact absurd settled (never rounds)
  · exact evaluated.circular.mp failed

theorem dependencyOrdered_sample : DependencyOrdered (dependencyNames asciiLibrary)
    (referencedNames asciiLibrary)
    [("a", .object [("$expr", .string "vars.b")]), ("b", .string "x")] := by
  have finds : ∀ member ∈ [("a", Value.object [("$expr", .string "vars.b")]), ("b", .string "x")],
      referencedNames asciiLibrary member.2 = dependencyNames asciiLibrary member.2 := by
    decide +kernel
  refine (dependencyOrdered_iff asciiLibrary (by decide)).mpr
    ⟨deeper_of_found fun member here name listed => ?_,
      cyclic_of_found fun member here name listed => ?_⟩
  · rwa [finds member here] at listed
  · rwa [← finds member here] at listed

/-- A variable that refers to another after a newline is evaluated before it, and fails. -/
theorem variable_after_newline_fails :
    let vars : List (String × Value) :=
      [("a", .object [("$expr", .string "1 +\nvars.b")]), ("b", .number (.posInt 2))]
    evaluateVars (strictExternals (dependencyNames asciiLibrary) (referencedNames asciiLibrary) vars)
        0 none (some (.object vars)) (.object []) = .error (.error (expressionErrors [])) ∧
      ¬DependencyOrdered (dependencyNames asciiLibrary) (referencedNames asciiLibrary) vars := by
  intro vars
  obtain ⟨referenced, found⟩ := newline_hides_reference
  refine ⟨by decide +kernel, fun ordered => ?_⟩
  have deeper := deeper_of_dependencyOrdered (by decide) ordered
  refine deeper 0 "a" "b" ?_ ⟨_, List.mem_cons_self, ?_, _, .tail _ (.head _), rfl⟩
  · rintro other ⟨template, here, listed, -⟩
    obtain rfl := template_unique (by decide) here List.mem_cons_self
    rw [found] at listed
    cases listed
  · rw [referenced]
    exact List.mem_cons_self

end Mdbase.Runtime
