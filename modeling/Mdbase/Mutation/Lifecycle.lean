import Mdbase.Fields.References

/-!
# Lifecycle policies

A type can assign fields when a record of it is created or updated. The policies of the matched
types run in the order of the names, after a check that no two of them assign different values to
one field. The check knows a field by its spelling, and each field by the first of its assignments.
-/

namespace Mdbase.Mutation

open Library Fields
open Mdbase.Runtime (Value)

/-- `LifecycleEvent`. -/
inductive LifecycleEvent where
  | create
  | update

/-- `LifecycleEvent::key`. -/
def LifecycleEvent.key : LifecycleEvent → String
  | create => "on_create"
  | update => "on_update"

/-- What the policies are taken from: the clock of the operation, and the `lifecycle` of each type
that is loaded. -/
structure LifecycleHost where
  clockError : Option Text
  lifecycle : String → Option Value

/-- An assignment of a policy, with its `lifecycle_path`. -/
structure LifecycleAssignment where
  typeName : String
  field : String
  provider : Value
  path : String

/-- The diagnostic `type_conflict`:
`Types '{owner}' and '{typeName}' assign different lifecycle values to '{field}'.` -/
structure TypeConflict where
  field : String
  types : List String
  lifecyclePaths : List String

/-- The diagnostics of `apply_mutation_lifecycle` before the actions run. -/
inductive LifecycleFailure where
  | clock (error : Text)
  | typeConflict (conflict : TypeConflict)

/-- The members of an object. -/
def membersOf : Value → List (String × Value)
  | .object members => members
  | _ => []

/-- The assignments of an action. -/
def actionSet (action : Value) : List (String × Value) := (action.get "set").elim [] membersOf

variable (host : LifecycleHost) (event : LifecycleEvent)

/-- The actions of the policy of a type. -/
def policyActions (typeName : String) : Option (List Value) :=
  ((host.lifecycle typeName).bind fun lifecycle => lifecycle.get event.key).map fun
    | .array actions => actions
    | action => [action]

/-- The policies of the types, in the order of their names. -/
def lifecyclePolicies (typeNames : List String) : List (String × List Value) :=
  (typeNames.insertionSort (· ≤ ·)).dedup.filterMap fun typeName =>
    (policyActions host event typeName).map fun actions => (typeName, actions)

/-- The assignments of policies, one after the other. -/
def lifecycleAssignments (policies : List (String × List Value)) : List LifecycleAssignment :=
  policies.flatMap fun (typeName, actions) => actions.zipIdx.flatMap fun (action, index) =>
    (actionSet action).map fun (field, provider) =>
      ⟨typeName, field, provider,
        s!"types/{typeName}/lifecycle/{event.key}/{index}/set/{field}"⟩

/-- The first assignments of fields, and the owners of the fields that are shared. -/
structure Assigned where
  first : List LifecycleAssignment := []
  shared : List (String × String) := []

/-- One assignment is compared with the first of its field. -/
def Assigned.note (assigned : Assigned) (assignment : LifecycleAssignment) :
    Except TypeConflict Assigned :=
  match assigned.first.find? fun other => other.field = assignment.field with
  | none => .ok { assigned with first := assigned.first ++ [assignment] }
  | some owner =>
    if owner.typeName = assignment.typeName then .ok assigned
    else if owner.provider = assignment.provider then
      .ok { assigned with shared := (assignment.field, owner.typeName) :: assigned.shared }
    else .error {
      field := assignment.field
      types := [owner.typeName, assignment.typeName]
      lifecyclePaths := [owner.path, assignment.path] }

/-- `cross_type_assignments`. -/
def crossTypeAssignments (policies : List (String × List Value)) :
    Except TypeConflict (List (String × String)) :=
  ((lifecycleAssignments event policies).foldlM Assigned.note {}).map Assigned.shared

/-- `apply_mutation_lifecycle` up to the actions: the fields that are shared, with their owners.
The diagnostics of the actions have other codes. -/
def sharedAssignments (typeNames : List String) :
    Except LifecycleFailure (List (String × String)) :=
  match host.clockError with
  | some error => .error (.clock error)
  | none => (crossTypeAssignments event (lifecyclePolicies host event typeNames)).mapError
      .typeConflict

/-- Two references are spellings of one location. -/
def SameLocation (left right : String) : Prop :=
  left = right ∨ parse left.toList = parse right.toList ∧ parse left.toList ≠ none

/-- A matched type assigns a provider to a field. -/
def Assigns (typeNames : List String) (typeName field : String) (provider : Value) : Prop :=
  typeName ∈ typeNames ∧ ∃ actions, policyActions host event typeName = some actions ∧
    ∃ action ∈ actions, (field, provider) ∈ actionSet action

/-- Two matched types assign different providers to one location. -/
def Conflict (typeNames : List String) : Prop :=
  ∃ left right : String, left ≠ right ∧ ∃ field other provider different,
    Assigns host event typeNames left field provider ∧
      Assigns host event typeNames right other different ∧
      SameLocation field other ∧ provider ≠ different

/-- The first assignment to a field. -/
def firstOf (assignments : List LifecycleAssignment) (field : String) :
    Option LifecycleAssignment :=
  assignments.find? fun other => other.field = field

/-- An assignment differs from the first one of its spelling, in the type and in the provider. -/
def Differs (assignments : List LifecycleAssignment) (assignment : LifecycleAssignment) : Prop :=
  ∃ owner ∈ firstOf assignments assignment.field,
    owner.typeName ≠ assignment.typeName ∧ owner.provider ≠ assignment.provider

/-- The call reports a conflict of types. -/
def Reports (typeNames : List String) : Prop :=
  ∃ conflict, sharedAssignments host event typeNames = .error (.typeConflict conflict)

/-- A later assignment to a field is not the first. -/
theorem firstOf_append_cons {first : List LifecycleAssignment} {owner head : LifecycleAssignment}
    (found : firstOf first head.field = some owner) (rest : List LifecycleAssignment)
    (field : String) : firstOf (first ++ head :: rest) field = firstOf (first ++ rest) field := by
  simp only [firstOf, List.find?_append, List.find?_cons] at found ⊢
  by_cases same : head.field = field
  · subst same
    simp [found]
  · simp [same]

/-- The fold stops at an assignment that differs from the first one of its spelling. -/
theorem foldlM_note (rest : List LifecycleAssignment) (assigned : Assigned) :
    (∃ conflict, rest.foldlM Assigned.note assigned = .error conflict) ↔
      ∃ assignment ∈ rest, Differs (assigned.first ++ rest) assignment := by
  induction rest generalizing assigned with
  | nil => simp [pure, Except.pure]
  | cons head rest ih =>
    rw [List.foldlM_cons, List.exists_mem_cons_iff]
    cases found : firstOf assigned.first head.field with
    | none =>
      have first : ¬Differs (assigned.first ++ head :: rest) head := by
        rintro ⟨owner, same, differs, _⟩
        simp only [firstOf, List.find?_append, List.find?_cons] at found same
        simp only [found, decide_true, Option.none_or, Option.mem_def, Option.some.injEq] at same
        exact differs (by rw [same])
      have noted :
          assigned.note head = .ok { assigned with first := assigned.first ++ [head] } := by
        simp only [Assigned.note, firstOf] at found ⊢
        rw [found]
      rw [noted, or_iff_right first]
      exact (ih _).trans (by simp)
    | some owner =>
      have differs : Differs (assigned.first ++ head :: rest) head ↔
          owner.typeName ≠ head.typeName ∧ owner.provider ≠ head.provider := by
        rw [Differs, firstOf_append_cons found, firstOf, List.find?_append]
        simp only [firstOf] at found
        simp [found]
      have others : ∀ assignment, Differs (assigned.first ++ head :: rest) assignment ↔
          Differs (assigned.first ++ rest) assignment := fun assignment => by
        rw [Differs, firstOf_append_cons found, ← Differs]
      simp only [differs, others]
      unfold firstOf at found
      simp only [Assigned.note, found]
      split_ifs with sameType sameProvider
      · exact (ih _).trans (by simp [sameType])
      · exact (ih _).trans (by simp [sameProvider])
      · exact iff_of_true ⟨_, rfl⟩ (.inl ⟨sameType, sameProvider⟩)

variable (typeNames : List String)

/-- The assignments of the matched types, in the order of the names. -/
def matchedAssignments : List LifecycleAssignment :=
  lifecycleAssignments event (lifecyclePolicies host event typeNames)

variable {host event typeNames}

theorem reports_iff : Reports host event typeNames ↔ host.clockError = none ∧
    ∃ assignment ∈ matchedAssignments host event typeNames,
      Differs (matchedAssignments host event typeNames) assignment := by
  have stops := foldlM_note (matchedAssignments host event typeNames) {}
  rw [List.nil_append] at stops
  unfold Reports sharedAssignments
  rw [← stops]
  cases host.clockError with
  | some error => simp
  | none =>
    simp only [crossTypeAssignments, matchedAssignments, true_and]
    cases (lifecycleAssignments event (lifecyclePolicies host event typeNames)).foldlM
      Assigned.note {} with
    | error conflict => exact iff_of_true ⟨_, rfl⟩ ⟨_, rfl⟩
    | ok assigned => exact iff_of_false (by rintro ⟨_, ⟨⟩⟩) (by rintro ⟨_, ⟨⟩⟩)

theorem assigns_of_mem {assignment : LifecycleAssignment}
    (inside : assignment ∈ matchedAssignments host event typeNames) :
    Assigns host event typeNames assignment.typeName assignment.field assignment.provider := by
  simp only [matchedAssignments, lifecycleAssignments, lifecyclePolicies, List.mem_flatMap,
    List.mem_filterMap, List.mem_dedup, List.mem_insertionSort, Option.map_eq_some_iff,
    List.mem_map] at inside
  obtain ⟨_, ⟨typeName, named, actions, policy, rfl⟩, ⟨action, index⟩, numbered, setting, member,
    rfl⟩ := inside
  exact ⟨named, actions, policy, action, (List.mem_zipIdx' numbered).2 ▸ List.getElem_mem _, member⟩

/-- A conflict that is reported is one. -/
theorem Reports.conflict (reports : Reports host event typeNames) :
    Conflict host event typeNames := by
  obtain ⟨-, assignment, inside, owner, first, types, providers⟩ := reports_iff.mp reports
  have same := List.find?_some (show List.find? _ _ = some owner from first)
  rw [decide_eq_true_eq] at same
  exact ⟨owner.typeName, assignment.typeName, types, _, _, _, _,
    assigns_of_mem (List.mem_of_find?_eq_some first), assigns_of_mem inside, .inl same, providers⟩

theorem exists_mem_matchedAssignments {typeName field : String} {provider : Value}
    (assigns : Assigns host event typeNames typeName field provider) :
    ∃ assignment ∈ matchedAssignments host event typeNames, assignment.typeName = typeName ∧
      assignment.field = field ∧ assignment.provider = provider := by
  obtain ⟨named, actions, policy, action, acts, sets⟩ := assigns
  obtain ⟨index, bound, here⟩ := List.getElem_of_mem acts
  have numbered : (action, index) ∈ actions.zipIdx :=
    List.mem_zipIdx_iff_getElem?.mpr (here ▸ List.getElem?_eq_getElem bound)
  refine ⟨⟨typeName, field, provider,
    s!"types/{typeName}/lifecycle/{event.key}/{index}/set/{field}"⟩, ?_, rfl, rfl, rfl⟩
  simp only [matchedAssignments, lifecycleAssignments, lifecyclePolicies, List.mem_flatMap,
    List.mem_filterMap, List.mem_dedup, List.mem_insertionSort, Option.map_eq_some_iff,
    List.mem_map]
  exact ⟨_, ⟨typeName, named, actions, policy, rfl⟩, _, numbered, _, sets, rfl⟩

/-- A field that is assigned has a first assignment, by a matched type. -/
theorem exists_firstOf {typeName field : String} {provider : Value}
    (assigns : Assigns host event typeNames typeName field provider) :
    ∃ owner, firstOf (matchedAssignments host event typeNames) field = some owner ∧
      Assigns host event typeNames owner.typeName field owner.provider := by
  obtain ⟨assignment, inside, -, rfl, -⟩ := exists_mem_matchedAssignments assigns
  cases first : firstOf (matchedAssignments host event typeNames) assignment.field with
  | none =>
    have unequal := List.find?_eq_none.mp first assignment inside
    exact absurd (decide_eq_true rfl) unequal
  | some owner =>
    have same := List.find?_some first
    rw [decide_eq_true_eq] at same
    exact ⟨owner, rfl, same ▸ assigns_of_mem (List.mem_of_find?_eq_some first)⟩

/-- The same types under other names: they are listed in any order, as are the actions of each. -/
structure Rearranges (event : LifecycleEvent) (host other : LifecycleHost)
    (typeNames otherNames : List String) (rename : String → String) : Prop where
  clock : other.clockError = host.clockError
  injective : ∀ left ∈ typeNames, ∀ right ∈ typeNames, rename left = rename right → left = right
  names : ∀ typeName, typeName ∈ otherNames ↔ ∃ name ∈ typeNames, rename name = typeName
  actions : ∀ name ∈ typeNames,
    Option.Rel List.Perm (policyActions host event name) (policyActions other event (rename name))

theorem Rearranges.refl (host : LifecycleHost) (event : LifecycleEvent) (typeNames : List String) :
    Rearranges event host host typeNames typeNames id where
  clock := rfl
  injective := fun _ _ _ _ same => same
  names := fun typeName => ⟨fun named => ⟨typeName, named, rfl⟩, fun ⟨_, named, same⟩ => same ▸ named⟩
  actions := fun name _ => by
    rw [id]
    cases policyActions host event name with
    | none => exact .none
    | some actions => exact .some (List.Perm.refl actions)

/-- A type that shares the spelling of a field with another one gives it one provider. -/
def Steady (host : LifecycleHost) (event : LifecycleEvent) (typeNames : List String) : Prop :=
  ∀ left right : String, left ≠ right → ∀ field first second shared,
    Assigns host event typeNames left field first →
      Assigns host event typeNames left field second →
        Assigns host event typeNames right field shared → first = second

/-- Types that spell one location in two ways give it one provider. -/
def Aligned (host : LifecycleHost) (event : LifecycleEvent) (typeNames : List String) : Prop :=
  ∀ left right : String, left ≠ right → ∀ field spelling provider other, field ≠ spelling →
    SameLocation field spelling → Assigns host event typeNames left field provider →
      Assigns host event typeNames right spelling other → provider = other

variable {other : LifecycleHost} {otherNames : List String} {rename : String → String}

/-- An assignment of a rearranged type is one of the type. -/
theorem Rearranges.assigns (rearranges : Rearranges event host other typeNames otherNames rename)
    {typeName field : String} {provider : Value} :
    Assigns other event otherNames typeName field provider ↔
      ∃ name, rename name = typeName ∧ Assigns host event typeNames name field provider := by
  have same {name : String} (named : name ∈ typeNames) :
      (∃ actions, policyActions other event (rename name) = some actions ∧
          ∃ action ∈ actions, (field, provider) ∈ actionSet action) ↔
        ∃ actions, policyActions host event name = some actions ∧
          ∃ action ∈ actions, (field, provider) ∈ actionSet action := by
    have order := rearranges.actions name named
    generalize policyActions host event name = left at order ⊢
    generalize policyActions other event (rename name) = right at order ⊢
    cases order with
    | none => exact Iff.rfl
    | some order => simp only [Option.some.injEq, exists_eq_left', order.mem_iff]
  constructor
  · rintro ⟨named, sets⟩
    obtain ⟨name, inside, rfl⟩ := (rearranges.names typeName).mp named
    exact ⟨name, rfl, inside, (same inside).mp sets⟩
  · rintro ⟨name, rfl, inside, sets⟩
    exact ⟨(rearranges.names _).mpr ⟨name, inside, rfl⟩, (same inside).mpr sets⟩

theorem Rearranges.conflict (rearranges : Rearranges event host other typeNames otherNames rename)
    (conflict : Conflict other event otherNames) : Conflict host event typeNames := by
  obtain ⟨_, _, apart, field, spelling, provider, different, first, second, rest⟩ := conflict
  obtain ⟨left, rfl, assignsLeft⟩ := rearranges.assigns.mp first
  obtain ⟨right, rfl, assignsRight⟩ := rearranges.assigns.mp second
  exact ⟨left, right, fun same => apart (same ▸ rfl), field, spelling, provider, different,
    assignsLeft, assignsRight, rest⟩

/-- Between steady and aligned types, a conflict differs from the first assignment of its spelling
in every arrangement. -/
theorem Rearranges.reports (rearranges : Rearranges event host other typeNames otherNames rename)
    (clock : host.clockError = none) (steady : Steady host event typeNames)
    (aligned : Aligned host event typeNames) (conflict : Conflict host event typeNames) :
    Reports other event otherNames := by
  obtain ⟨left, right, apart, field, spelling, provider, different, first, second, location,
    differ⟩ := conflict
  obtain rfl : field = spelling := by_contra fun unequal =>
    differ (aligned left right apart _ _ _ _ unequal location first second)
  obtain ⟨owner, found, owns⟩ := exists_firstOf (rearranges.assigns.mpr ⟨left, rfl, first⟩)
  obtain ⟨name, named, owns⟩ := rearranges.assigns.mp owns
  -- one of the two assignments differs from the first one, and is of another type
  have visible {typeName : String} {given : Value}
      (sets : Assigns host event typeNames typeName field given) (others : typeName ≠ name)
      (unlike : owner.provider ≠ given) : Reports other event otherNames := by
    obtain ⟨assignment, inside, called, rfl, rfl⟩ :=
      exists_mem_matchedAssignments (rearranges.assigns.mpr ⟨typeName, rfl, sets⟩)
    refine reports_iff.mpr ⟨rearranges.clock.trans clock, assignment, inside, owner, found, ?_, unlike⟩
    rw [← named, called]
    exact fun same => others (rearranges.injective _ owns.1 _ sets.1 same).symm
  by_cases leftOwns : left = name
  · subst leftOwns
    have same := steady left right apart field _ _ _ owns first second
    exact visible second (Ne.symm apart) (same ▸ differ)
  by_cases rightOwns : right = name
  · subst rightOwns
    have same := steady right left (Ne.symm apart) field _ _ _ owns second first
    exact visible first apart (same ▸ Ne.symm differ)
  by_cases agrees : owner.provider = provider
  · exact visible second rightOwns (agrees ▸ differ)
  · exact visible first leftOwns agrees

end Mdbase.Mutation
