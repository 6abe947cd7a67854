import Mathlib.Data.Finset.Card
import Mathlib.Order.WellFoundedSet

/-!
# Inheritance of types

The types are visited in the order in which the registry lists them. A type takes over what its
parent has, after the parent has been resolved, so that a type may be resolved several times. In
the end each type has what its line of ancestors gives it, in whatever order they were listed.
-/

namespace Mdbase.Types

/-- `StrictMode`. -/
inductive StrictMode where
  | off | warn | error
  deriving DecidableEq, Repr

/-- `TypeDef`, in what is inherited. -/
@[ext] structure TypeDef (Field : Type) where
  extends_ : Option String
  fields : String → Option Field
  strict : Option StrictMode

/-- The types by their names, and the names in the order of the map. -/
@[ext] structure Registry (Field : Type) where
  types : String → Option (TypeDef Field)
  names : List String
  listed : ∀ name, name ∈ names ↔ (types name).isSome

variable {Field : Type}

/-- What a type takes over from its parent. -/
def TypeDef.inherit (child parent : TypeDef Field) : TypeDef Field where
  extends_ := child.extends_
  fields field := (child.fields field).or (parent.fields field)
  strict := child.strict.or parent.strict

theorem TypeDef.inherit_inherit (child parent : TypeDef Field) :
    (child.inherit parent).inherit parent = child.inherit parent := by
  simp [inherit, Option.or_assoc]

/-- A type of the registry takes over what its parent has. -/
def Registry.inherit (registry : Registry Field) (name parent : String) : Registry Field where
  types := Function.update registry.types name ((registry.types name).map fun child =>
    (registry.types parent).elim child child.inherit)
  names := registry.names
  listed other := by
    rw [registry.listed]
    by_cases same : other = name
    · simp [same]
    · rw [Function.update_of_ne same]

/-- `resolve_single`. -/
def resolveSingle (registry : Registry Field) (chain : List String) (name : String) :
    Except String (Registry Field) :=
  if _ : name ∈ chain then
    .error ("Circular inheritance: " ++ " -> ".intercalate chain)
  else match _ : registry.types name with
    | none => .error s!"Unknown type: {name}"
    | some type => match type.extends_ with
      | none => .ok registry
      | some parent =>
        if (registry.types parent).isNone then
          .error s!"Type '{name}' extends unknown type '{parent}'"
        else (resolveSingle registry (chain ++ [name]) parent).map (·.inherit name parent)
termination_by (registry.names.toFinset \ chain.toFinset).card
decreasing_by
  refine Finset.card_lt_card (Finset.ssubset_iff_of_subset ?_ |>.mpr ⟨name, ?_, ?_⟩)
  · exact Finset.sdiff_subset_sdiff subset_rfl (by simp)
  · simp_all [registry.listed]
  · simp

/-- `resolve_inheritance`. -/
def resolveInheritance (registry : Registry Field) : Except String (Registry Field) :=
  registry.names.foldlM (fun registry name => resolveSingle registry [] name) registry

/-- What a type has in all, and the number of its ancestors: their line is known, and ends. -/
inductive Inherits (types : String → Option (TypeDef Field)) : Nat → String → TypeDef Field → Prop
  | root {name type} (found : types name = some type) (last : type.extends_ = none) :
      Inherits types 0 name type
  | child {depth name parent type above} (found : types name = some type)
      (up : type.extends_ = some parent) (inherits : Inherits types depth parent above) :
      Inherits types (depth + 1) name (type.inherit above)

variable {registry state next later : Registry Field} {types : String → Option (TypeDef Field)}
  {name parent : String} {type other above : TypeDef Field} {depth depth' : Nat}

/-- A type is inherited in one way. -/
theorem Inherits.unique (first : Inherits types depth name type)
    (second : Inherits types depth' name other) : depth = depth' ∧ type = other := by
  induction first generalizing depth' other with
  | root found last =>
    cases second with
    | root same => exact ⟨rfl, Option.some.inj (found.symm.trans same)⟩
    | child same up =>
      cases found.symm.trans same
      cases last.symm.trans up
  | child found up _ ih =>
    cases second with
    | root same last =>
      cases found.symm.trans same
      cases last.symm.trans up
    | child same up' inherits =>
      cases found.symm.trans same
      cases up.symm.trans up'
      obtain ⟨rfl, rfl⟩ := ih inherits
      exact ⟨rfl, rfl⟩

/-- A type has itself what its line of ancestors gives it. -/
def Settled (registry state : Registry Field) (name : String) : Prop :=
  ∃ depth type, Inherits registry.types depth name type ∧ state.types name = some type

/-- Each type is as it was, or is settled. -/
def Moves (registry state next : Registry Field) : Prop :=
  ∀ name, next.types name = state.types name ∨ Settled registry next name

theorem Moves.settled (moves : Moves registry state next) (settled : Settled registry state name) :
    Settled registry next name := by
  rcases moves name with same | done
  · rwa [Settled, same]
  · exact done

theorem Moves.trans (first : Moves registry state next) (second : Moves registry next later) :
    Moves registry state later := fun name =>
  (second name).elim (fun same => (first name).imp same.trans second.settled) .inr

theorem Moves.exists_child (moves : Moves registry registry state)
    (found : state.types name = some type) :
    ∃ child, registry.types name = some child ∧ child.extends_ = type.extends_ := by
  rcases moves name with same | ⟨_, _, line, held⟩
  · exact ⟨type, same ▸ found, rfl⟩
  · cases held.symm.trans found
    cases line with
    | root here | child here => exact ⟨_, here, rfl⟩

theorem Moves.inherits (moves : Moves registry registry state)
    (line : Inherits registry.types depth name type) : Inherits state.types depth name type := by
  induction line with
  | @root name type found last =>
    rcases moves name with same | ⟨_, _, whole, held⟩
    · exact .root (same.trans found) last
    · exact .root ((whole.unique (.root found last)).2 ▸ held) last
  | @child _ name _ type above found up line ih =>
    rcases moves name with same | ⟨_, _, whole, held⟩
    · exact .child (same.trans found) up ih
    · have taken : state.types name = some (type.inherit above) :=
        (whole.unique (.child found up line)).2 ▸ held
      exact type.inherit_inherit above ▸ .child taken up ih

theorem Moves.inherit (moves : Moves registry registry state)
    (found : registry.types name = some type) (up : type.extends_ = some parent)
    (above : Settled registry state parent) :
    Moves registry state (state.inherit name parent) ∧
      Settled registry (state.inherit name parent) name := by
  obtain ⟨_, whole, inherits, held⟩ := above
  have line := Inherits.child found up inherits
  have done : Settled registry (state.inherit name parent) name := by
    refine ⟨_, _, line, ?_⟩
    rcases moves name with same | ⟨_, _, before, taken⟩
    · simp [Registry.inherit, same, found, held]
    · simp [Registry.inherit, taken, held, (before.unique line).2, TypeDef.inherit_inherit]
  refine ⟨fun other => ?_, done⟩
  by_cases same : other = name
  · exact .inr (same ▸ done)
  · exact .inl (Function.update_of_ne same _ _)

theorem resolveSingle_ok_iff {chain : List String} :
    resolveSingle state chain name = .ok next ↔ name ∉ chain ∧ ∃ type,
      state.types name = some type ∧ (type.extends_ = none ∧ next = state ∨
        ∃ parent above, type.extends_ = some parent ∧ (state.types parent).isSome ∧
          resolveSingle state (chain ++ [name]) parent = .ok above ∧
          next = above.inherit name parent) := by
  rw [resolveSingle]
  by_cases chained : name ∈ chain
  · simp [chained]
  rw [dif_neg chained]
  split
  next missing => simp [missing]
  next type found =>
    cases up : type.extends_ with
    | none => simp [chained, found, up, @eq_comm _ next]
    | some parent =>
      cases known : state.types parent with
      | none => simp [found, up, known]
      | some held =>
        cases above : resolveSingle state (chain ++ [name]) parent with
        | error => simp [found, up, known, above, Except.map]
        | ok => simp [chained, found, up, known, above, Except.map, @eq_comm _ next]

theorem Moves.single (moves : Moves registry registry state) {chain : List String}
    (result : resolveSingle state chain name = .ok next) :
    Moves registry state next ∧ Settled registry next name := by
  have steps := resolveSingle_ok_iff.mp result
  induction chain, name using resolveSingle.induct state generalizing next with
  | case1 chain name chained => exact absurd chained steps.1
  | case2 chain name _ missing => simp [missing] at steps
  | case3 chain name _ type found last =>
    obtain rfl : next = state := by simpa [found, last] using steps.2
    refine ⟨fun _ => .inl rfl, (moves name).elim (fun same => ?_) id⟩
    exact ⟨_, _, .root (same ▸ found) last, found⟩
  | case4 chain name _ type found parent up unknown =>
    simp [found, up, Option.isNone_iff_eq_none.mp unknown] at steps
  | case5 chain name _ type found parent up _ ih =>
    obtain ⟨above, -, resolves, rfl⟩ : ∃ above, (state.types parent).isSome ∧
        resolveSingle state (chain ++ [name]) parent = .ok above ∧
        next = above.inherit name parent := by simpa [found, up] using steps.2
    obtain ⟨moves', settled⟩ := ih resolves (resolveSingle_ok_iff.mp resolves)
    obtain ⟨child, here, same⟩ := moves.exists_child found
    obtain ⟨last, done⟩ := (moves.trans moves').inherit here (same.trans up) settled
    exact ⟨moves'.trans last, done⟩

theorem Inherits.accepted (inherits : Inherits state.types depth name type) {chain : List String}
    (apart : ∀ other ∈ chain, ∀ depth' type', Inherits state.types depth' other type' →
      depth < depth') :
    ∃ next, resolveSingle state chain name = .ok next := by
  have fresh : name ∉ chain := fun member => absurd (apart name member _ _ inherits) (lt_irrefl _)
  induction inherits generalizing chain with
  | root found last => exact ⟨_, resolveSingle_ok_iff.mpr ⟨fresh, _, found, .inl ⟨last, rfl⟩⟩⟩
  | @child depth name parent type above found up inherits ih =>
    have later : ∀ other ∈ chain ++ [name], ∀ depth' type',
        Inherits state.types depth' other type' → depth < depth' := by
      simp only [List.mem_append, List.mem_singleton]
      rintro other (member | rfl) depth' type' line
      · exact (Nat.lt_succ_self _).trans (apart other member _ _ line)
      · exact (line.unique (.child found up inherits)).1 ▸ Nat.lt_succ_self _
    obtain ⟨next, resolves⟩ := ih later fun member => absurd (later _ member _ _ inherits)
      (lt_irrefl _)
    have known : (state.types parent).isSome := by
      cases inherits with
      | root here | child here => exact here ▸ rfl
    exact ⟨_, resolveSingle_ok_iff.mpr
      ⟨fresh, _, found, .inr ⟨parent, next, up, known, resolves, rfl⟩⟩⟩

theorem Moves.all {names : List String} (moves : Moves registry registry state)
    (result : names.foldlM (fun registry name => resolveSingle registry [] name) state =
      .ok next) :
    Moves registry state next ∧ ∀ name ∈ names, Settled registry next name := by
  induction names generalizing state with
  | nil =>
    cases result
    exact ⟨fun _ => .inl rfl, nofun⟩
  | cons name rest ih =>
    rw [List.foldlM_cons] at result
    cases first : resolveSingle state [] name with
    | error => simp [first, bind, Except.bind] at result
    | ok middle =>
      rw [first] at result
      obtain ⟨moves', settled⟩ := moves.single first
      obtain ⟨last, later⟩ := ih (moves.trans moves') result
      exact ⟨moves'.trans last, List.forall_mem_cons.mpr ⟨last.settled settled, later⟩⟩

theorem Moves.accepted {names : List String} (moves : Moves registry registry state)
    (lines : ∀ name ∈ names, ∃ depth type, Inherits registry.types depth name type) :
    ∃ next, names.foldlM (fun registry name => resolveSingle registry [] name) state =
      .ok next := by
  induction names generalizing state with
  | nil => exact ⟨state, rfl⟩
  | cons name rest ih =>
    obtain ⟨⟨_, _, line⟩, later⟩ := List.forall_mem_cons.mp lines
    obtain ⟨middle, first⟩ := (moves.inherits line).accepted (List.forall_mem_nil _)
    rw [List.foldlM_cons, first]
    exact ih (moves.trans (moves.single first).1) later

theorem Inherits.isSome (line : Inherits types depth name type) : (types name).isSome := by
  cases line with
  | root here | child here => exact here ▸ rfl

/-- All lines of ancestors are known, and end. -/
def Lines (types : String → Option (TypeDef Field)) : Prop :=
  ∀ name, (types name).isSome → ∃ depth type, Inherits types depth name type

theorem resolveInheritance_of_lines (lines : Lines registry.types) :
    ∃ resolved, resolveInheritance registry = .ok resolved :=
  Moves.accepted (fun _ => .inl rfl) fun name member =>
    lines name ((registry.listed name).mp member)

theorem resolveInheritance_ok (result : resolveInheritance registry = .ok next) :
    Lines registry.types ∧ Moves registry registry next ∧ ∀ name type,
      next.types name = some type ↔ ∃ depth, Inherits registry.types depth name type := by
  obtain ⟨moves, settled⟩ := Moves.all (fun _ => .inl rfl) result
  simp only [registry.listed] at settled
  refine ⟨fun name known => ?_, moves, fun name type => ⟨fun found => ?_, fun ⟨_, line⟩ => ?_⟩⟩
  · obtain ⟨depth, type, line, -⟩ := settled name known
    exact ⟨depth, type, line⟩
  · obtain ⟨_, here, -⟩ := moves.exists_child found
    obtain ⟨depth, _, line, held⟩ := settled name (here ▸ rfl)
    cases held.symm.trans found
    exact ⟨depth, line⟩
  · obtain ⟨_, _, same, held⟩ := settled name line.isSome
    rw [held, (line.unique same).2]

/-- A type extends another one. -/
def Extends (types : String → Option (TypeDef Field)) (name parent : String) : Prop :=
  ∃ type, types name = some type ∧ type.extends_ = some parent

theorem Inherits.climb (line : Inherits types depth name type) (up : Extends types name parent) :
    ∃ depth' type', Inherits types depth' parent type' ∧ depth' < depth := by
  obtain ⟨_, found, up⟩ := up
  cases line with
  | root same last =>
    cases found.symm.trans same
    cases up.symm.trans last
  | child same up' line =>
    cases found.symm.trans same
    cases up.symm.trans up'
    exact ⟨_, _, line, Nat.lt_succ_self _⟩

/-- All lines of ancestors are known and end if and only if every type that is extended is known
and no type is an ancestor of itself. -/
theorem lines_iff (registry : Registry Field) :
    Lines registry.types ↔
      (∀ name parent, Extends registry.types name parent → (registry.types parent).isSome) ∧
        ∀ name, ¬Relation.TransGen (Extends registry.types) name name := by
  constructor
  · refine fun lines => ⟨fun name parent up => ?_, fun name cycle => ?_⟩
    · have ⟨_, found, _⟩ := up
      obtain ⟨_, _, line⟩ := lines name (found ▸ rfl)
      obtain ⟨_, _, above, -⟩ := line.climb up
      exact above.isSome
    · obtain ⟨_, ⟨_, found, _⟩, _⟩ := Relation.TransGen.head'_iff.mp cycle
      obtain ⟨most, _, line⟩ := lines name (found ▸ rfl)
      have falls {parent : String}
          (climbs : Relation.TransGen (Extends registry.types) name parent) :
          ∃ depth type, Inherits registry.types depth parent type ∧ depth < most := by
        induction climbs with
        | single up => exact line.climb up
        | tail _ up ih =>
          obtain ⟨_, _, middle, less⟩ := ih
          obtain ⟨_, _, above, less'⟩ := middle.climb up
          exact ⟨_, _, above, less'.trans less⟩
      obtain ⟨_, _, again, less⟩ := falls cycle
      exact less.ne (again.unique line).1
  · rintro ⟨known, acyclic⟩ name member
    have order : IsStrictOrder String fun above name =>
        Relation.TransGen (Extends registry.types) name above :=
      { irrefl := acyclic, trans := fun _ _ _ first second => second.trans first }
    have founded := registry.names.finite_toSet.wellFoundedOn (r := fun above name =>
      Relation.TransGen (Extends registry.types) name above)
    have inside {name : String} := registry.listed name
    refine founded.induction (P := fun name =>
      ∃ depth type, Inherits registry.types depth name type) (inside.mpr member) ?_
    intro name member ih
    obtain ⟨type, found⟩ := Option.isSome_iff_exists.mp (inside.mp member)
    cases up : type.extends_ with
    | none => exact ⟨_, _, .root found up⟩
    | some parent =>
      have above : Extends registry.types name parent := ⟨type, found, up⟩
      obtain ⟨_, _, line⟩ := ih parent (inside.mpr (known _ _ above)) (.single above)
      exact ⟨_, _, .child found up line⟩

/-- Inheritance is resolved if and only if every type that is extended is known and no type is an
ancestor of itself. Then each type has what its line of ancestors gives it, in whatever order the
types are listed, and when they are resolved again. -/
theorem resolveInheritance_exact (registry : Registry Field) :
    ((∃ resolved, resolveInheritance registry = .ok resolved) ↔
      (∀ name parent, Extends registry.types name parent → (registry.types parent).isSome) ∧
        ∀ name, ¬Relation.TransGen (Extends registry.types) name name) ∧
    ∀ resolved, resolveInheritance registry = .ok resolved →
      (∀ name type, resolved.types name = some type ↔
        ∃ depth, Inherits registry.types depth name type) ∧
      ∀ other : Registry Field, other.types = registry.types ∨ other.types = resolved.types →
        ∃ same, resolveInheritance other = .ok same ∧ same.types = resolved.types := by
  rw [← lines_iff]
  refine ⟨⟨fun ⟨_, result⟩ => (resolveInheritance_ok result).1, resolveInheritance_of_lines⟩,
    fun resolved result => ?_⟩
  obtain ⟨lines, moves, whole⟩ := resolveInheritance_ok result
  refine ⟨whole, fun other same => ?_⟩
  have agrees : Lines other.types ∧ ∀ name type, (∃ depth, Inherits other.types depth name type) ↔
      ∃ depth, Inherits registry.types depth name type := by
    rcases same with same | same
    · rw [same]
      exact ⟨lines, fun _ _ => .rfl⟩
    · rw [same]
      have again {name : String} {type : TypeDef Field} (found : resolved.types name = some type) :
          ∃ depth, Inherits registry.types depth name type ∧
            Inherits resolved.types depth name type := by
        obtain ⟨depth, line⟩ := (whole name type).mp found
        exact ⟨depth, line, moves.inherits line⟩
      refine ⟨fun name known => ?_, fun name type => ⟨fun ⟨_, line⟩ => ?_, fun ⟨_, line⟩ =>
        ⟨_, moves.inherits line⟩⟩⟩
      · obtain ⟨type, found⟩ := Option.isSome_iff_exists.mp known
        obtain ⟨depth, -, line⟩ := again found
        exact ⟨depth, type, line⟩
      · obtain ⟨_, found⟩ := Option.isSome_iff_exists.mp line.isSome
        obtain ⟨depth, before, after⟩ := again found
        exact ⟨depth, (line.unique after).2 ▸ before⟩
  obtain ⟨next, resolves⟩ := resolveInheritance_of_lines agrees.1
  refine ⟨next, resolves, funext fun name => Option.ext fun type => ?_⟩
  rw [(resolveInheritance_ok resolves).2.2, whole, agrees.2]

end Mdbase.Types
