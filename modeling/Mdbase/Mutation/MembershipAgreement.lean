import Mdbase.Mutation.Membership

/-!
# A later read sees the types that a write chose

A write accepts the declarations of a record only without errors. Then its reading of
them is the reader's, name by name: a known name is an ASCII text, and the two ways of
lowering the case agree on it. A record that declares nothing is classified by one
function on both sides.
-/

namespace Mdbase.Mutation

open Library
open Mdbase.Runtime (Value)
open Mdbase.Query (Diagnostic asciiLower eqIgnoreAsciiCase)

variable {environment : Environment} {collection : Collection environment}

/-- `str::is_ascii`. -/
def IsAscii (text : String) : Prop := ∀ character ∈ text.toList, character.toNat < 128

/-- Lowering the case of ASCII texts is what `str::to_lowercase` does to them. -/
def Environment.FoldsAscii (environment : Environment) : Prop :=
  ∀ text, IsAscii text → environment.toLowercase text = asciiLower text

/-- The names of the types are ASCII texts. -/
def Collection.AsciiNames (collection : Collection environment) : Prop :=
  ∀ entry ∈ collection.types, IsAscii entry.1

theorem toNat_lt_of_toLower {character : Char} (lower : character.toLower.toNat < 128) :
    character.toNat < 128 := by
  unfold Char.toLower at lower
  split at lower
  next upper =>
    have bound : character.val ≤ 'Z'.val := upper.2
    have := UInt32.le_iff_toNat_le.mp bound
    change character.val.toNat < 128
    exact lt_of_le_of_lt this (by decide)
  next => exact lower

theorem isAscii_of_asciiLower {text : String} (ascii : IsAscii (asciiLower text)) :
    IsAscii text := by
  intro character member
  refine toNat_lt_of_toLower (ascii _ ?_)
  rw [asciiLower, String.toList_map]
  exact List.mem_map_of_mem member

theorem knownType_ok (folds : environment.FoldsAscii) (ascii : collection.AsciiNames)
    {name path field known : String} (ok : knownType collection name path field = .ok known) :
    environment.toLowercase name = known := by
  simp only [knownType] at ok
  split at ok
  next => cases ok
  rename_i listed
  cases ok
  obtain ⟨entry, member, same⟩ := List.mem_map.mp (not_not.mp listed)
  exact folds name (isAscii_of_asciiLower (same ▸ ascii entry member))

variable {types : List String}

theorem mem_canonicalize {name : String} : name ∈ canonicalize types ↔ name ∈ types := by
  rw [canonicalize, List.mem_dedup, List.mem_insertionSort]

theorem nodup_canonicalize (types : List String) : (canonicalize types).Nodup := List.nodup_dedup _

theorem sorted_canonicalize (types : List String) : (canonicalize types).Pairwise (· ≤ ·) :=
  (List.pairwise_insertionSort _ types).sublist (List.dedup_sublist _)

/-- A write and a reader heard the same, unless the write noted an error. -/
structure Accepts (before after : Declarations) (heard now : Reading) : Prop where
  present : after.present = before.present
  errors : after.errors = [] → before.errors = []
  types : after.errors = [] → heard.types = before.explicit → now.types = after.explicit
  explicit : after.errors = [] → now.hasExplicit = true

theorem Accepts.trans {first second third : Declarations} {heard now later : Reading}
    (left : Accepts first second heard now) (right : Accepts second third now later) :
    Accepts first third heard later where
  present := right.present.trans left.present
  errors none_ := left.errors (right.errors none_)
  types none_ same := right.types none_ (left.types (right.errors none_) same)
  explicit none_ := right.explicit none_

theorem Accepts.of_error (declarations : Declarations) (heard now : Reading) (error : Diagnostic) :
    Accepts declarations { declarations with errors := declarations.errors ++ [error] } heard
      now where
  present := rfl
  errors none_ := by simp at none_
  types none_ := by simp at none_
  explicit none_ := by simp at none_

section Agreement

variable (folds : environment.FoldsAscii) (ascii : collection.AsciiNames)

include folds ascii

theorem Accepts.name (path key name : String) (declarations : Declarations) (heard : Reading) :
    Accepts declarations (declarations.name collection path key name) heard
      (heard.name environment name) := by
  unfold Declarations.name
  cases known : knownType collection name path key with
  | ok canonical =>
    exact
      { present := rfl
        errors := id
        types := fun _ same => by
          rw [Reading.name, same, knownType_ok folds ascii known]
        explicit := fun _ => rfl }
  | error errors =>
    simp only [knownType] at known
    split at known
    next =>
      cases known
      exact .of_error ..
    next => cases known

theorem Accepts.item (path key : String) (item : Value × Nat) (declarations : Declarations)
    (heard : Reading) :
    Accepts declarations (declarations.item collection path key item) heard
      (heard.item environment item.1) := by
  obtain ⟨value, index⟩ := item
  cases value with
  | string name =>
    change Accepts _ (if name.isEmpty then _ else _) heard (heard.name environment name)
    split
    next => exact .of_error ..
    next => exact .name folds ascii ..
  | _ => exact .of_error ..

theorem Accepts.items (path key : String) (first : Value × Nat) (rest : List (Value × Nat))
    (declarations : Declarations) (heard : Reading) :
    Accepts declarations ((first :: rest).foldl (Declarations.item collection path key)
      declarations) heard
      (((first :: rest).map Prod.fst).foldl (Reading.item environment) heard) := by
  induction rest generalizing first declarations heard with
  | nil => exact .item folds ascii ..
  | cons second rest ih =>
    exact (Accepts.item folds ascii path key first declarations heard).trans (ih second _ _)

theorem Accepts.key (path : String) {key : String} {draft : Members} {value : Value}
    (declared : getMember draft key = some value) (declarations : Declarations) (heard : Reading) :
    Accepts declarations (declarations.value collection path key value) heard
      (heard.key environment (.object draft) key) := by
  have found : (Value.object draft).get key = some value := declared
  unfold Reading.key
  rw [found]
  cases value with
  | string name =>
    change Accepts _ (if name.isEmpty then _ else _) heard (if name.isEmpty then _ else _)
    split
    next => exact .of_error ..
    next => exact .name folds ascii ..
  | array items =>
    cases items with
    | nil => exact .of_error ..
    | cons first rest =>
      have heads : (first :: rest).zipIdx.map Prod.fst = first :: rest := List.zipIdx_map_fst 0 _
      rw [List.zipIdx_cons] at heads
      have both := Accepts.items folds ascii path key (first, 0) (rest.zipIdx (0 + 1))
        declarations heard
      rw [heads] at both
      exact both
  | _ => exact .of_error ..

theorem reading_of_declarations (draft : Members) (path : String) (keys : List String)
    (declarations : Declarations) (heard : Reading)
    (same : declarations.errors = [] →
      heard.types = declarations.explicit ∧ heard.hasExplicit = declarations.present)
    (accepted : (keys.foldl (Declarations.key collection draft path) declarations).errors = []) :
    let after := keys.foldl (Declarations.key collection draft path) declarations
    let now := keys.foldl (Reading.key environment (.object draft)) heard
    now.types = after.explicit ∧ now.hasExplicit = after.present := by
  induction keys generalizing declarations heard with
  | nil => exact same accepted
  | cons key keys ih =>
    refine ih _ _ (fun none_ => ?_) accepted
    unfold Declarations.key at none_ ⊢
    cases declared : getMember draft key with
    | none =>
      rw [declared] at none_
      have silent : heard.key environment (.object draft) key = heard := by
        have absent : (Value.object draft).get key = none := declared
        rw [Reading.key, absent]
      rw [silent]
      exact same none_
    | some value =>
      rw [declared] at none_
      have both := Accepts.key folds ascii path declared { declarations with present := true } heard
      exact ⟨both.types none_ (same (both.errors none_)).1,
        (both.explicit none_).trans both.present.symm⟩

theorem explicitMembership_ok {draft : Members} {path : String} {explicit : List String}
    {present : Bool} (ok : explicitMembership collection draft path = .ok (explicit, present)) :
    let reading := collection.explicitTypeKeys.foldl (Reading.key environment (.object draft)) {}
    canonicalize reading.types = explicit ∧ reading.hasExplicit = present := by
  unfold explicitMembership at ok
  simp only [ne_eq, ite_not] at ok
  split at ok
  next sorted =>
    cases ok
    have none_ := List.perm_nil.mp (sorted ▸ (sortBy_perm compareDeclared _).symm)
    obtain ⟨types, shown⟩ := reading_of_declarations folds ascii draft path
      collection.explicitTypeKeys {} {} (fun _ => ⟨rfl, rfl⟩) none_
    exact ⟨by rw [types], shown⟩
  next => cases ok

end Agreement

variable {path : String} {draft : Members} {clock : environment.Clock}

theorem implicitMembership_ok (ok : implicitMembership collection draft path clock = .ok types) :
    let read := determineTypesForPathChecked collection (.object draft) (some path) clock
    read.2 = [] ∧ canonicalize read.1 = types := by
  simp only [implicitMembership, ne_eq, ite_not] at ok
  split at ok
  next sorted =>
    cases ok
    have none_ := List.perm_nil.mp (sorted ▸ (sortBy_perm _ _).symm)
    exact ⟨List.map_eq_nil_iff.mp none_, rfl⟩
  next => cases ok

/-- The types of a write are in order, and a reader of a record that passed the final
check finds them. -/
structure ResolvedWriteMembership.Settled (membership : ResolvedWriteMembership environment)
    (collection : Collection environment) : Prop where
  sorted : membership.types.Pairwise (· ≤ ·)
  nodup : membership.types.Nodup
  readsBack : ∀ raw path, membership.revalidate collection raw path = .ok () →
    let read := determineTypesForPathChecked collection (.object raw) (some path)
      membership.evaluationClock
    read.2 = [] ∧ ∀ name, name ∈ read.1 ↔ name ∈ membership.types

/-- A draft as it was, or with the selected type added to an explicit type key. -/
inductive Persisted (keys : List String) (selected : Option String) (draft : Members) :
    Members → Prop where
  | kept : Persisted keys selected draft draft
  | named {key name : String} (configured : key ∈ keys) (chosen : selected = some name)
      (absent : getMember draft key = none) :
      Persisted keys selected draft (insertMember draft key (.string name))
  | appended {key name : String} {items : List Value} (configured : key ∈ keys)
      (chosen : selected = some name) (listed : getMember draft key = some (.array items)) :
      Persisted keys selected draft (insertMember draft key (.array (items ++ [.string name])))

variable {membership : ResolvedWriteMembership environment}

theorem ResolvedWriteMembership.check_ok {present : Bool} {after : List String}
    (ok : membership.check path present after = .ok ()) : after = membership.types := by
  unfold ResolvedWriteMembership.check at ok
  split at ok
  next => cases ok
  split at ok
  next => cases ok
  next same => exact not_not.mp same

theorem ResolvedWriteMembership.revalidate_ok (folds : environment.FoldsAscii)
    (ascii : collection.AsciiNames)
    {raw : Members} (ok : membership.revalidate collection raw path = .ok ()) :
    let read := determineTypesForPathChecked collection (.object raw) (some path)
      membership.evaluationClock
    read.2 = [] ∧ canonicalize read.1 = membership.types := by
  unfold ResolvedWriteMembership.revalidate at ok
  split at ok
  next => split at ok <;> cases ok
  rename_i explicit present accepted
  obtain ⟨types, shown⟩ := explicitMembership_ok folds ascii accepted
  cases present with
  | true =>
    have same := check_ok ok
    simp only [determineTypesForPathChecked, shown, if_true, true_and]
    exact types.trans same
  | false =>
    cases inferred : implicitMembership collection raw path membership.evaluationClock with
    | error errors =>
      rw [inferred] at ok
      cases ok
    | ok after =>
      rw [inferred] at ok
      have same : after = membership.types := check_ok ok
      exact same ▸ implicitMembership_ok inferred

theorem ResolvedWriteMembership.settled (membership : ResolvedWriteMembership environment)
    (folds : environment.FoldsAscii) (ascii : collection.AsciiNames) {names : List String}
    (canonical : membership.types = canonicalize names) :
    membership.Settled collection where
  sorted := canonical ▸ sorted_canonicalize names
  nodup := canonical ▸ nodup_canonicalize names
  readsBack := by
    intro raw path ok
    obtain ⟨failures, types⟩ := revalidate_ok folds ascii ok
    exact ⟨failures, fun name => by rw [← types, mem_canonicalize]⟩

theorem classify_ok (folds : environment.FoldsAscii) (ascii : collection.AsciiNames)
    (ok : classify collection draft path clock = .ok types) :
    ∃ names, types = canonicalize names := by
  simp only [classify, bind, Except.bind] at ok
  split at ok
  next => cases ok
  rename_i declared accepted
  split at ok
  next =>
    cases ok
    exact ⟨_, (explicitMembership_ok folds ascii accepted).1.symm⟩
  next => exact ⟨_, (implicitMembership_ok ok).2.symm⟩

theorem listAt_eq_some {key : String} {items : List Value}
    (listed : listAt draft key = some items) : getMember draft key = some (.array items) := by
  unfold listAt at listed
  cases declared : getMember draft key with
  | none =>
    rw [declared] at listed
    cases listed
  | some value =>
    rw [declared] at listed
    cases value <;> cases listed
    rfl

variable {draft after : Members}

theorem persistSelected_ok {selected path : String}
    (ok : persistSelected collection draft selected path = .ok after) :
    Persisted collection.explicitTypeKeys (some selected) draft after := by
  simp only [persistSelected] at ok
  split at ok
  next =>
    cases ok
    exact .kept
  split at ok
  next key found =>
    cases ok
    have holds : (listAt draft key).isSome := by simpa using List.find?_some found
    obtain ⟨items, listed⟩ := Option.isSome_iff_exists.mp holds
    rw [listed, Option.getD_some]
    exact .appended (List.mem_of_find?_eq_some found) rfl (listAt_eq_some listed)
  split at ok
  next key found =>
    cases ok
    have free : (getMember draft key).isNone := by simpa using List.find?_some found
    exact .named (List.mem_of_find?_eq_some found) rfl (Option.isNone_iff_eq_none.mp free)
  split at ok
  next =>
    cases ok
    exact .kept
  next => cases ok

variable {requested : Option String}

theorem requestedType_ok {known : Option String}
    (ok : requestedType collection requested path = .ok known) :
    known = requested.map asciiLower := by
  cases requested with
  | none =>
    cases ok
    rfl
  | some name =>
    simp only [requestedType, knownType] at ok
    split at ok
    next => cases ok
    split at ok
    next => cases ok
    cases ok
    rfl

theorem selectImplementation_ok {contract version path selected : String} {eligible : List String}
    (ok : selectImplementation contract version path requested eligible = .ok selected) :
    selected ∈ eligible ∧ ∀ name, requested = some name → name = selected := by
  unfold selectImplementation at ok
  split at ok
  next name =>
    split at ok
    next member =>
      cases ok
      exact ⟨member, fun name same => (Option.some.inj same).symm⟩
    next => cases ok
  split at ok
  next name =>
    cases ok
    exact ⟨List.mem_singleton_self _, fun name absurd_ => by cases absurd_⟩
  next => cases ok

/-- A designated contract has an implementation, and it is the one requested. -/
theorem resolveContract_ok {contract version requested designated : Option String}
    (ok : resolveContract collection contract version requested path = .ok designated) :
    (∀ id, contract = some id → ∃ number name implementation, version = some number ∧
      designated = some name ∧ implementation ∈ collection.implementations id number ∧
        asciiLower implementation = name) ∧
    ∀ name other, designated = some name → requested = some other → other = name := by
  unfold resolveContract at ok
  split at ok
  next =>
    cases ok
    exact ⟨fun id absurd_ => (by cases absurd_), fun name other absurd_ => by cases absurd_⟩
  next id number =>
    unfold nonEmptyString at ok
    by_cases named : id.isEmpty
    · rw [if_pos named] at ok
      cases ok
    by_cases numbered : number.isEmpty
    · rw [if_neg named, if_pos numbered] at ok
      cases ok
    rw [if_neg named, if_neg numbered] at ok
    simp only [bind, Except.bind] at ok
    split at ok
    next => cases ok
    split at ok
    next => cases ok
    split at ok
    next => cases ok
    split at ok
    next => cases ok
    cases chosen : selectImplementation id number path requested
      (canonicalize ((collection.implementations id number).map asciiLower)) with
    | error errors =>
      rw [chosen] at ok
      cases ok
    | ok name =>
      rw [chosen] at ok
      cases ok
      obtain ⟨member, agrees⟩ := selectImplementation_ok chosen
      obtain ⟨implementation, implements_, lowered⟩ :=
        List.mem_map.mp (mem_canonicalize.mp member)
      refine ⟨?_, ?_⟩
      · rintro id' ⟨⟩
        exact ⟨number, name, implementation, rfl, rfl, implements_, lowered⟩
      · rintro name' other ⟨⟩ asked
        exact agrees other asked
  next => cases ok

variable {initiallyExplicit : Bool} {selected : Option String}

theorem initialTypes_ok {explicit types : List String}
    (ok : initialTypes collection draft path clock explicit initiallyExplicit selected =
      .ok types) :
    ∃ names, types = canonicalize names ∧ ∀ name, selected = some name → name ∈ names := by
  unfold initialTypes at ok
  split at ok
  next =>
    cases ok
    refine ⟨_, rfl, ?_⟩
    rintro name rfl
    exact List.mem_append_right _ (List.mem_singleton_self name)
  split at ok
  next => cases ok
  rename_i inferred classified
  split at ok
  next name =>
    cases ok
    refine ⟨_, rfl, ?_⟩
    rintro name' ⟨⟩
    exact List.mem_append_right _ (List.mem_singleton_self _)
  cases ok
  refine ⟨_, (implicitMembership_ok classified).2.symm, ?_⟩
  rintro name ⟨⟩

theorem persistTypes_ok {types reopened : List String}
    (ok : persistTypes collection draft path clock types initiallyExplicit selected =
      .ok (reopened, after)) :
    reopened = types ∧ Persisted collection.explicitTypeKeys selected draft after := by
  unfold persistTypes at ok
  split at ok
  next =>
    cases ok
    exact ⟨rfl, .kept⟩
  rename_i name chosen
  obtain ⟨rfl, _⟩ := Option.filter_eq_some_iff.mp chosen
  simp only [bind, Except.bind] at ok
  split at ok
  next => cases ok
  rename_i stored persisted
  split at ok
  next => cases ok
  split at ok
  next => cases ok
  next same =>
    cases ok
    exact ⟨not_not.mp same, persistSelected_ok persisted⟩

variable {answer : Except CelFailure environment.Clock}

theorem resolveCreate_ok {requested contract contractVersion : Option String}
    (ok : resolveCreate collection requested contract contractVersion draft path answer =
      .ok (membership, after)) :
    resolveContract collection contract contractVersion (requested.map asciiLower) path =
        .ok membership.designatedContractType ∧
      membership.pathType = membership.designatedContractType.or (requested.map asciiLower) ∧
      (∃ names, membership.types = canonicalize names ∧
        ∀ name, membership.pathType = some name → name ∈ names) ∧
      Persisted collection.explicitTypeKeys membership.pathType draft after := by
  simp only [resolveCreate, bind, Except.bind] at ok
  split at ok
  next => cases ok
  rename_i declared accepted
  obtain ⟨explicit, present⟩ := declared
  split at ok
  next => cases ok
  rename_i known named
  cases requestedType_ok named
  split at ok
  next => cases ok
  rename_i designated resolved
  split at ok
  next => cases ok
  rename_i clock captured
  split at ok
  next => cases ok
  rename_i types settled
  split at ok
  next => cases ok
  rename_i stored persisted
  obtain ⟨reopened, written⟩ := stored
  cases ok
  obtain ⟨rfl, stored⟩ := persistTypes_ok persisted
  exact ⟨resolved, rfl, initialTypes_ok settled, stored⟩

theorem resolveUpdate_ok (folds : environment.FoldsAscii) (ascii : collection.AsciiNames)
    (ok : resolveUpdate collection draft path answer = .ok membership) :
    ∃ names, membership.types = canonicalize names := by
  simp only [resolveUpdate, bind, Except.bind] at ok
  split at ok
  next => cases ok
  split at ok
  next => cases ok
  rename_i types classified
  split at ok
  next => cases ok
  cases ok
  exact classify_ok folds ascii classified

/-- The types of a write are in order, hold the requested type and that of the contract,
and are declared by one change of the draft at most; a record that passes the final check
is read with them. -/
theorem writes_read_back (folds : environment.FoldsAscii) (ascii : collection.AsciiNames) :
    (∀ requested contract contractVersion draft path answer membership after,
      resolveCreate collection requested contract contractVersion draft path answer =
        .ok (membership, after) →
      membership.Settled collection ∧
      (∀ name, requested = some name → asciiLower name ∈ membership.types) ∧
      (∀ id, contract = some id → ∃ version name implementation,
        contractVersion = some version ∧ membership.designatedContractType = some name ∧
        implementation ∈ collection.implementations id version ∧
        asciiLower implementation = name ∧ name ∈ membership.types) ∧
      membership.pathType = membership.designatedContractType.or (requested.map asciiLower) ∧
      Persisted collection.explicitTypeKeys membership.pathType draft after) ∧
    ∀ draft path answer membership,
      resolveUpdate collection draft path answer = .ok membership →
      membership.Settled collection := by
  refine ⟨?_, ?_⟩
  · intro requested contract contractVersion draft path answer membership after ok
    obtain ⟨resolved, selection, ⟨names, canonical, listed⟩, persisted⟩ := resolveCreate_ok ok
    obtain ⟨implemented, agrees⟩ := resolveContract_ok resolved
    have holds : ∀ name, membership.pathType = some name → name ∈ membership.types := by
      intro name selected
      rw [canonical, mem_canonicalize]
      exact listed name selected
    refine ⟨membership.settled folds ascii canonical, ?_, ?_, selection, persisted⟩
    · rintro name rfl
      refine holds _ ?_
      cases designated : membership.designatedContractType with
      | none => rw [selection, designated, Option.none_or, Option.map_some]
      | some other => rw [selection, designated, Option.some_or, agrees other _ designated rfl]
    · intro id given
      obtain ⟨version, name, implementation, numbered, designated, rest⟩ := implemented id given
      refine ⟨version, name, implementation, numbered, designated, rest.1, rest.2, holds name ?_⟩
      rw [selection, designated, Option.some_or]
  · intro draft path answer membership ok
    obtain ⟨names, canonical⟩ := resolveUpdate_ok folds ascii ok
    exact membership.settled folds ascii canonical

/-- Match rules that hold of nothing. -/
def quietEnvironment : Environment where
  Rules := Unit
  Plan := Unit
  Clock := Unit
  matchesRules _ _ _ _ _ := .ok false
  toLowercase := asciiLower
  parseVersion _ := none

def taskCollection : Collection quietEnvironment where
  explicitTypeKeys := ["type", "types"]
  types := [("task", none)]
  typePlans _ := none
  dataContracts := []
  implementations _ _ := []

theorem taskCollection_ascii : taskCollection.AsciiNames := by
  intro entry member
  simp only [taskCollection, List.mem_singleton] at member
  subst member
  have lettersAscii : ("task".toList.all fun character => character.toNat < 128) = true := by
    decide +kernel
  intro character letter
  exact of_decide_eq_true (List.all_eq_true.mp lettersAscii character letter)

/-- A new task declares its type and is read as a task. -/
theorem writes_read_back_task :
    ∃ membership : ResolvedWriteMembership quietEnvironment,
      resolveCreate taskCollection (some "Task") none none [("title", .string "x")] "x.md"
        (.ok ()) = .ok (membership, [("title", .string "x"), ("type", .string "task")]) ∧
      membership.types = ["task"] ∧ membership.Settled taskCollection := by
  have answer : ((resolveCreate taskCollection (some "Task") none none [("title", .string "x")]
      "x.md" (.ok ())).toOption.map fun written => (written.1.types, written.2)) =
        some (["task"], [("title", .string "x"), ("type", .string "task")]) := by
    decide +kernel
  cases ok : resolveCreate taskCollection (some "Task") none none [("title", .string "x")] "x.md"
      (.ok ()) with
  | error errors =>
    rw [ok] at answer
    cases answer
  | ok written =>
    rw [ok] at answer
    obtain ⟨membership, after⟩ := written
    obtain ⟨types, rfl⟩ := Prod.mk.inj (Option.some.inj answer)
    exact ⟨membership, rfl, types,
      ((writes_read_back (fun _ _ => rfl) taskCollection_ascii).1 _ _ _ _ _ _ _ _ ok).1⟩

end Mdbase.Mutation
