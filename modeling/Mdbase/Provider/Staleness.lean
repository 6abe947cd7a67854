import Mdbase.Provider.DefinitionCache

/-!
# Stale definitions

A call for the current collection that begins after the last edit returns what the files open to,
if every edit was noticed. An edit between the opening of a collection and its stamp is not, nor
is an edit of a schema beyond the folders of the definitions. What the cache holds is then
returned until the definitions are edited again.
-/

namespace Mdbase.Provider.DefinitionCache

open Library Links Watch Relation

variable {Bytes Config Types Contracts Error Revision Digest : Type}
  {loader : Loader Bytes Config Types Contracts Error}
  {hashing : Hashing Bytes Revision Digest}
  {allowed : State Bytes Config Types Contracts Error Revision Digest → Files Bytes → Prop}
  {state after : State Bytes Config Types Contracts Error Revision Digest}

/-- A run of steps with the edits that are allowed. -/
abbrev Run (loader : Loader Bytes Config Types Contracts Error)
    (hashing : Hashing Bytes Revision Digest)
    (allowed : State Bytes Config Types Contracts Error Revision Digest → Files Bytes → Prop) :
    State Bytes Config Types Contracts Error Revision Digest →
    State Bytes Config Types Contracts Error Revision Digest → Prop :=
  ReflTransGen (Step loader hashing allowed)

/-- An open provider that has made no call. -/
def State.opened (files : Files Bytes)
    (entry : CachedCollection Bytes Config Types Contracts Revision Digest) :
    State Bytes Config Types Contracts Error Revision Digest where
  files := files
  cache := some entry
  writer := none
  calls := [.done .openNew (.ok entry.collection)]

variable {first stampedAt last : Files Bytes}
  {collection : Loader.Collection Config Types Contracts}

/-- Opening and stamping one after the other is a run of the cache. -/
theorem run_opened (opened : loader.openHeld first = .ok collection)
    (before : allowed ((State.opening first).setPhase 0 (.stamping .openNew collection first))
      stampedAt)
    (later : allowed (.opened stampedAt
      ⟨collection, loader.stampOf hashing collection.config stampedAt, first⟩) last) :
    Run loader hashing allowed (.opening first)
      (.opened last ⟨collection, loader.stampOf hashing collection.config stampedAt, first⟩) := by
  let stamping (files : Files Bytes) : State Bytes Config Types Contracts Error Revision Digest :=
    (State.opening files).setPhase 0 (.stamping .openNew collection first)
  let storing : State Bytes Config Types Contracts Error Revision Digest :=
    (stamping stampedAt).setPhase 0 (.storing .openNew
      ⟨collection, loader.stampOf hashing collection.config stampedAt, first⟩)
  have reopened : Step loader hashing allowed (.opening first) (stamping first) :=
    .reopened rfl opened
  have editedOnce : Step loader hashing allowed (stamping first) (stamping stampedAt) :=
    .edit before
  have stamped : Step loader hashing allowed (stamping stampedAt) storing := .stamped rfl
  have stored : Step loader hashing allowed storing (.opened stampedAt
      ⟨collection, loader.stampOf hashing collection.config stampedAt, first⟩) :=
    @Step.stored _ _ _ _ _ _ _ loader hashing allowed storing 0 .openNew _ rfl rfl
  exact ((((ReflTransGen.single reopened).tail editedOnce).tail stamped).tail stored).tail
    (.edit later)

/-- Files and nothing else. -/
def filesOf (entries : List (Text × Text)) : Files Text where
  read path := (entries.lookup path).elim (.error .notFound) .ok
  openDir path :=
    if entries.any fun entry => startsWith (path ++ ['/']) entry.1 then .ok () else .error .notFound
  filesRecursive folder :=
    .ok ((((entries.map Prod.fst).insertionSort (· ≤ ·)).dedup).filter (pathStartsWith folder))
  isFile path := path ∈ entries.map Prod.fst
  nodup listed := by
    cases listed
    exact (List.nodup_dedup _).filter _
  mem_iff listed := by
    cases listed
    simp [List.mem_filter]

/-- A loader that keeps the staged files as they are. A reference is a line of its own. -/
def sampleLoader : Loader Text Unit (List (Text × Text)) (List (Text × Text)) ErrorKind where
  schemaReferences bytes := (bytes.splitOn '\n').filterMap fun line =>
    if startsWith "  ref: ".toList line then some (line.drop 7) else none
  parseConfig _ := .ok ()
  typesFolder _ := "_types".toList
  contractsFolder _ := "_contracts".toList
  migrationsFolder _ := "_types/_migrations".toList
  cacheFolder _ := ".mdbase".toList
  loadTypes _ files _ := .ok files
  loadContracts _ _ files _ := .ok files
  configError := id
  folderError := id
  typesError := id
  contractsError := id

def sampleHashing : Hashing Text Text (List (Text × Option Text)) where
  revision := id
  digest := id
  revision_injective := Function.injective_id
  digest_injective := Function.injective_id

/-- A collection with one type, whose schema is a file beside the folder of the types. -/
def sampleFiles (name schema : String) : Files Text :=
  filesOf [("mdbase.yaml".toList, "spec_version: 0.3.0".toList),
    ("_types/task.md".toList, (name ++ "\nschema:\n  ref: ../other/task.json").toList),
    ("other/task.json".toList, schema.toList)]

def sampleCollection (name schema : String) :
    Loader.Collection Unit (List (Text × Text)) (List (Text × Text)) where
  config := ()
  types := [("_types/task.md".toList, (name ++ "\nschema:\n  ref: ../other/task.json").toList),
    ("other/task.json".toList, schema.toList)]
  contracts := []

theorem sample_opens :
    sampleLoader.openHeld (sampleFiles "name: task" "{}") =
      .ok (sampleCollection "name: task" "{}") := by
  decide +kernel

theorem consistent_of_run {first : Files Bytes}
    (run : Run loader hashing (Noticed loader hashing) (.opening first) state) :
    state.Consistent loader hashing := by
  induction run with
  | refl => exact consistent_opening first
  | tail _ step ih => exact ih.step step

theorem locked_of_run {begun : State Bytes Config Types Contracts Error Revision Digest}
    (locked : begun.Locked) (run : Run loader hashing allowed begun state) : state.Locked := by
  induction run with
  | refl => exact locked
  | tail _ step ih => exact ih.step step

theorem isSome_of_run (filled : state.cache.isSome = true)
    (run : Run loader hashing allowed state after) : after.cache.isSome = true := by
  induction run with
  | refl => exact filled
  | tail _ step ih => exact isSome_of_step ih step

theorem exists_end (locked : state.Locked) (filled : state.cache.isSome = true) {index : Nat}
    {phase : Phase Bytes Config Types Contracts Error Revision Digest}
    (here : state.calls[index]? = some phase) :
    ∃ after result, Run loader hashing Quiet state after ∧
      after.calls[index]? = some (.done phase.call result) := by
  by_cases free : state.writer = none ∨ state.writer = some index
  · obtain ⟨after, result, goesOn, ended, -⟩ :=
      exists_done loader hashing ⟨locked, filled, free⟩ here
    exact ⟨after, result, goesOn.run, ended⟩
  · obtain ⟨taken, own⟩ := not_or.mp free
    obtain ⟨owner, held⟩ := Option.ne_none_iff_exists'.mp taken
    have different : index ≠ owner := fun same => own (same ▸ held)
    have there := List.getElem?_eq_getElem (locked.writer owner held)
    obtain ⟨middle, _, first, -, unlocked⟩ :=
      exists_done loader hashing ⟨locked, filled, .inr held⟩ there
    have still := (first.others index different).trans here
    obtain ⟨after, result, second, ended, -⟩ :=
      exists_done loader hashing ⟨first.free.locked, first.free.filled, .inl unlocked⟩ still
    exact ⟨after, result, first.run.trans second.run, ended⟩

theorem Step.of_quiet (step : Step loader hashing Quiet state after) :
    Step loader hashing allowed state after := by
  cases step with
  | edit here => cases here
  | callCurrent cached => exact .callCurrent cached
  | callReload cached => exact .callReload cached
  | hit here free cached same => exact .hit here free cached same
  | miss here free cached other => exact .miss here free cached other
  | hitLocked here free cached same => exact .hitLocked here free cached same
  | missLocked here free cached other => exact .missLocked here free cached other
  | reopened here opened => exact .reopened here opened
  | refused here failed => exact .refused here failed
  | stamped here => exact .stamped here
  | stored here free => exact .stored here free

theorem answers_of_run {index : Nat} (consistent : state.Consistent loader hashing)
    (answers : state.Answers loader index) (run : Run loader hashing Quiet state after) :
    after.files = state.files ∧ after.Answers loader index := by
  have kept : after.Consistent loader hashing ∧ after.files = state.files ∧
      after.Answers loader index := by
    induction run with
    | refl => exact ⟨consistent, rfl, answers⟩
    | tail _ step ih =>
      obtain ⟨consistent, files, answers⟩ := ih
      obtain ⟨same, next⟩ := answers.step consistent step
      exact ⟨consistent.step step.of_quiet, same.trans files, next⟩
  exact kept.2

/-- Once no more edits are made, a call for the current collection answers what the files open to
whatever other calls do meanwhile, and it can always end. -/
def ReturnsCurrent (loader : Loader Bytes Config Types Contracts Error)
    (hashing : Hashing Bytes Revision Digest)
    (state : State Bytes Config Types Contracts Error Revision Digest) : Prop :=
  ∀ finish, Run loader hashing Quiet (state.begin_ .looking) finish →
    (∀ result, finish.calls[state.calls.length]? = some (.done .current result) →
      result = loader.openHeld state.files) ∧
    ∃ later result, Run loader hashing Quiet finish later ∧
      later.calls[state.calls.length]? = some (.done .current result)

/-- In a run whose edits are noticed, every call that begins after the last edit returns what the
files open to. -/
theorem returnsCurrent_of_noticed {first : Files Bytes}
    (run : Run loader hashing (Noticed loader hashing) (.opening first) state)
    (filled : state.cache.isSome = true) : ReturnsCurrent loader hashing state := by
  intro finish quiet
  have begun : (state.begin_ .looking).calls[state.calls.length]? = some .looking := by
    simp [State.begin_]
  have consistent : (state.begin_ .looking).Consistent loader hashing :=
    (consistent_of_run run).begin_ trivial
  obtain ⟨files, phase, here, call, fresh⟩ :=
    answers_of_run consistent ⟨_, begun, rfl, trivial⟩ quiet
  have locked : finish.Locked :=
    locked_of_run ((locked_of_run (locked_opening first) run).begin_ rfl) quiet
  refine ⟨fun result ended => ?_, ?_⟩
  · cases here.symm.trans ended
    exact fresh.trans (congrArg loader.openHeld files)
  · have begunFilled : (state.begin_ .looking).cache.isSome = true := filled
    obtain ⟨later, result, rest, ended⟩ := exists_end locked (isSome_of_run begunFilled quiet) here
    exact ⟨later, result, rest, call ▸ ended⟩

theorem sample_outside :
    sampleLoader.SameOutside () (sampleFiles "name: task" "{}")
      (sampleFiles "name: note" "{}") where
  own := by decide +kernel
  listed := by decide +kernel
  types := by
    have files : ∀ path ∈ (sampleLoader.references (sampleFiles "name: task" "{}")
        (sampleLoader.typesFolder ()) (sampleLoader.isTypeFile ())).files,
        (sampleFiles "name: note" "{}").readIfPresent (joinPath path) =
          (sampleFiles "name: task" "{}").readIfPresent (joinPath path) := by
      decide +kernel
    exact ⟨by decide +kernel, fun path member _ => files path member⟩
  contracts := by
    have none : (sampleLoader.references (sampleFiles "name: task" "{}")
        (sampleLoader.contractsFolder ()) Loader.isContractFile).files = [] := by
      decide +kernel
    exact ⟨by decide +kernel, fun path member _ => by simp [none] at member⟩

/-- An edit of the type itself is noticed. -/
theorem returnsCurrent_edited_type :
    ReturnsCurrent sampleLoader sampleHashing
      (.opened (sampleFiles "name: note" "{}") ⟨sampleCollection "name: task" "{}",
        sampleLoader.stampOf sampleHashing () (sampleFiles "name: task" "{}"),
        sampleFiles "name: task" "{}"⟩) := by
  refine returnsCurrent_of_noticed (run_opened sample_opens ?_ ?_) rfl
  · refine ⟨fun index call collection openedFrom here => ?_, fun index call entry here => ?_, nofun⟩
    · cases index with
      | zero =>
        cases here
        exact ⟨rfl, .refl _ _ _⟩
      | succ => cases here
    · cases index <;> cases here
  · refine ⟨fun index call collection openedFrom here => ?_, fun index call entry here => ?_,
      fun entry cached => ?_⟩
    · cases index <;> cases here
    · cases index <;> cases here
    · cases cached
      exact sample_outside

/-- Every edit is made. -/
def AnyEdit (_state : State Bytes Config Types Contracts Error Revision Digest)
    (_files : Files Bytes) : Prop := True

theorem not_returnsCurrent {entry : CachedCollection Bytes Config Types Contracts Revision Digest}
    (free : state.writer = none) (cached : state.cache = some entry)
    (same : loader.stampOf hashing entry.collection.config state.files = entry.stamp)
    (other : loader.openHeld state.files ≠ .ok entry.collection) :
    ¬ ReturnsCurrent loader hashing state := by
  intro current
  have begun : (state.begin_ .looking).calls[state.calls.length]? = some .looking := by
    simp [State.begin_]
  have hit : Step loader hashing Quiet (state.begin_ .looking) _ := .hit begun free cached same
  obtain ⟨answers, -⟩ := current _ (.single hit)
  refine other (answers (.ok entry.collection) ?_).symm
  simp [State.setPhase, State.begin_]

theorem stale_of_window (opened : loader.openHeld first = .ok collection)
    (other : loader.openHeld last ≠ .ok collection) :
    ∃ state, Run loader hashing AnyEdit (.opening first) state ∧ state.cache.isSome = true ∧
      state.files = last ∧ ¬ ReturnsCurrent loader hashing state :=
  ⟨.opened last ⟨collection, loader.stampOf hashing collection.config last, first⟩,
    run_opened opened trivial trivial, rfl, rfl, not_returnsCurrent rfl rfl rfl other⟩

theorem stale_of_same_stamp (opened : loader.openHeld first = .ok collection)
    (same : loader.stampOf hashing collection.config last =
      loader.stampOf hashing collection.config first)
    (other : loader.openHeld last ≠ .ok collection) :
    ∃ state, Run loader hashing AnyEdit (.opening first) state ∧ state.cache.isSome = true ∧
      state.files = last ∧ ¬ ReturnsCurrent loader hashing state :=
  ⟨.opened last ⟨collection, loader.stampOf hashing collection.config first, first⟩,
    run_opened opened trivial trivial, rfl, rfl, not_returnsCurrent rfl rfl same other⟩

/-- A type edited before its stamp, and a schema edited at any time, are never read again. -/
theorem edits_not_noticed :
    (∃ state,
      Run sampleLoader sampleHashing AnyEdit (.opening (sampleFiles "name: task" "{}")) state ∧
      state.cache.isSome = true ∧ state.files = sampleFiles "name: note" "{}" ∧
      ¬ ReturnsCurrent sampleLoader sampleHashing state) ∧
    ∃ state,
      Run sampleLoader sampleHashing AnyEdit (.opening (sampleFiles "name: task" "{}")) state ∧
      state.cache.isSome = true ∧ state.files = sampleFiles "name: task" "true" ∧
      ¬ ReturnsCurrent sampleLoader sampleHashing state :=
  ⟨stale_of_window sample_opens (by decide +kernel),
    stale_of_same_stamp sample_opens (by decide +kernel) (by decide +kernel)⟩

end Mdbase.Provider.DefinitionCache
