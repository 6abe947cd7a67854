import Mdbase.Library.Slots
import Mdbase.Provider.Opening

/-!
# The cache of definitions

A provider keeps the collection that it opened last, with the stamp of its files. A call for the
current collection compares the stamp with that of the files, and opens the collection again when
they differ. Opening and stamping are two readings of the files, and other programs edit them at
any time.
-/

namespace Mdbase.Provider.DefinitionCache

open Library Links Watch Relation

variable {Bytes Config Types Contracts Error Revision Digest : Type}

/-- `CachedCollection`. The files that it was opened from are history: no call reads them. -/
structure CachedCollection (Bytes Config Types Contracts Revision Digest : Type) where
  collection : Loader.Collection Config Types Contracts
  stamp : CollectionStamp Revision Digest
  openedFrom : Files Bytes

/-- `open_with_mode`, `current_collection` and `reload_collection`. -/
inductive Call where
  | openNew
  | current
  | reload
  deriving DecidableEq

/-- Where a call is. The collection that a call has opened goes with its files as history. -/
inductive Phase (Bytes Config Types Contracts Error Revision Digest : Type) where
  /-- It compares the stamp under the read lock. -/
  | looking
  /-- It waits for the write lock, to compare the stamp again. -/
  | waiting
  | reopening (call : Call)
  | stamping (call : Call) (collection : Loader.Collection Config Types Contracts)
      (openedFrom : Files Bytes)
  | storing (call : Call)
      (entry : CachedCollection Bytes Config Types Contracts Revision Digest)
  | done (call : Call) (result : Except Error (Loader.Collection Config Types Contracts))

/-- The files, the cache with the call that has its write lock, and all calls. -/
structure State (Bytes Config Types Contracts Error Revision Digest : Type) where
  files : Files Bytes
  cache : Option (CachedCollection Bytes Config Types Contracts Revision Digest)
  writer : Option Nat
  calls : List (Phase Bytes Config Types Contracts Error Revision Digest)

namespace State

/-- A provider is opened. -/
def opening (files : Files Bytes) : State Bytes Config Types Contracts Error Revision Digest where
  files := files
  cache := none
  writer := none
  calls := [.reopening .openNew]

variable (state : State Bytes Config Types Contracts Error Revision Digest)

/-- A call is begun. -/
def begin_ (phase : Phase Bytes Config Types Contracts Error Revision Digest) :
    State Bytes Config Types Contracts Error Revision Digest :=
  { state with calls := state.calls ++ [phase] }

/-- A call goes on. -/
def setPhase (index : Nat) (phase : Phase Bytes Config Types Contracts Error Revision Digest) :
    State Bytes Config Types Contracts Error Revision Digest :=
  { state with calls := state.calls.modify index fun _ => phase }

/-- A call has the write lock. -/
def lock (index : Nat) : State Bytes Config Types Contracts Error Revision Digest :=
  { state with writer := some index }

/-- Only a call for the current collection opens it under the write lock. -/
def unlock (call : Call) : State Bytes Config Types Contracts Error Revision Digest :=
  { state with writer := if call = .current then none else state.writer }

end State

/-- One step of a call, or an edit of the files that is allowed. -/
inductive Step (loader : Loader Bytes Config Types Contracts Error)
    (hashing : Hashing Bytes Revision Digest)
    (allowed : State Bytes Config Types Contracts Error Revision Digest → Files Bytes → Prop) :
    State Bytes Config Types Contracts Error Revision Digest →
    State Bytes Config Types Contracts Error Revision Digest → Prop where
  | edit {state} {files : Files Bytes} (here : allowed state files) :
      Step loader hashing allowed state { state with files := files }
  | callCurrent {state entry} (cached : state.cache = some entry) :
      Step loader hashing allowed state (state.begin_ .looking)
  | callReload {state entry} (cached : state.cache = some entry) :
      Step loader hashing allowed state (state.begin_ (.reopening .reload))
  | hit {state entry} {index : Nat} (here : state.calls[index]? = some .looking)
      (free : state.writer = none) (cached : state.cache = some entry)
      (same : loader.stampOf hashing entry.collection.config state.files = entry.stamp) :
      Step loader hashing allowed state
        (state.setPhase index (.done .current (.ok entry.collection)))
  | miss {state entry} {index : Nat} (here : state.calls[index]? = some .looking)
      (free : state.writer = none) (cached : state.cache = some entry)
      (other : loader.stampOf hashing entry.collection.config state.files ≠ entry.stamp) :
      Step loader hashing allowed state (state.setPhase index .waiting)
  | hitLocked {state entry} {index : Nat} (here : state.calls[index]? = some .waiting)
      (free : state.writer = none) (cached : state.cache = some entry)
      (same : loader.stampOf hashing entry.collection.config state.files = entry.stamp) :
      Step loader hashing allowed state
        (state.setPhase index (.done .current (.ok entry.collection)))
  | missLocked {state entry} {index : Nat} (here : state.calls[index]? = some .waiting)
      (free : state.writer = none) (cached : state.cache = some entry)
      (other : loader.stampOf hashing entry.collection.config state.files ≠ entry.stamp) :
      Step loader hashing allowed state ((state.lock index).setPhase index (.reopening .current))
  | reopened {state} {index : Nat} {call : Call} {collection}
      (here : state.calls[index]? = some (.reopening call))
      (opened : loader.openHeld state.files = .ok collection) :
      Step loader hashing allowed state
        (state.setPhase index (.stamping call collection state.files))
  | refused {state} {index : Nat} {call : Call} {error : Error}
      (here : state.calls[index]? = some (.reopening call))
      (failed : loader.openHeld state.files = .error error) :
      Step loader hashing allowed state
        ((state.unlock call).setPhase index (.done call (.error error)))
  | stamped {state} {index : Nat} {call : Call} {collection openedFrom}
      (here : state.calls[index]? = some (.stamping call collection openedFrom)) :
      Step loader hashing allowed state
        (state.setPhase index (.storing call
          ⟨collection, loader.stampOf hashing collection.config state.files, openedFrom⟩))
  | stored {state} {index : Nat} {call : Call} {entry}
      (here : state.calls[index]? = some (.storing call entry))
      (free : state.writer = if call = .current then some index else none) :
      Step loader hashing allowed state
        ({ state.unlock call with cache := some entry }.setPhase index
          (.done call (.ok entry.collection)))

variable {loader : Loader Bytes Config Types Contracts Error}
  {hashing : Hashing Bytes Revision Digest}
  {allowed : State Bytes Config Types Contracts Error Revision Digest → Files Bytes → Prop}
  {state after : State Bytes Config Types Contracts Error Revision Digest}

/-- All that a collection is loaded from is the same. -/
structure SameDefinitions (loader : Loader Bytes Config Types Contracts Error)
    (hashing : Hashing Bytes Revision Digest) (config : Config) (before after : Files Bytes) :
    Prop where
  stamp : loader.stampOf hashing config before = loader.stampOf hashing config after
  outside : loader.SameOutside config before after

/-- No call that has opened a collection is yet to stamp it, unless the edit leaves its definitions
as they are; and no collection that is stored, or about to be, refers to what the edit changes
beyond its own folders. -/
structure Noticed (loader : Loader Bytes Config Types Contracts Error)
    (hashing : Hashing Bytes Revision Digest)
    (state : State Bytes Config Types Contracts Error Revision Digest) (files : Files Bytes) :
    Prop where
  stamping : ∀ (index : Nat) call collection openedFrom,
    state.calls[index]? = some (Phase.stamping call collection openedFrom) →
      SameDefinitions loader hashing collection.config openedFrom files
  storing : ∀ (index : Nat) call entry, state.calls[index]? = some (Phase.storing call entry) →
    loader.SameOutside entry.collection.config entry.openedFrom files
  cached : ∀ entry, state.cache = some entry →
    loader.SameOutside entry.collection.config entry.openedFrom files

/-- A collection was opened from files with its stamp, and nothing else that it was loaded from
has changed since. -/
structure CachedCollection.Held (loader : Loader Bytes Config Types Contracts Error)
    (hashing : Hashing Bytes Revision Digest)
    (entry : CachedCollection Bytes Config Types Contracts Revision Digest) (files : Files Bytes) :
    Prop where
  opened : loader.openHeld entry.openedFrom = .ok entry.collection
  stamp : loader.stampOf hashing entry.collection.config entry.openedFrom = entry.stamp
  outside : loader.SameOutside entry.collection.config entry.openedFrom files

theorem CachedCollection.Held.opens
    {entry : CachedCollection Bytes Config Types Contracts Revision Digest} {files : Files Bytes}
    (held : entry.Held loader hashing files)
    (same : loader.stampOf hashing entry.collection.config files = entry.stamp) :
    loader.openHeld files = .ok entry.collection :=
  Loader.openHeld_of_same held.opened held.outside (held.stamp.trans same.symm)

/-- What a call holds. -/
def Phase.Held (loader : Loader Bytes Config Types Contracts Error)
    (hashing : Hashing Bytes Revision Digest) (files : Files Bytes) :
    Phase Bytes Config Types Contracts Error Revision Digest → Prop
  | .stamping _ collection openedFrom =>
    loader.openHeld openedFrom = .ok collection ∧
      SameDefinitions loader hashing collection.config openedFrom files
  | .storing _ entry => entry.Held loader hashing files
  | _ => True

structure State.Consistent (loader : Loader Bytes Config Types Contracts Error)
    (hashing : Hashing Bytes Revision Digest)
    (state : State Bytes Config Types Contracts Error Revision Digest) : Prop where
  calls : Everywhere (fun _ phase => phase.Held loader hashing state.files) state.calls
  cached : ∀ entry, state.cache = some entry → entry.Held loader hashing state.files

theorem consistent_opening (files : Files Bytes) :
    (State.opening files).Consistent loader hashing where
  calls := Everywhere.nil.append trivial
  cached := nofun

namespace State.Consistent

variable (consistent : state.Consistent loader hashing)
include consistent

variable {phase : Phase Bytes Config Types Contracts Error Revision Digest}

theorem setPhase {index : Nat} (held : phase.Held loader hashing state.files) :
    (state.setPhase index phase).Consistent loader hashing where
  calls := consistent.calls.modify fun _ _ => held
  cached := consistent.cached

theorem begin_ (held : phase.Held loader hashing state.files) :
    (state.begin_ phase).Consistent loader hashing where
  calls := consistent.calls.append held
  cached := consistent.cached

theorem edit {files : Files Bytes} (noticed : Noticed loader hashing state files) :
    State.Consistent loader hashing { state with files := files } where
  calls := by
    intro index phase here
    have held := consistent.calls index phase here
    cases phase with
    | stamping call collection openedFrom =>
      exact ⟨held.1, noticed.stamping index call collection openedFrom here⟩
    | storing call entry => exact ⟨held.opened, held.stamp, noticed.storing index call entry here⟩
    | _ => trivial
  cached := by
    intro entry cached
    have held := consistent.cached entry cached
    exact ⟨held.opened, held.stamp, noticed.cached entry cached⟩

theorem step (step : Step loader hashing (Noticed loader hashing) state after) :
    after.Consistent loader hashing := by
  cases step with
  | edit noticed => exact consistent.edit noticed
  | callCurrent | callReload => exact consistent.begin_ trivial
  | hit | miss | hitLocked => exact consistent.setPhase trivial
  | @missLocked entry index =>
    have locked : (state.lock index).Consistent loader hashing :=
      ⟨consistent.calls, consistent.cached⟩
    exact locked.setPhase trivial
  | @reopened index call collection here opened =>
    exact consistent.setPhase ⟨opened, rfl, Loader.SameOutside.refl loader _ _⟩
  | @refused index call error =>
    have unlocked : (state.unlock call).Consistent loader hashing :=
      ⟨consistent.calls, consistent.cached⟩
    exact unlocked.setPhase trivial
  | stamped here =>
    obtain ⟨opened, same⟩ := consistent.calls _ _ here
    exact consistent.setPhase ⟨opened, same.stamp, same.outside⟩
  | @stored index call entry here =>
    have held := consistent.calls _ _ here
    have stored : State.Consistent loader hashing
        { state.unlock call with cache := some entry } :=
      ⟨consistent.calls, fun other same => Option.some.inj same ▸ held⟩
    exact stored.setPhase trivial

end State.Consistent

/-- The call that a phase belongs to. -/
def Phase.call : Phase Bytes Config Types Contracts Error Revision Digest → Call
  | .looking => .current
  | .waiting => .current
  | .reopening call => call
  | .stamping call _ _ => call
  | .storing call _ => call
  | .done call _ => call

/-- What a call has opened, it has opened from these files. -/
def Phase.Fresh (loader : Loader Bytes Config Types Contracts Error) (files : Files Bytes) :
    Phase Bytes Config Types Contracts Error Revision Digest → Prop
  | .stamping _ collection _ => loader.openHeld files = .ok collection
  | .storing _ entry => loader.openHeld files = .ok entry.collection
  | .done _ result => result = loader.openHeld files
  | _ => True

/-- A call for the current collection knows nothing but the files as they are. -/
def State.Answers (loader : Loader Bytes Config Types Contracts Error) (index : Nat)
    (state : State Bytes Config Types Contracts Error Revision Digest) : Prop :=
  ∃ phase, state.calls[index]? = some phase ∧ phase.call = .current ∧ phase.Fresh loader state.files

/-- No edit is made. -/
def Quiet (_state : State Bytes Config Types Contracts Error Revision Digest)
    (_files : Files Bytes) : Prop := False

namespace State.Answers

variable {index : Nat}

theorem begin_ {phase : Phase Bytes Config Types Contracts Error Revision Digest}
    (answers : state.Answers loader index) : (state.begin_ phase).Answers loader index := by
  obtain ⟨old, here, call, fresh⟩ := answers
  exact ⟨old, getElem?_append_of_some here _, call, fresh⟩

theorem setPhase {changed : Nat}
    {old phase : Phase Bytes Config Types Contracts Error Revision Digest}
    (answers : state.Answers loader index) (here : state.calls[changed]? = some old)
    (same : phase.call = old.call)
    (fresh : old.Fresh loader state.files → phase.Fresh loader state.files) :
    (state.setPhase changed phase).Answers loader index := by
  obtain ⟨known, there, call, known_⟩ := answers
  by_cases own : changed = index
  · subst own
    cases here.symm.trans there
    exact ⟨phase, by simp [State.setPhase, here], same.trans call, fresh known_⟩
  · exact ⟨known, by simp [State.setPhase, own, there], call, known_⟩

theorem step (answers : state.Answers loader index)
    (consistent : state.Consistent loader hashing) (step : Step loader hashing Quiet state after) :
    after.files = state.files ∧ after.Answers loader index := by
  cases step with
  | edit here => cases here
  | callCurrent | callReload => exact ⟨rfl, answers.begin_⟩
  | hit here free cached same =>
    have opens := (consistent.cached _ cached).opens same
    exact ⟨rfl, answers.setPhase here rfl fun _ => opens.symm⟩
  | miss here => exact ⟨rfl, answers.setPhase here rfl fun _ => trivial⟩
  | hitLocked here free cached same =>
    have opens := (consistent.cached _ cached).opens same
    exact ⟨rfl, answers.setPhase here rfl fun _ => opens.symm⟩
  | @missLocked entry changed here =>
    have locked : (state.lock changed).Answers loader index := answers
    exact ⟨rfl, locked.setPhase here rfl fun _ => trivial⟩
  | reopened here opened => exact ⟨rfl, answers.setPhase here rfl fun _ => opened⟩
  | @refused changed call error here failed =>
    have unlocked : (state.unlock call).Answers loader index := answers
    exact ⟨rfl, unlocked.setPhase here rfl fun _ => failed.symm⟩
  | stamped here => exact ⟨rfl, answers.setPhase here rfl id⟩
  | @stored changed call entry here =>
    have stored : State.Answers loader index
        { state.unlock call with cache := some entry } := answers
    exact ⟨rfl, stored.setPhase here rfl Eq.symm⟩

end State.Answers

/-- A call for the current collection that has the write lock. -/
def Phase.locks : Phase Bytes Config Types Contracts Error Revision Digest → Bool
  | .reopening call => call = .current
  | .stamping call _ _ => call = .current
  | .storing call _ => call = .current
  | _ => false

/-- The write lock is held by the call that it belongs to. -/
structure State.Locked (state : State Bytes Config Types Contracts Error Revision Digest) :
    Prop where
  calls : Everywhere (fun index phase => phase.locks = true ↔ state.writer = some index) state.calls
  writer : ∀ index, state.writer = some index → index < state.calls.length

theorem locked_opening (files : Files Bytes) :
    (State.opening files :
      State Bytes Config Types Contracts Error Revision Digest).Locked where
  calls := Everywhere.nil.append (by simp [Phase.locks, State.opening])
  writer := nofun

namespace State.Locked

variable (locked : state.Locked) {index : Nat}
  {old phase : Phase Bytes Config Types Contracts Error Revision Digest}
include locked

theorem begin_ (free : phase.locks = false) : (state.begin_ phase).Locked where
  calls := by
    refine locked.calls.append ?_
    rw [free]
    exact iff_of_false Bool.false_ne_true fun held => (locked.writer _ held).false
  writer := fun index held => (locked.writer index held).trans (by simp [State.begin_])

theorem setPhase (here : state.calls[index]? = some old) (same : phase.locks = old.locks) :
    (state.setPhase index phase).Locked where
  calls := by
    refine locked.calls.modify fun found there => ?_
    rw [same]
    exact locked.calls index old here
  writer := fun index held => (locked.writer index held).trans_eq (by simp [State.setPhase])

theorem lock (here : state.calls[index]? = some old) (free : state.writer = none)
    (locks : phase.locks = true) : ((state.lock index).setPhase index phase).Locked where
  calls := by
    intro other found there
    rw [State.setPhase, List.getElem?_modify] at there
    obtain ⟨before, known, rfl⟩ := Option.map_eq_some_iff.mp there
    change _ ↔ some index = some other
    split
    next same => exact iff_of_true locks (congrArg some same)
    rename_i different
    have unlocked := locked.calls other before known
    rw [free] at unlocked
    exact iff_of_false (fun held => nomatch unlocked.mp held)
      fun same => different (Option.some.inj same)
  writer := by
    intro other held
    cases held
    have inside := (List.getElem?_eq_some_iff.mp here).1
    simpa [State.setPhase, State.lock] using inside

theorem unlock {call : Call} (here : state.calls[index]? = some old)
    (owner : old.locks = decide (call = .current)) (free : phase.locks = false) :
    ((state.unlock call).setPhase index phase).Locked where
  calls := by
    have own : old.locks = true ↔ state.writer = some index := locked.calls index old here
    rw [owner, decide_eq_true_iff] at own
    intro other found there
    rw [State.setPhase, List.getElem?_modify] at there
    obtain ⟨before, known, rfl⟩ := Option.map_eq_some_iff.mp there
    have kept := locked.calls other before known
    change _ ↔ (if call = .current then none else state.writer) = some other
    by_cases current : call = .current
    · rw [own.mp current] at kept
      rw [if_pos current]
      refine iff_of_false ?_ nofun
      split
      next => simp [free]
      next different => exact fun held => different (Option.some.inj (kept.mp held))
    · rw [if_neg current]
      split
      next same =>
        rw [free]
        exact iff_of_false Bool.false_ne_true fun held => current (own.mpr (same ▸ held))
      next => exact kept
  writer := by
    intro other held
    change (if call = .current then none else state.writer) = some other at held
    split at held
    next => cases held
    next => simpa [State.setPhase, State.unlock] using locked.writer other held

theorem step (step : Step loader hashing allowed state after) : after.Locked := by
  cases step with
  | edit => exact ⟨locked.calls, locked.writer⟩
  | callCurrent | callReload => exact locked.begin_ rfl
  | hit here | miss here | hitLocked here => exact locked.setPhase here rfl
  | missLocked here free => exact locked.lock here free rfl
  | reopened here => exact locked.setPhase here rfl
  | refused here => exact locked.unlock here rfl rfl
  | stamped here => exact locked.setPhase here rfl
  | @stored index call entry here =>
    have stored : ((state.unlock call).setPhase index
        (.done call (.ok entry.collection))).Locked := locked.unlock here rfl rfl
    exact ⟨stored.calls, stored.writer⟩

end State.Locked

theorem isSome_of_step (filled : state.cache.isSome = true)
    (step : Step loader hashing allowed state after) : after.cache.isSome = true := by
  cases step with
  | stored => rfl
  | _ => exact filled

/-- How many steps a call still takes at most. -/
@[simp] def Phase.remaining : Phase Bytes Config Types Contracts Error Revision Digest → Nat
  | .looking => 5
  | .waiting => 4
  | .reopening _ => 3
  | .stamping _ _ _ => 2
  | .storing _ _ => 1
  | .done _ _ => 0

/-- No other call has the write lock of an open provider. -/
structure State.FreeFor (index : Nat)
    (state : State Bytes Config Types Contracts Error Revision Digest) : Prop where
  locked : state.Locked
  filled : state.cache.isSome = true
  writer : state.writer = none ∨ state.writer = some index

/-- A call goes on by itself. -/
structure GoesOn (loader : Loader Bytes Config Types Contracts Error)
    (hashing : Hashing Bytes Revision Digest) (index : Nat)
    (state after : State Bytes Config Types Contracts Error Revision Digest) : Prop where
  run : ReflTransGen (Step loader hashing Quiet) state after
  free : after.FreeFor index
  others : ∀ other, other ≠ index → after.calls[other]? = state.calls[other]?

variable {index : Nat}

theorem GoesOn.trans {last : State Bytes Config Types Contracts Error Revision Digest}
    (first : GoesOn loader hashing index state after)
    (second : GoesOn loader hashing index after last) : GoesOn loader hashing index state last where
  run := first.run.trans second.run
  free := second.free
  others := fun other different =>
    (second.others other different).trans (first.others other different)

variable {phase : Phase Bytes Config Types Contracts Error Revision Digest}

/-- A call that is not finished can take a step that brings it nearer to its end. -/
theorem exists_goesOn (free : state.FreeFor index) (here : state.calls[index]? = some phase)
    (unfinished : phase.remaining ≠ 0) :
    ∃ after next, GoesOn loader hashing index state after ∧ after.calls[index]? = some next ∧
      next.remaining < phase.remaining ∧ next.call = phase.call := by
  obtain ⟨locked, filled, writer⟩ := free
  have own : phase.locks = true ↔ state.writer = some index := locked.calls index phase here
  have moved {after : State Bytes Config Types Contracts Error Revision Digest}
      {next : Phase Bytes Config Types Contracts Error Revision Digest}
      (step : Step loader hashing Quiet state after)
      (calls : after.calls = state.calls.modify index fun _ => next)
      (held : after.writer = none ∨ after.writer = some index)
      (less : next.remaining < phase.remaining) (same : next.call = phase.call) :
      ∃ after next, GoesOn loader hashing index state after ∧ after.calls[index]? = some next ∧
        next.remaining < phase.remaining ∧ next.call = phase.call := by
    refine ⟨after, next, ⟨.single step, ⟨locked.step step, isSome_of_step filled step, held⟩, ?_⟩,
      ?_, less, same⟩
    · intro other different
      rw [calls]
      simp [different.symm]
    · rw [calls]
      simp [here]
  obtain ⟨entry, cached⟩ := Option.isSome_iff_exists.mp filled
  cases phase with
  | looking =>
    have unlocked : state.writer = none := writer.resolve_right fun held => nomatch own.mpr held
    by_cases same : loader.stampOf hashing entry.collection.config state.files = entry.stamp
    · exact moved (.hit here unlocked cached same) rfl writer (by simp) rfl
    · exact moved (.miss here unlocked cached same) rfl writer (by simp) rfl
  | waiting =>
    have unlocked : state.writer = none := writer.resolve_right fun held => nomatch own.mpr held
    by_cases same : loader.stampOf hashing entry.collection.config state.files = entry.stamp
    · exact moved (.hitLocked here unlocked cached same) rfl writer (by simp) rfl
    · exact moved (.missLocked here unlocked cached same) rfl (.inr rfl) (by simp) rfl
  | reopening call =>
    cases opened : loader.openHeld state.files with
    | error error =>
      refine moved (.refused here opened) rfl ?_ (by simp) rfl
      change (if call = .current then none else state.writer) = none ∨
        (if call = .current then none else state.writer) = some index
      split
      next => exact .inl rfl
      next => exact writer
    | ok collection => exact moved (.reopened here opened) rfl writer (by simp) rfl
  | stamping call collection openedFrom => exact moved (.stamped here) rfl writer (by simp) rfl
  | storing call stored =>
    have available : state.writer = if call = .current then some index else none := by
      split
      next current => exact own.mp (decide_eq_true current)
      next other => exact writer.resolve_right fun held => other (of_decide_eq_true (own.mpr held))
    refine moved (.stored here available) rfl ?_ (by simp) rfl
    change (if call = .current then none else state.writer) = none ∨
      (if call = .current then none else state.writer) = some index
    split
    next => exact .inl rfl
    next => exact writer
  | done => exact absurd rfl unfinished

variable (loader hashing) in
theorem exists_done (free : state.FreeFor index) (here : state.calls[index]? = some phase) :
    ∃ after result, GoesOn loader hashing index state after ∧
      after.calls[index]? = some (.done phase.call result) ∧ after.writer = none := by
  induction steps : phase.remaining using Nat.strong_induction_on generalizing state phase with
  | _ count ih =>
    by_cases finished : phase.remaining = 0
    · cases phase with
      | done call result =>
        have own : false = true ↔ state.writer = some index := free.locked.calls index _ here
        have unlocked := free.writer.resolve_right fun held => nomatch own.mpr held
        exact ⟨state, result, ⟨.refl, free, fun _ _ => rfl⟩, here, unlocked⟩
      | _ => cases finished
    · obtain ⟨middle, next, goesOn, there, less, same⟩ := exists_goesOn free here finished
      obtain ⟨after, result, rest, ended, unlocked⟩ :=
        ih next.remaining (steps ▸ less) goesOn.free there rfl
      exact ⟨after, result, goesOn.trans rest, same ▸ ended, unlocked⟩

end Mdbase.Provider.DefinitionCache
