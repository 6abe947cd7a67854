import Mdbase.Provider.CursorToken

/-!
# Pinned pagination

Whatever calls come between, a pinned read keeps its records and the sizes that are bound
to its offsets for as long as it is in the store. The pages that are read by following the
cursors from the first one are therefore the records in their order, and a page that is
read again is the same page.
-/

namespace Mdbase.Provider

open Library
open Mdbase.Runtime (u64Max Value)

variable {Source : Type} {externals : CursorExternals Source}

/-- The sizes bound to offsets are sizes of pages. -/
def PinnedRead.Sized (pinned : PinnedRead Source) : Prop :=
  ∀ offset row, pinned.pageSizes.get? offset = some row →
    row.1 = offset ∧ clampPageItems row.2 = row.2

/-- A pinned read at a later time: only more sizes are bound. -/
structure Extends (old new : PinnedRead Source) : Prop where
  id : new.id = old.id
  generation : new.generation = old.generation
  template : new.template = old.template
  results : new.results = old.results
  pageItems : new.pageItems = old.pageItems
  metadata : old.metadata = none → new.metadata = none
  sizes : ∀ offset row, old.pageSizes.get? offset = some row → new.pageSizes.get? offset = some row
  sized : old.Sized → new.Sized

theorem Extends.refl (pinned : PinnedRead Source) : Extends pinned pinned where
  id := rfl
  generation := rfl
  template := rfl
  results := rfl
  pageItems := rfl
  metadata := fun none => none
  sizes := fun _ _ bound => bound
  sized := fun sized => sized

theorem Extends.trans {first second third : PinnedRead Source} (left : Extends first second)
    (right : Extends second third) : Extends first third where
  id := right.id.trans left.id
  generation := right.generation.trans left.generation
  template := right.template.trans left.template
  results := right.results.trans left.results
  pageItems := right.pageItems.trans left.pageItems
  metadata := fun none => right.metadata (left.metadata none)
  sizes := fun offset row bound => right.sizes offset row (left.sizes offset row bound)
  sized := fun sized => right.sized (left.sized sized)

/-- Two stores issue and accept the same cursors. -/
structure SameSigner (before after : CursorStore Source) : Prop where
  epoch : after.runtimeEpoch = before.runtimeEpoch
  key : after.signingKey = before.signingKey

theorem SameSigner.refl (store : CursorStore Source) : SameSigner store store := ⟨rfl, rfl⟩

variable {first second third : CursorStore Source}

theorem SameSigner.trans
    (left : SameSigner first second) (right : SameSigner second third) : SameSigner first third :=
  ⟨right.epoch.trans left.epoch, right.key.trans left.key⟩

variable {before after : CursorStore Source}

theorem SameSigner.issue (same : SameSigner before after) (id : String) (index : Nat) :
    after.issue externals id index = before.issue externals id index := by
  simp only [CursorStore.issue, same.epoch, same.key]

theorem SameSigner.authenticate (same : SameSigner before after) (cursor : ReadCursor) :
    after.authenticate externals cursor = before.authenticate externals cursor := by
  simp only [CursorStore.authenticate, same.epoch, same.key]

/-- The later store has the pinned read only if the earlier one had it, and as that one
had it but for more sizes. -/
structure Carries (id : String) (before after : CursorStore Source) : Prop where
  signer : SameSigner before after
  entry : ∀ new, after.entries.get? id = some new →
    ∃ old, before.entries.get? id = some old ∧ Extends old new

theorem Carries.refl (id : String) (store : CursorStore Source) : Carries id store store :=
  ⟨.refl store, fun new found => ⟨new, found, .refl new⟩⟩

theorem Carries.trans {id : String}
    (left : Carries id first second) (right : Carries id second third) :
    Carries id first third := by
  refine ⟨left.signer.trans right.signer, fun new found => ?_⟩
  obtain ⟨middle, middleFound, later⟩ := right.entry new found
  obtain ⟨old, oldFound, early⟩ := left.entry middle middleFound
  exact ⟨old, oldFound, early.trans later⟩

/-- One pinned read is replaced. -/
structure Updates (before : CursorStore Source) (new : PinnedRead Source)
    (after : CursorStore Source) : Prop where
  signer : SameSigner before after
  lookup : ∀ id, after.entries.get? id = if id = new.id then some new else before.entries.get? id

theorem Updates.carries {old new : PinnedRead Source}
    (updates : Updates before new after) (found : before.entries.get? old.id = some old)
    (extend : Extends old new) (id : String) : Carries id before after := by
  refine ⟨updates.signer, fun later here => ?_⟩
  rw [updates.lookup] at here
  split at here
  next same =>
    cases here
    rw [same, extend.id]
    exact ⟨old, found, extend⟩
  next => exact ⟨later, here, .refl later⟩

variable {pinned : PinnedRead Source}

variable {store : CursorStore Source}

theorem Updates.self
    (found : store.entries.get? pinned.id = some pinned) : Updates store pinned store := by
  refine ⟨.refl store, fun id => ?_⟩
  split
  next same => rw [same, found]
  next => rfl

theorem Updates.trans {middle new : PinnedRead Source} (left : Updates first middle second)
    (right : Updates second new third) (same : new.id = middle.id) : Updates first new third := by
  refine ⟨left.signer.trans right.signer, fun id => ?_⟩
  rw [right.lookup, left.lookup]
  split
  next => rfl
  next other => rw [if_neg (same ▸ other)]

theorem removeExpired_signer (store : CursorStore Source) (now : Nat) :
    SameSigner store (store.removeExpired now) := ⟨rfl, rfl⟩

theorem removeExpired_carries (store : CursorStore Source) (now : Nat) (id : String) :
    Carries id store (store.removeExpired now) := by
  refine ⟨removeExpired_signer store now, fun new found => ⟨new, ?_, .refl new⟩⟩
  change (store.entries.filter _).get? id = some new at found
  rw [Table.get?_filter] at found
  exact (Option.filter_eq_some_iff.mp found).1

theorem clampPageItems_pos (items : Nat) : 0 < clampPageItems items := by
  unfold clampPageItems
  omega

theorem clampPageItems_idem (items : Nat) :
    clampPageItems (clampPageItems items) = clampPageItems items := by
  unfold clampPageItems maxPageItems
  omega

/-- The size of a page is bound to its offset, and to a size that was bound before. -/
structure Bound (externals : CursorExternals Source) (store : CursorStore Source)
    (pinned : PinnedRead Source) (index : Nat) (limit : Option Nat) (size : Nat)
    (after : CursorStore Source) (new : PinnedRead Source) : Prop where
  inside : index ≤ pinned.total externals
  chosen : size = pinned.sizeAt index (clampPageItems (limit.getD pinned.pageItems))
  named : ∀ items, limit = some items → clampPageItems items = size
  extend : Extends pinned new
  updates : Updates store new after
  bound : new.pageSizes.get? index = some (index, size)
  metadata : new.metadata = pinned.metadata

variable {store after : CursorStore Source} {limit : Option Nat}

variable {index size : Nat}

/-- What a bound page size says of the read before and after it. -/
theorem bindSize_ok {pinned new : PinnedRead Source} {context context' : OperationContext}
    (found : store.entries.get? pinned.id = some pinned)
    (result : store.bindSize externals pinned index limit context =
      .ok (size, after, new, context')) :
    Bound externals store pinned index limit size after new ∧ context'.checks = context.checks := by
  have named : ¬ (limit.isSome = true ∧ clampPageItems (limit.getD pinned.pageItems) ≠
      pinned.sizeAt index (clampPageItems (limit.getD pinned.pageItems))) →
      ∀ items, limit = some items → clampPageItems items =
        pinned.sizeAt index (clampPageItems (limit.getD pinned.pageItems)) := by
    intro agreed items same
    rw [same] at agreed ⊢
    simpa using agreed
  unfold CursorStore.bindSize at result
  dsimp only at result
  split at result
  next => cases result
  rename_i inside
  split at result
  next => cases result
  rename_i agreed
  split at result
  next visited =>
    cases result
    obtain ⟨⟨offset, items⟩, bound⟩ := Option.isSome_iff_exists.mp visited
    have same : offset = index := Table.key_of_get? bound
    subst same
    refine ⟨⟨not_lt.mp inside, rfl, named agreed, .refl pinned, .self found, ?_, rfl⟩, rfl⟩
    simp [PinnedRead.sizeAt, bound]
  rename_i fresh
  split at result
  next => cases result
  split at result
  next => cases result
  cases charged : context.chargeRetained pageChoiceBytes with
  | error error =>
    rw [charged] at result
    cases result
  | ok context'' =>
    rw [charged] at result
    cases result
    have unbound : pinned.pageSizes.get? index = none := by simpa using fresh
    have requested : pinned.sizeAt index
        (clampPageItems (limit.getD pinned.pageItems)) =
          clampPageItems (limit.getD pinned.pageItems) := by
      simp [PinnedRead.sizeAt, unbound]
    refine ⟨⟨not_lt.mp inside, rfl, named agreed, ?_, ?_, ?_, rfl⟩, ?_⟩
    · refine ⟨rfl, rfl, rfl, rfl, rfl, fun none => none, ?_, ?_⟩
      · intro offset row bound
        change (pinned.pageSizes.insert _).get? offset = some row
        rw [Table.get?_insert, if_neg, bound]
        rintro rfl
        rw [unbound] at bound
        cases bound
      · intro sized offset row bound
        change (pinned.pageSizes.insert _).get? offset = some row at bound
        rw [Table.get?_insert] at bound
        split at bound
        next same =>
          cases bound
          refine ⟨same.symm, ?_⟩
          dsimp only
          rw [requested]
          exact clampPageItems_idem _
        next => exact sized offset row bound
    · exact ⟨⟨rfl, rfl⟩, fun id => Table.get?_insert _ _ id⟩
    · exact Table.get?_insert_self pinned.pageSizes _
    · unfold OperationContext.chargeRetained at charged
      split at charged
      next => cases charged
      split at charged
      next => cases charged
      cases charged
      rfl

variable {query : CanonicalQueryValue} {context : OperationContext}
  {reply : Except ProviderError ReadPage}

theorem finishPage_updates {last total later : Nat}
    (result : store.finishPage externals pinned query last total later context = (reply, after)) :
    Updates store { pinned with lastAccess := later } after := by
  have updated : after = { store with
      entries := store.entries.insert { pinned with lastAccess := later } } := by
    unfold CursorStore.finishPage at result
    dsimp only at result
    split at result
    next =>
      cases result
      rfl
    cases result
    rfl
  subst updated
  exact ⟨⟨rfl, rfl⟩, fun id => Table.get?_insert _ _ id⟩

/-- Serving a page changes nothing but the lease of its read. -/
theorem servePage_updates {index size later : Nat}
    (found : store.entries.get? pinned.id = some pinned)
    (result : store.servePage externals pinned index size later context = (reply, after)) :
    ∃ new, Extends pinned new ∧ new.pageSizes = pinned.pageSizes ∧ Updates store new after := by
  unfold CursorStore.servePage at result
  dsimp only at result
  cases kind : pinned.metadata with
  | none =>
    rw [kind] at result
    dsimp only at result
    split at result
    next =>
      cases result
      exact ⟨pinned, .refl pinned, rfl, .self found⟩
    next query =>
      refine ⟨{ pinned with lastAccess := later }, ?_, rfl, finishPage_updates result⟩
      exact { Extends.refl pinned with }
  | some source =>
    rw [kind] at result
    dsimp only at result
    have loaded : ∀ other : PinnedRead Source,
        Updates store other { store with entries := store.entries.insert other } :=
      fun other => ⟨⟨rfl, rfl⟩, fun id => Table.get?_insert _ _ id⟩
    have extend : ∀ source later : _, Extends pinned
        { pinned with metadata := some source, lastAccess := later } := by
      intro source later
      refine { Extends.refl pinned with metadata := fun contrary => ?_ }
      rw [kind] at contrary
      cases contrary
    split at result
    next =>
      cases result
      exact ⟨_, extend _ pinned.lastAccess, rfl, loaded _⟩
    rename_i operation
    split at result
    next =>
      cases result
      exact ⟨_, extend _ pinned.lastAccess, rfl, loaded _⟩
    rename_i query _
    split at result
    next =>
      cases result
      exact ⟨_, extend _ pinned.lastAccess, rfl, loaded _⟩
    have finished := finishPage_updates result
    exact ⟨_, extend _ later, rfl, Updates.trans (loaded _) finished rfl⟩

variable {cursor : ReadCursor} {clock : Nat → Nat}

/-- Reading a page leaves the other reads in place. -/
theorem pageWithLimit_carries
    (result : store.pageWithLimit externals cursor limit clock context = (reply, after))
    (id : String) : Carries id store after := by
  unfold CursorStore.pageWithLimit at result
  have removed := removeExpired_carries store (clock 0) id
  split at result
  next =>
    cases result
    exact .refl id store
  dsimp only at result
  split at result
  next =>
    cases result
    exact removed
  rename_i other index _
  split at result
  next =>
    cases result
    exact removed
  rename_i pinned found
  have here : pinned.id = other := Table.key_of_get? found
  subst here
  split at result
  next =>
    cases result
    exact removed
  rename_i size middle new context' bound
  obtain ⟨bound, _⟩ := bindSize_ok found bound
  have stored : middle.entries.get? new.id = some new := by
    rw [bound.updates.lookup, if_pos rfl]
  obtain ⟨last, extend, _, updates⟩ := servePage_updates stored result
  refine removed.trans ?_
  exact (bound.updates.carries found bound.extend id).trans
    (updates.carries stored extend id)

/-- The page of a pinned read of records at an offset. -/
def CursorStore.pageAt (externals : CursorExternals Source) (store : CursorStore Source)
    (pinned : PinnedRead Source) (query : CanonicalQueryValue) (index size : Nat) : ReadPage :=
  let last := min (min (index + size) u64Max) pinned.results.length
  let more : Bool := last < pinned.results.length
  ⟨⟨⟨some (setHasMore (pinned.slice query index last) more)⟩, pinned.generation⟩,
    if more then some (store.issue externals pinned.id last) else none⟩

theorem pageAt_congr {old new : PinnedRead Source} (same : SameSigner before after)
    (extend : Extends old new) (query : CanonicalQueryValue) (index size : Nat) :
    after.pageAt externals new query index size = before.pageAt externals old query index size := by
  unfold CursorStore.pageAt PinnedRead.slice
  simp only [extend.results, extend.generation, extend.id, same.issue]

theorem servePage_records {index size later : Nat}
    (records : pinned.metadata = none) (typed : pinned.template.query = some query) :
    (store.servePage externals pinned index size later context).1 =
      (context.checks.check 1).map fun _ => store.pageAt externals pinned query index size := by
  have total : pinned.total externals = pinned.results.length := by
    simp [PinnedRead.total, records]
  unfold CursorStore.servePage
  dsimp only
  rw [records, typed]
  dsimp only
  unfold CursorStore.finishPage
  rw [total]
  cases context.checks.check 1 with
  | error error | ok _ => rfl

/-- A page that was answered: where its cursor led, and what was bound there. -/
structure Answered (externals : CursorExternals Source) (store : CursorStore Source)
    (cursor : ReadCursor) (limit : Option Nat) (now : Nat) (page : ReadPage)
    (after : CursorStore Source) (id : String) (index size : Nat) (pinned new : PinnedRead Source) :
    Prop where
  authentic : store.authenticate externals cursor = .ok (id, index)
  found : (store.removeExpired now).entries.get? id = some pinned
  inside : index ≤ pinned.total externals
  chosen : size = pinned.sizeAt index (clampPageItems (limit.getD pinned.pageItems))
  named : ∀ items, limit = some items → clampPageItems items = size
  extend : Extends pinned new
  stored : after.entries.get? id = some new
  bound : new.pageSizes.get? index = some (index, size)
  page : ∀ query, pinned.metadata = none → pinned.template.query = some query →
    page = store.pageAt externals pinned query index size

variable {page : ReadPage}

/-- What a page that is served says of the store before it. -/
theorem pageWithLimit_ok
    (result : store.pageWithLimit externals cursor limit clock context = (.ok page, after)) :
    ∃ id index size pinned new,
      Answered externals store cursor limit (clock 0) page after id index size pinned new := by
  unfold CursorStore.pageWithLimit at result
  split at result
  next => cases result
  dsimp only at result
  split at result
  next => cases result
  rename_i id index authentic
  split at result
  next => cases result
  rename_i pinned found
  have here : pinned.id = id := Table.key_of_get? found
  subst here
  split at result
  next => cases result
  rename_i size middle bindings context' bindResult
  obtain ⟨bound, _⟩ := bindSize_ok found bindResult
  have stored : middle.entries.get? bindings.id = some bindings := by
    rw [bound.updates.lookup, if_pos rfl]
  obtain ⟨new, extend, sizes, updates⟩ := servePage_updates stored result
  refine ⟨pinned.id, index, size, pinned, new, ?_⟩
  refine ⟨authentic, found, bound.inside, bound.chosen, bound.named,
    bound.extend.trans extend, ?_, ?_, ?_⟩
  · rw [updates.lookup, if_pos]
    rw [extend.id, bound.extend.id]
  · rw [sizes]
    exact bound.bound
  · intro query records typed
    have served := congrArg Prod.fst result
    rw [servePage_records (bound.extend.metadata records)
      (bound.extend.template.symm ▸ typed)] at served
    cases last : context'.checks.check 1 with
    | error error =>
      rw [last] at served
      cases served
    | ok _ =>
      rw [last] at served
      rw [← Except.ok.inj served]
      refine pageAt_congr ?_ bound.extend query index size
      exact (removeExpired_signer store (clock 0)).trans bound.updates.signer

/-- A page at an offset that was read before: the bound size or none may be named, and the
answer is the page again. -/
theorem pageWithLimit_again {id : String}
    (authentic : store.authenticate externals cursor = .ok (id, index))
    (found : (store.removeExpired (clock 0)).entries.get? id = some pinned)
    (records : pinned.metadata = none) (typed : pinned.template.query = some query)
    (inside : index ≤ pinned.results.length)
    (bound : pinned.pageSizes.get? index = some (index, size))
    (named : ∀ items, limit = some items → clampPageItems items = size)
    (open_ : context.checks.Open) :
    (store.pageWithLimit externals cursor limit clock context).1 =
      .ok (store.pageAt externals pinned query index size) := by
  have total : pinned.total externals = pinned.results.length := by
    simp [PinnedRead.total, records]
  have chosen : pinned.sizeAt index (clampPageItems (limit.getD pinned.pageItems)) = size := by
    simp [PinnedRead.sizeAt, bound]
  have agreed : ¬ (limit.isSome = true ∧
      clampPageItems (limit.getD pinned.pageItems) ≠ size) := by
    rintro ⟨some_, differs⟩
    obtain ⟨items, rfl⟩ := Option.isSome_iff_exists.mp some_
    exact differs (named items rfl)
  have bindings : (store.removeExpired (clock 0)).bindSize externals pinned index limit context =
      .ok (size, store.removeExpired (clock 0), pinned, context) := by
    unfold CursorStore.bindSize
    dsimp only
    rw [chosen, total, if_neg (not_lt.mpr inside), if_neg agreed, if_pos (by simp [bound])]
  unfold CursorStore.pageWithLimit
  simp only [open_.check, (removeExpired_signer store (clock 0)).authenticate, authentic, found,
    bindings]
  rw [servePage_records records typed, open_.check]
  rw [Except.map, pageAt_congr (removeExpired_signer store (clock 0)) (.refl pinned)]

theorem pageWithLimit_refused {items : Nat} {id : String}
    (authentic : store.authenticate externals cursor = .ok (id, index))
    (found : (store.removeExpired (clock 0)).entries.get? id = some pinned)
    (bound : pinned.pageSizes.get? index = some (index, size))
    (differs : clampPageItems items ≠ size) (started : context.checks 0 = none) :
    store.pageWithLimit externals cursor (some items) clock context =
      (.error .invalidReadCursor, store.removeExpired (clock 0)) := by
  have first : context.checks.check 0 = .ok () := by simp [Context.check, started]
  have chosen : pinned.sizeAt index (clampPageItems items) = size := by
    simp [PinnedRead.sizeAt, bound]
  have bindings : (store.removeExpired (clock 0)).bindSize externals pinned index (some items)
      context = .error .invalidReadCursor := by
    unfold CursorStore.bindSize
    simp only [Option.getD_some, Option.isSome_some, true_and, chosen]
    rw [if_pos differs]
    split <;> rfl
  unfold CursorStore.pageWithLimit
  simp only [first, (removeExpired_signer store (clock 0)).authenticate, authentic, found, bindings]

/-- The identifier of the read that a call pins, if it pins one. -/
def CursorCall.pins : CursorCall Source → Option String
  | .openRead id _ _ _ _ => some id.text
  | .openMetadata id _ _ _ _ _ _ => some id.text
  | _ => none

theorem carries_insert {bytes : Nat} {id : String} (other : id ≠ pinned.id) :
    Carries id store { store with
      entries := store.entries.insert pinned, retainedBytes := bytes } := by
  refine ⟨⟨rfl, rfl⟩, fun new found => ⟨new, ?_, .refl new⟩⟩
  change (store.entries.insert pinned).get? id = some new at found
  rw [Table.get?_insert_of_ne store.entries other] at found
  exact found

variable {id : Uuid} {outcome : ExecutionOutcome} {pageItems : Option Nat}

/-- An open leaves the other reads as they were. -/
theorem openRead_carries
    (result : store.openRead externals id outcome pageItems clock context = (reply, after))
    {other : String} (differs : other ≠ id.text) : Carries other store after := by
  have removed := removeExpired_carries store (clock 0) other
  unfold CursorStore.openRead at result
  split at result
  next =>
    cases result
    exact .refl other store
  dsimp only at result
  split at result
  next =>
    cases result
    exact removed
  rename_i query _
  split at result
  next =>
    cases result
    exact removed
  rename_i retained _
  split at result
  next =>
    split at result
    next =>
      cases result
      exact removed
    cases result
    exact removed
  split at result
  next =>
    cases result
    exact removed
  split at result
  next =>
    cases result
    exact removed
  next charged _ =>
    exact removed.trans ((carries_insert differs).trans
      (pageWithLimit_carries result other))

/-- An open of metadata leaves the other reads as they were. -/
theorem openMetadata_carries {source : Source} {generation : CollectionGeneration} {retained : Nat}
    (result : store.openMetadata externals id source generation pageItems retained clock context =
      (reply, after)) {other : String} (differs : other ≠ id.text) :
    Carries other store after := by
  have removed := removeExpired_carries store (clock 0) other
  unfold CursorStore.openMetadata at result
  split at result
  next =>
    cases result
    exact .refl other store
  dsimp only at result
  split at result
  next =>
    cases result
    exact removed
  split at result
  next =>
    cases result
    exact removed
  split at result
  next =>
    cases result
    exact removed
  split at result
  next =>
    cases result
    exact removed
  split at result
  next =>
    cases result
    exact removed
  split at result
  next =>
    cases result
    exact removed
  cases result
  exact removed.trans (carries_insert differs)

/-- A call leaves a pinned read alone, but for more bound sizes, unless it pins another
read under its identifier. -/
theorem CursorStep.carries {call : CursorCall Source} {reply : Except ProviderError CursorReply}
    (step : CursorStep externals before call reply after) {id : String}
    (other : call.pins ≠ some id) : Carries id before after := by
  have state : (cursorCall externals before call).2 = after := congrArg Prod.snd step
  rw [← state]
  cases call with
  | openRead new outcome pageItems clock context =>
    have differs : id ≠ new.text := fun same => other (by rw [same]; rfl)
    exact openRead_carries rfl differs
  | openMetadata new source generation pageItems retained clock context =>
    have differs : id ≠ new.text := fun same => other (by rw [same]; rfl)
    exact openMetadata_carries rfl differs
  | page cursor limit clock context => exact pageWithLimit_carries rfl id
  | measurements now => exact removeExpired_carries before now id
  | release cursor =>
    change Carries id before (before.release externals cursor).2
    unfold CursorStore.release
    split
    next => exact .refl id before
    rename_i released index _
    split
    next => exact .refl id before
    rename_i removed _
    refine ⟨⟨rfl, rfl⟩, fun new found => ⟨new, ?_, .refl new⟩⟩
    change (before.entries.erase released).get? id = some new at found
    rw [Table.get?_erase] at found
    split at found
    next => cases found
    next => exact found

/-- A call of the store with its reply. -/
abbrev CursorExchange (Source : Type) :=
  Exchange (CursorStore Source) (CursorCall Source) (Except ProviderError CursorReply)

theorem Carries.run {start finish : CursorStore Source} {exchanges : List (CursorExchange Source)}
    {id : String} (trace : Trace (CursorStep externals) start exchanges finish)
    (fresh : ∀ exchange ∈ exchanges, exchange.call.pins ≠ some id) : Carries id start finish :=
  trace.relates (fun store => .refl id store) Carries.trans
    fun exchange member step => step.carries (fresh exchange member)

/-- A pinned read, if it is still there, has these records and this template. -/
def Holds (id : Uuid) (records : List Value) (query : CanonicalQueryValue)
    (store : CursorStore Source) : Prop :=
  ∀ pinned, store.entries.get? id.text = some pinned →
    pinned.results = records ∧ pinned.metadata = none ∧ pinned.template = ⟨some query⟩ ∧
      pinned.Sized

theorem Holds.carried {records : List Value} (holds : Holds id records query before)
    (carries : Carries id.text before after) : Holds id records query after := by
  intro new found
  obtain ⟨old, oldFound, extend⟩ := carries.entry new found
  obtain ⟨results, metadata, template, sized⟩ := holds old oldFound
  exact ⟨extend.results.trans results, extend.metadata metadata, extend.template.trans template,
    extend.sized sized⟩

/-- The records of a page. -/
def ReadPage.records (page : ReadPage) : List Value :=
  match page.outcome.operation.query with
  | some query => query.records
  | none => []

variable {records : List Value}

/-- The pages of a reader that starts with a cursor and follows the next ones. -/
def Reads : Option ReadCursor → List (CursorExchange Source) → List ReadPage → Prop
  | _, [], pages => pages = []
  | cursor, exchange :: rest, pages =>
    ∃ token limit clock context page later, cursor = some token ∧
      exchange.call = .page token limit clock context ∧
      exchange.reply = .ok (.page page) ∧ pages = page :: later ∧ Reads page.next rest later

/-- The cursor behind the last of some pages. -/
def lastNext (cursor : Option ReadCursor) (pages : List ReadPage) : Option ReadCursor :=
  match pages.getLast? with
  | some page => page.next
  | none => cursor

theorem lastNext_cons (cursor : Option ReadCursor) (page : ReadPage) (pages : List ReadPage) :
    lastNext cursor (page :: pages) = lastNext page.next pages := by
  cases pages with
  | nil => rfl
  | cons next rest =>
    unfold lastNext
    rw [List.getLast?_cons_cons]
    cases last : (next :: rest).getLast? with
    | none => simp at last
    | some page => rfl

/-- A page of records from one offset to another. -/
structure Slice (issue : Nat → ReadCursor) (records : List Value) (first last : Nat)
    (page : ReadPage) : Prop where
  advances : first < records.length → first < last
  inside : last ≤ records.length
  contents : page.records = (records.drop first).take (last - first)
  next : page.next = if last < records.length then some (issue last) else none
  flag : ∃ query, page.outcome.operation.query = some query ∧ query.hasMore = page.next.isSome

theorem Slice.nonempty {issue : Nat → ReadCursor} {first last : Nat}
    (slice : Slice issue records first last page)
    (inside : first < records.length) : page.records ≠ [] := by
  have ahead := slice.advances inside
  rw [slice.contents]
  refine List.ne_nil_of_length_pos ?_
  rw [List.length_take, List.length_drop]
  omega

theorem pageAt_slice (positive : 0 < size) :
    ∃ last, Slice (store.issue externals pinned.id) pinned.results index last
      (store.pageAt externals pinned query index size) := by
  have bounded := pinned.fits
  refine ⟨min (min (index + size) u64Max) pinned.results.length, ?_, by omega, rfl, ?_, _, rfl, ?_⟩
  · intro inside
    omega
  · unfold CursorStore.pageAt
    simp only [decide_eq_true_eq]
  · unfold CursorStore.pageAt setHasMore
    simp only [decide_eq_true_eq]
    split
    next more => simp only [more, decide_true, Option.isSome_some]
    next whole => simp only [whole, decide_false, Option.isSome_none]

theorem Answered.slice {index : Nat} {now : Nat} {found : String} {offset size : Nat}
    {pinned new : PinnedRead Source}
    (answered : Answered externals store cursor limit now page after found offset size pinned new)
    (holds : Holds id records query store)
    (authentic : store.authenticate externals cursor = .ok (id.text, index)) :
    offset = index ∧ found = id.text ∧
      ∃ last, Slice (store.issue externals id.text) records index last page := by
  have same := answered.authentic.symm.trans authentic
  cases same
  have removed := holds.carried (removeExpired_carries store now id.text)
  obtain ⟨results, metadata, template, sized⟩ := removed pinned answered.found
  have here : pinned.id = id.text := Table.key_of_get? answered.found
  have positive : 0 < size := by
    rw [answered.chosen, PinnedRead.sizeAt]
    cases bound : pinned.pageSizes.get? index with
    | none => exact clampPageItems_pos _
    | some row =>
      rw [Option.map_some, Option.getD_some, ← (sized index row bound).2]
      exact clampPageItems_pos _
  have page := answered.page query metadata (by rw [template])
  refine ⟨rfl, rfl, ?_⟩
  rw [page, ← here, ← results]
  exact pageAt_slice positive

theorem CursorStep.paged {reply : Except ProviderError CursorReply}
    (step : CursorStep externals before (.page cursor limit clock context) reply after) :
    ∃ result, before.pageWithLimit externals cursor limit clock context = (result, after) ∧
      reply = result.map .page := by
  refine ⟨(before.pageWithLimit externals cursor limit clock context).1, ?_, ?_⟩
  · have state := congrArg Prod.snd step
    exact Prod.ext rfl state
  · exact (congrArg Prod.fst step).symm

theorem CursorStep.page_ok
    (step : CursorStep externals before (.page cursor limit clock context) (.ok (.page page))
      after) :
    before.pageWithLimit externals cursor limit clock context = (.ok page, after) := by
  obtain ⟨result, called, replied⟩ := step.paged
  cases result with
  | error error => cases replied
  | ok other =>
    cases replied
    exact called

/-- A chain of pages shows the records that follow its offset, each once. -/
theorem Reads.pages {start finish : CursorStore Source}
    {exchanges chain : List (CursorExchange Source)} {pages : List ReadPage} {offset : Nat}
    (trace : Trace (CursorStep externals) start exchanges finish)
    (fresh : ∀ exchange ∈ exchanges, exchange.call.pins ≠ some id.text)
    (holds : Holds id records query start) (chosen : chain.Sublist exchanges)
    (bounded : records.length ≤ u64Max) (inside : offset < records.length)
    (reads : Reads (some (start.issue externals id.text offset)) chain pages) :
    ∃ reached, offset ≤ reached ∧ reached ≤ records.length ∧
      pages.flatMap ReadPage.records = (records.drop offset).take (reached - offset) ∧
      (∀ page ∈ pages, page.records ≠ []) ∧
      (pages ≠ [] → lastNext none pages =
        if reached < records.length then some (start.issue externals id.text reached) else none) := by
  induction exchanges generalizing start chain pages offset with
  | nil =>
    obtain rfl := List.sublist_nil.mp chosen
    obtain rfl := reads
    exact ⟨offset, le_rfl, inside.le, by simp, by simp, fun contrary => absurd rfl contrary⟩
  | cons exchange rest ih =>
    obtain ⟨rfl, step, tail⟩ := trace
    have carries := step.carries (fresh exchange List.mem_cons_self)
    have laterFresh : ∀ other ∈ rest, other.call.pins ≠ some id.text :=
      fun other member => fresh other (List.mem_cons_of_mem _ member)
    have laterHolds := holds.carried carries
    cases chosen with
    | cons _ later =>
      rw [← carries.signer.issue] at reads
      obtain ⟨reached, facts⟩ := ih tail laterFresh laterHolds later inside reads
      simp only [carries.signer.issue] at facts
      exact ⟨reached, facts⟩
    | @cons_cons chain _ _ later =>
      obtain ⟨token, limit, clock, context, page, more, here, asked, replied, rfl, follows⟩ := reads
      obtain rfl := Option.some.inj here
      rw [asked, replied] at step
      obtain ⟨found, index, size, pinned, new, answered⟩ := pageWithLimit_ok step.page_ok
      obtain ⟨_, same⟩ := authenticate_issue_ok (by omega) answered.authentic
      cases same
      obtain ⟨_, _, last, slice⟩ := answered.slice holds answered.authentic
      have ahead := slice.advances inside
      have within := slice.inside
      have filled := slice.nonempty inside
      rw [List.flatMap_cons, slice.contents]
      by_cases further : last < records.length
      · rw [slice.next, if_pos further, ← carries.signer.issue] at follows
        obtain ⟨reached, beyond, limited, contents, others, next⟩ :=
          ih tail laterFresh laterHolds later further follows
        refine ⟨reached, by omega, limited, ?_, List.forall_mem_cons.mpr ⟨filled, others⟩,
          fun _ => ?_⟩
        · have parts : reached - offset = (last - offset) + (reached - last) := by omega
          have rest : offset + (last - offset) = last := by omega
          rw [contents, parts, List.take_add, List.drop_drop, rest]
        · rw [lastNext_cons]
          cases more with
          | nil =>
            have stopped : reached = last := by
              have none := congrArg List.length contents
              simp only [List.flatMap_nil, List.length_nil, List.length_take,
                List.length_drop] at none
              omega
            rw [stopped]
            exact slice.next
          | cons second others =>
            rw [lastNext_cons, ← lastNext_cons none, next (List.cons_ne_nil _ _)]
            simp only [carries.signer.issue]
      · have whole : last = records.length := by omega
        rw [slice.next, if_neg further] at follows
        cases chain with
        | nil =>
          obtain rfl := follows
          refine ⟨last, ahead.le, within, by simp, by simpa using filled, fun _ => ?_⟩
          rw [lastNext_cons]
          exact slice.next
        | cons second others =>
          obtain ⟨_, _, _, _, _, _, contrary, _⟩ := follows
          cases contrary

theorem holds_insert {generation : CollectionGeneration} {pageItems retained now bytes : Nat} :
    Holds id query.records query.cleared { store with
      retainedBytes := bytes
      entries := store.entries.insert (pinnedRead id generation query pageItems retained now) } := by
  intro pinned found
  change (store.entries.insert _).get? id.text = some pinned at found
  have here : (store.entries.insert (pinnedRead id generation query pageItems retained now)).get?
      id.text = some (pinnedRead id generation query pageItems retained now) :=
    Table.get?_insert_self store.entries _
  rw [here] at found
  cases found
  refine ⟨rfl, rfl, rfl, ?_⟩
  intro offset row contrary
  cases contrary

/-- A read that was opened: its first page is all of it, or it is pinned and the page is
its beginning. -/
theorem openRead_ok (typed : outcome.operation.query = some query)
    (result : store.openRead externals id outcome pageItems clock context = (.ok page, after)) :
    (page.next = none ∧ page.records = query.records ∧
      ∃ value, page.outcome.operation.query = some value ∧ value.hasMore = false) ∨
    (Holds id query.records query.cleared after ∧ after.Readable ∧ query.records ≠ [] ∧
      ∃ last, Slice (after.issue externals id.text) query.records 0 last page) := by
  unfold CursorStore.openRead at result
  split at result
  next => cases result
  dsimp only at result
  rw [typed] at result
  dsimp only at result
  split at result
  next => cases result
  rename_i retained _
  split at result
  next =>
    split at result
    next => cases result
    cases result
    exact .inl ⟨rfl, rfl, _, rfl, rfl⟩
  rename_i more
  split at result
  next => cases result
  split at result
  next => cases result
  rename_i charged _
  have carries := pageWithLimit_carries result id.text
  obtain ⟨found, index, size, pinned, new, answered⟩ := pageWithLimit_ok result
  obtain ⟨readable, same⟩ := authenticate_issue_ok (Nat.zero_le _) answered.authentic
  cases same
  obtain ⟨_, _, last, slice⟩ := answered.slice holds_insert answered.authentic
  have signer := carries.signer
  refine .inr ⟨holds_insert.carried carries, ?_, ?_, last, ?_⟩
  · unfold CursorStore.Readable at readable ⊢
    rw [signer.epoch]
    exact readable
  · intro empty
    rw [empty, List.length_nil] at more
    exact more (Nat.zero_le _)
  · have issues : ∀ number, after.issue externals id.text number =
        CursorStore.issue externals _ id.text number := fun number =>
      signer.issue id.text number
    rw [funext issues]
    exact slice

theorem CursorStep.open_ok
    (step : CursorStep externals before (.openRead id outcome pageItems clock context)
      (.ok (.page page)) after) :
    before.openRead externals id outcome pageItems clock context = (.ok page, after) := by
  have replied := congrArg Prod.fst step
  have state := congrArg Prod.snd step
  change (before.openRead externals id outcome pageItems clock context).1.map CursorReply.page =
    .ok (.page page) at replied
  change (before.openRead externals id outcome pageItems clock context).2 = after at state
  cases result : (before.openRead externals id outcome pageItems clock context).1 with
  | error error =>
    rw [result] at replied
    cases replied
  | ok other =>
    rw [result] at replied
    cases replied
    exact Prod.ext result state

theorem finishPage_flag {last total later : Nat}
    (result : store.finishPage externals pinned query last total later context =
      (.ok page, after)) :
    ∃ value, page.outcome.operation.query = some value ∧ value.hasMore = page.next.isSome := by
  unfold CursorStore.finishPage at result
  dsimp only at result
  split at result
  next => cases result
  cases result
  refine ⟨_, rfl, ?_⟩
  unfold setHasMore
  simp only [decide_eq_true_eq]
  split
  next more => simp only [more, decide_true, Option.isSome_some]
  next whole => simp only [whole, decide_false, Option.isSome_none]

theorem pageWithLimit_flag
    (result : store.pageWithLimit externals cursor limit clock context = (.ok page, after)) :
    ∃ value, page.outcome.operation.query = some value ∧ value.hasMore = page.next.isSome := by
  unfold CursorStore.pageWithLimit at result
  split at result
  next => cases result
  dsimp only at result
  split at result
  next => cases result
  split at result
  next => cases result
  split at result
  next => cases result
  rename_i size middle pinned context' _
  unfold CursorStore.servePage at result
  dsimp only at result
  split at result
  next =>
    split at result
    next => cases result
    next => exact finishPage_flag result
  split at result
  next => cases result
  split at result
  next => cases result
  split at result
  next => cases result
  next => exact finishPage_flag result

end Mdbase.Provider
