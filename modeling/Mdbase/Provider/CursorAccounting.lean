import Mdbase.Library.Totals
import Mdbase.Provider.PinnedRuns

/-!
# The accounts of the pinned reads

The store counts the bytes that its pinned reads retain. The count is exact in every run,
so nothing is subtracted from it that had not been added. A read that could not be opened
leaves no entry behind, provided that its first page can be served once it is pinned.
-/

namespace Mdbase.Provider

open Library
open Mdbase.Runtime (u64Max Value)

variable {Source : Type} {externals : CursorExternals Source}

/-- The counters of a store are those of its entries, and within their limits. -/
structure Accounted (store : CursorStore Source) : Prop where
  exact : store.retainedBytes = store.entries.total PinnedRead.retainedBytes
  bytes : store.retainedBytes ≤ maxCursorBytes
  count : store.entries.entries.length ≤ maxActiveCursors

/-- Whatever is removed was counted. -/
structure Unsaturated (store : CursorStore Source) : Prop where
  expiry : ∀ now, ((store.entries.entries.filter fun pinned => pinned.expired now).map
    PinnedRead.retainedBytes).sum ≤ store.retainedBytes
  release : ∀ id pinned, store.entries.get? id = some pinned →
    pinned.retainedBytes ≤ store.retainedBytes

variable {store : CursorStore Source}

theorem Accounted.unsaturated (accounted : Accounted store) :
    Unsaturated store where
  expiry := by
    intro now
    have parts := Table.sum_filter_add store.entries.entries PinnedRead.retainedBytes
      fun pinned => pinned.expired now
    rw [accounted.exact]
    unfold Table.total
    omega
  release := by
    intro id pinned found
    rw [accounted.exact]
    exact Table.weight_le_total _ found

/-- Replacing a read keeps the accounts if its bytes are counted. -/
theorem Accounted.replace (accounted : Accounted store)
    {old new : PinnedRead Source} (found : store.entries.get? new.id = some old) {bytes : Nat}
    (counted : bytes + old.retainedBytes = store.retainedBytes + new.retainedBytes)
    (within : bytes ≤ maxCursorBytes) :
    Accounted { store with entries := store.entries.insert new, retainedBytes := bytes } where
  exact := by
    have stored := store.entries.total_insert_add PinnedRead.retainedBytes new
    rw [found, ← accounted.exact] at stored
    simp only [Option.map_some, Option.getD_some] at stored
    dsimp only
    omega
  bytes := within
  count := by
    have stored := store.entries.total_insert_add (fun _ => 1) new
    rw [found, ← Table.length_eq_total, ← Table.length_eq_total] at stored
    simp only [Option.map_some, Option.getD_some] at stored
    have bound := accounted.count
    dsimp only
    omega

theorem Accounted.add (accounted : Accounted store)
    {new : PinnedRead Source} (fresh : store.entries.get? new.id = none)
    (within : store.retainedBytes + new.retainedBytes ≤ maxCursorBytes)
    (room : store.entries.entries.length < maxActiveCursors) :
    Accounted { store with
      entries := store.entries.insert new
      retainedBytes := store.retainedBytes + new.retainedBytes } where
  exact := by
    have stored := store.entries.total_insert_add PinnedRead.retainedBytes new
    rw [fresh, ← accounted.exact] at stored
    simp only [Option.map_none, Option.getD_none] at stored
    dsimp only
    omega
  bytes := within
  count := by
    have stored := store.entries.total_insert_add (fun _ => 1) new
    rw [fresh, ← Table.length_eq_total, ← Table.length_eq_total] at stored
    simp only [Option.map_none, Option.getD_none] at stored
    dsimp only
    omega

theorem Accounted.removeExpired (accounted : Accounted store)
    (now : Nat) : Accounted (store.removeExpired now) where
  exact := by
    have parts := Table.sum_filter_add store.entries.entries PinnedRead.retainedBytes
      fun pinned => pinned.expired now
    have counted := accounted.exact
    unfold Table.total at counted
    simp only [CursorStore.removeExpired, Table.total, Table.filter, Bool.not_eq_true,
      Bool.decide_eq_false]
    omega
  bytes := by
    have bound := accounted.bytes
    simp only [CursorStore.removeExpired]
    omega
  count := le_trans (List.length_filter_le _ _) accounted.count

theorem Accounted.release {store : CursorStore Source} (accounted : Accounted store)
    {id : String} {removed : PinnedRead Source} (found : store.entries.get? id = some removed) :
    Accounted { store with
      entries := store.entries.erase id
      retainedBytes := store.retainedBytes - removed.retainedBytes } where
  exact := by
    have erased := store.entries.sum_erase_add PinnedRead.retainedBytes id
    rw [found, ← accounted.exact] at erased
    simp only [Option.map_some, Option.getD_some] at erased
    dsimp only
    omega
  bytes := le_trans (Nat.sub_le _ _) accounted.bytes
  count := le_trans (List.length_filter_le _ _) accounted.count

variable {store after : CursorStore Source} {context context' : OperationContext}

theorem Accounted.bindSize (accounted : Accounted store)
    {pinned new : PinnedRead Source} {index size : Nat} {limit : Option Nat}
    (found : store.entries.get? pinned.id = some pinned)
    (result : store.bindSize externals pinned index limit context =
      .ok (size, after, new, context')) :
    Accounted after ∧ after.entries.get? new.id = some new := by
  unfold CursorStore.bindSize at result
  dsimp only at result
  split at result
  next => cases result
  split at result
  next => cases result
  split at result
  next =>
    cases result
    exact ⟨accounted, found⟩
  split at result
  next => cases result
  split at result
  next => cases result
  rename_i within
  cases charged : context.chargeRetained pageChoiceBytes with
  | error error =>
    rw [charged] at result
    cases result
  | ok context'' =>
    rw [charged] at result
    cases result
    refine ⟨?_, Table.get?_insert_self _ _⟩
    apply accounted.replace
    · exact found
    · dsimp only
      omega
    · exact not_lt.mp within

variable {context : OperationContext} {reply : Except ProviderError ReadPage}
  {query : CanonicalQueryValue}

theorem Accounted.finishPage (accounted : Accounted store) {old pinned : PinnedRead Source}
    {last total later : Nat} (found : store.entries.get? pinned.id = some old)
    (same : pinned.retainedBytes = old.retainedBytes)
    (result : store.finishPage externals pinned query last total later context = (reply, after)) :
    Accounted after := by
  have kept : Accounted { store with
      entries := store.entries.insert { pinned with lastAccess := later } } := by
    apply accounted.replace
    · exact found
    · dsimp only
      omega
    · exact accounted.bytes
  unfold CursorStore.finishPage at result
  dsimp only at result
  split at result
  next =>
    cases result
    exact kept
  cases result
  exact kept

/-- Serving a page keeps the accounts. -/
theorem Accounted.servePage (accounted : Accounted store) {pinned : PinnedRead Source}
    {index size later : Nat} (found : store.entries.get? pinned.id = some pinned)
    (result : store.servePage externals pinned index size later context = (reply, after)) :
    Accounted after := by
  unfold CursorStore.servePage at result
  dsimp only at result
  cases kind : pinned.metadata with
  | none =>
    rw [kind] at result
    dsimp only at result
    split at result
    next =>
      cases result
      exact accounted
    next => exact accounted.finishPage found rfl result
  | some source =>
    rw [kind] at result
    dsimp only at result
    have loaded : Accounted { store with
        entries := store.entries.insert { pinned with
          metadata := some (externals.page source index size context).2 } } := by
      apply accounted.replace
      · exact found
      · rfl
      · exact accounted.bytes
    split at result
    next =>
      cases result
      exact loaded
    split at result
    next =>
      cases result
      exact loaded
    split at result
    next =>
      cases result
      exact loaded
    next => exact loaded.finishPage (Table.get?_insert_self _ _) rfl result

theorem Accounted.pageWithLimit (accounted : Accounted store)
    {cursor : ReadCursor} {limit : Option Nat} {clock : Nat → Nat}
    (result : store.pageWithLimit externals cursor limit clock context = (reply, after)) :
    Accounted after := by
  unfold CursorStore.pageWithLimit at result
  split at result
  next =>
    cases result
    exact accounted
  dsimp only at result
  have reaped := accounted.removeExpired (clock 0)
  split at result
  next =>
    cases result
    exact reaped
  rename_i id index _
  split at result
  next =>
    cases result
    exact reaped
  rename_i pinned found
  have here : pinned.id = id := Table.key_of_get? found
  split at result
  next =>
    cases result
    exact reaped
  next bound =>
    obtain ⟨kept, stored⟩ := reaped.bindSize (by rw [here]; exact found) bound
    exact kept.servePage stored result

/-- The identifier of a new read is new. -/
def CursorCall.Fresh (store : CursorStore Source) (call : CursorCall Source) : Prop :=
  ∀ id, call.pins = some id → store.entries.get? id = none

/-- Expired entries have been reaped from the store, and nothing else. -/
def Reaped (before after : CursorStore Source) : Prop :=
  ∃ instants : List Nat, after = instants.foldl CursorStore.removeExpired before

theorem Reaped.refl (store : CursorStore Source) : Reaped store store := ⟨[], rfl⟩

theorem Reaped.once (store : CursorStore Source) (now : Nat) :
    Reaped store (store.removeExpired now) := ⟨[now], rfl⟩

theorem CursorStore.ext {left right : CursorStore Source} (entries : left.entries = right.entries)
    (retainedBytes : left.retainedBytes = right.retainedBytes)
    (signingKey : left.signingKey = right.signingKey)
    (runtimeEpoch : left.runtimeEpoch = right.runtimeEpoch) : left = right := by
  cases left
  cases right
  simp_all

/-- The operation has this much left to retain. -/
def OperationContext.Affords (context : OperationContext) (bytes : Nat) : Prop :=
  context.retained + bytes ≤ u64Max ∧ context.retained + bytes ≤ context.maxRetainedBytes

theorem chargeRetained_ok_iff {bytes : Nat} :
    context.chargeRetained bytes = .ok context' ↔
      context.Affords bytes ∧ context' = { context with retained := context.retained + bytes } := by
  unfold OperationContext.chargeRetained OperationContext.Affords
  constructor
  · intro charged
    split at charged
    next => cases charged
    rename_i total
    split at charged
    next => cases charged
    next limit =>
      cases charged
      exact ⟨⟨not_lt.mp total, not_lt.mp limit⟩, rfl⟩
  · rintro ⟨⟨total, limit⟩, rfl⟩
    rw [if_neg (not_lt.mpr total), if_neg (not_lt.mpr limit)]

/-- An `open` reserves an entry for a query with the given size: it has more records than
one page, and store and operation have room for them. -/
structure Reserves (externals : CursorExternals Source) (store : CursorStore Source)
    (outcome : ExecutionOutcome) (pageItems : Option Nat) (clock : Nat → Nat)
    (context : OperationContext) (query : CanonicalQueryValue) (retained : Nat) : Prop where
  started : context.checks 0 = none
  typed : outcome.operation.query = some query
  several : clampPageItems (pageItems.getD defaultPageItems) < query.records.length
  measured : externals.measure query.records context.maxRetainedBytes = .ok retained
  bytes : (store.removeExpired (clock 0)).retainedBytes + retained ≤ maxCursorBytes
  room : (store.removeExpired (clock 0)).entries.entries.length < maxActiveCursors
  affords : context.Affords retained

/-- The entry that is reserved. -/
def reservedEntry (id : Uuid) (outcome : ExecutionOutcome) (pageItems : Option Nat)
    (clock : Nat → Nat) (query : CanonicalQueryValue) (retained : Nat) : PinnedRead Source :=
  pinnedRead id outcome.generation query (clampPageItems (pageItems.getD defaultPageItems)) retained
    (clock 1)

/-- The store with the reserved entry. -/
def CursorStore.reserved (store : CursorStore Source) (id : Uuid) (outcome : ExecutionOutcome)
    (pageItems : Option Nat) (clock : Nat → Nat) (query : CanonicalQueryValue) (retained : Nat) :
    CursorStore Source :=
  { store.removeExpired (clock 0) with
    retainedBytes := (store.removeExpired (clock 0)).retainedBytes + retained
    entries := (store.removeExpired (clock 0)).entries.insert
      (reservedEntry id outcome pageItems clock query retained) }

/-- An `open` that reserves no entry leaves the store but for expired entries; one that
does returns what the first page returns. -/
theorem openRead_cases (externals : CursorExternals Source) (store : CursorStore Source)
    (id : Uuid) (outcome : ExecutionOutcome) (pageItems : Option Nat) (clock : Nat → Nat) (context : OperationContext) :
    Reaped store (store.openRead externals id outcome pageItems clock context).2 ∨
      ∃ query retained,
        Reserves externals store outcome pageItems clock context query retained ∧
        store.openRead externals id outcome pageItems clock context =
          (store.reserved id outcome pageItems clock query retained).pageWithLimit externals
            ((store.reserved id outcome pageItems clock query retained).issue externals id.text 0)
            none (fun number => clock (number + 2))
            ({ context with retained := context.retained + retained }.later 1) := by
  cases result : store.openRead externals id outcome pageItems clock context with
  | mk reply after =>
  unfold CursorStore.openRead at result
  split at result
  next =>
    cases result
    exact .inl (.refl store)
  rename_i started
  have started : context.checks 0 = none := by
    unfold Context.check at started
    split at started
    next => cases started
    next => cases started
    next open_ => exact open_
  dsimp only at result
  split at result
  next =>
    cases result
    exact .inl (.once store _)
  rename_i query typed
  split at result
  next =>
    cases result
    exact .inl (.once store _)
  rename_i retained measured
  split at result
  next =>
    split at result
    next =>
      cases result
      exact .inl (.once store _)
    cases result
    exact .inl (.once store _)
  rename_i several
  have some_records : query.records ≠ [] := by
    intro none
    simp [none] at several
  rw [if_neg some_records] at measured
  split at result
  next =>
    cases result
    exact .inl (.once store _)
  rename_i capacity
  simp only [not_or, not_lt, not_le] at capacity
  split at result
  next =>
    cases result
    exact .inl (.once store _)
  rename_i context' charged
  obtain ⟨affords, rfl⟩ := chargeRetained_ok_iff.mp charged
  exact .inr ⟨query, retained, ⟨started, typed, not_le.mp several, measured,
    capacity.2.2.2, capacity.2.1, affords⟩, result.symm⟩

theorem Accounted.reserved (accounted : Accounted store) {id : Uuid} {outcome : ExecutionOutcome}
    {pageItems : Option Nat} {clock : Nat → Nat} {retained : Nat}
    (reserves : Reserves externals store outcome pageItems clock context query retained)
    (fresh : store.entries.get? id.text = none) :
    Accounted (store.reserved id outcome pageItems clock query retained) := by
  have reaped := accounted.removeExpired (clock 0)
  apply reaped.add
  · change (store.entries.filter _).get? id.text = none
    rw [Table.get?_filter, fresh]
    rfl
  · exact reserves.bytes
  · exact reserves.room

variable {before after : CursorStore Source}

theorem Reaped.accounted (reaped : Reaped before after)
    (accounted : Accounted before) : Accounted after := by
  obtain ⟨instants, rfl⟩ := reaped
  induction instants generalizing before with
  | nil => exact accounted
  | cons now rest ih => exact ih (accounted.removeExpired now)

/-- The first page of the read that an `open` reserves is served, unless the read has
expired in the meantime. -/
def CursorCall.FirstPageServed (externals : CursorExternals Source) (store : CursorStore Source) :
    CursorCall Source → Prop
  | .openRead _ outcome pageItems clock context => ∀ query retained,
      Reserves externals store outcome pageItems clock context query retained →
        context.checks 1 = none ∧
          (clock 2 - clock 1 ≥ idleLease ∨
            ((store.removeExpired (clock 0)).retainedBytes + retained + pageChoiceBytes ≤
                maxCursorBytes ∧
              context.Affords (retained + pageChoiceBytes) ∧ context.checks 2 = none))
  | _ => True

section Reserved

variable {store : CursorStore Source} {id : Uuid} {outcome : ExecutionOutcome}
  {pageItems : Option Nat} {clock : Nat → Nat} {context : OperationContext}
  {query : CanonicalQueryValue} {retained : Nat}

theorem reservedEntry_expired (now : Nat) :
    (reservedEntry id outcome pageItems clock query retained : PinnedRead Source).expired now =
      decide (now - clock 1 ≥ idleLease) := by
  simp only [PinnedRead.expired, reservedEntry, pinnedRead, hardLifetime, idleLease]
  exact decide_eq_decide.mpr (by omega)

theorem reserved_reaped (accounted : Accounted store)
    (reserves : Reserves externals store outcome pageItems clock context query retained)
    (fresh : store.entries.get? id.text = none) (late : clock 2 - clock 1 ≥ idleLease) :
    (store.reserved id outcome pageItems clock query retained).removeExpired (clock 2) =
      (store.removeExpired (clock 0)).removeExpired (clock 2) := by
  have counted := (accounted.reserved reserves fresh).removeExpired (clock 2)
  have counted' := (accounted.removeExpired (clock 0)).removeExpired (clock 2)
  have entries : ((store.reserved id outcome pageItems clock query retained).removeExpired
      (clock 2)).entries = ((store.removeExpired (clock 0)).removeExpired (clock 2)).entries := by
    apply Table.ext
    intro other
    change ((Table.insert _ _).filter _).get? other = (Table.filter _ _).get? other
    rw [Table.get?_filter, Table.get?_filter, Table.get?_insert]
    split
    next same =>
      have absent : (store.removeExpired (clock 0)).entries.get? other = none := by
        change (store.entries.filter _).get? other = none
        have here : other = id.text := same
        rw [Table.get?_filter, here, fresh]
        rfl
      rw [absent, Option.filter_some_neg (by simp [reservedEntry_expired, late])]
      rfl
    next => rfl
  have bytes : ((store.reserved id outcome pageItems clock query retained).removeExpired
      (clock 2)).retainedBytes =
        ((store.removeExpired (clock 0)).removeExpired (clock 2)).retainedBytes := by
    rw [counted.exact, counted'.exact, entries]
  exact CursorStore.ext entries bytes rfl rfl

/-- A reserved read can serve its first page. -/
theorem reserved_page (id : Uuid) (readable : store.Readable)
    (reserves : Reserves externals store outcome pageItems clock context query retained)
    (started : context.checks 1 = none) (early : ¬ clock 2 - clock 1 ≥ idleLease)
    (bytes : (store.removeExpired (clock 0)).retainedBytes + retained + pageChoiceBytes ≤
      maxCursorBytes)
    (affords : context.Affords (retained + pageChoiceBytes)) (ended : context.checks 2 = none) :
    ∃ page, ((store.reserved id outcome pageItems clock query retained).pageWithLimit externals
      ((store.reserved id outcome pageItems clock query retained).issue externals id.text 0) none
      (fun number => clock (number + 2))
      ({ context with retained := context.retained + retained }.later 1)).1 = .ok page := by
  have authentic : (store.reserved id outcome pageItems clock query retained).authenticate
      externals ((store.reserved id outcome pageItems clock query retained).issue externals
        id.text 0) = .ok (id.text, 0) :=
    authenticate_issue readable id (Nat.zero_le _)
  have found : ((store.reserved id outcome pageItems clock query retained).removeExpired
      (clock 2)).entries.get? id.text =
        some (reservedEntry id outcome pageItems clock query retained) := by
    change ((Table.insert _ _).filter _).get?
      (reservedEntry id outcome pageItems clock query retained : PinnedRead Source).id = _
    rw [Table.get?_filter, Table.get?_insert_self]
    exact Option.filter_some_pos (by simpa [reservedEntry_expired] using early)
  have within : retained ≤ maxCursorBytes := by
    have := reserves.bytes
    omega
  have charged : OperationContext.chargeRetained
      ({ context with retained := context.retained + retained }.later 1) pageChoiceBytes =
        .ok { ({ context with retained := context.retained + retained }.later 1) with
          retained := context.retained + retained + pageChoiceBytes } := by
    refine chargeRetained_ok_iff.mpr ⟨?_, rfl⟩
    obtain ⟨total, limit⟩ := affords
    refine ⟨?_, ?_⟩ <;> simp only [OperationContext.later] <;> omega
  obtain ⟨⟨size, middle, new, context'⟩, bindings⟩ : ∃ bound,
      ((store.reserved id outcome pageItems clock query retained).removeExpired
        (clock 2)).bindSize externals (reservedEntry id outcome pageItems clock query retained) 0
          none ({ context with retained := context.retained + retained }.later 1) = .ok bound := by
    have counted : ((store.reserved id outcome pageItems clock query retained).removeExpired
        (clock 2)).retainedBytes ≤ (store.removeExpired (clock 0)).retainedBytes + retained :=
      Nat.sub_le _ _
    have bound : maxCursorBytes ≤ u64Max := by decide
    unfold CursorStore.bindSize
    dsimp only
    rw [if_neg (Nat.not_lt_zero _), if_neg (by simp), if_neg (by rintro ⟨⟩), if_neg, if_neg,
      charged]
    · exact ⟨_, rfl⟩
    · simp only [not_lt]
      omega
    · simp only [reservedEntry, pinnedRead, not_lt]
      have := reserves.bytes
      omega
  obtain ⟨facts, checks⟩ := bindSize_ok found bindings
  have first : (({ context with retained := context.retained + retained }.later 1).checks).check
      0 = .ok () := by
    simp [OperationContext.later, Context.check, started]
  have last : context'.checks.check 1 = .ok () := by
    rw [checks]
    simp [OperationContext.later, Context.check, ended]
  unfold CursorStore.pageWithLimit
  simp only [first, (removeExpired_signer _ _).authenticate, authentic, found, bindings]
  rw [servePage_records (facts.extend.metadata rfl) (by rw [facts.extend.template]; rfl), last]
  exact ⟨_, rfl⟩

/-- A refused open leaves the store as it was after the expired reads were removed. -/
theorem openRead_failed {after : CursorStore Source} {error : ProviderError}
    (accounted : Accounted store) (readable : store.Readable)
    (fresh : store.entries.get? id.text = none)
    (served : (CursorCall.openRead id outcome pageItems clock context).FirstPageServed externals
      store)
    (result : store.openRead externals id outcome pageItems clock context = (.error error, after)) :
    Reaped store after := by
  rcases openRead_cases externals store id outcome pageItems clock context with
    reaped | ⟨query, retained, reserves, page⟩
  · rwa [result] at reaped
  · obtain ⟨started, fits⟩ := served query retained reserves
    by_cases late : clock 2 - clock 1 ≥ idleLease
    · have expired := reserved_reaped accounted reserves fresh late
      have left : after =
          (store.reserved id outcome pageItems clock query retained).removeExpired (clock 2) := by
        have first : (({ context with retained := context.retained + retained }.later
            1).checks).check 0 = .ok () := by
          simp [OperationContext.later, Context.check, started]
        have authentic : (store.reserved id outcome pageItems clock query retained).authenticate
            externals ((store.reserved id outcome pageItems clock query retained).issue externals
              id.text 0) = .ok (id.text, 0) :=
          authenticate_issue readable id (Nat.zero_le _)
        have gone : ((store.reserved id outcome pageItems clock query retained).removeExpired
            (clock 2)).entries.get? id.text = none := by
          rw [expired]
          change ((store.entries.filter _).filter _).get? id.text = none
          rw [Table.get?_filter, Table.get?_filter, fresh]
          rfl
        rw [page] at result
        unfold CursorStore.pageWithLimit at result
        simp only [first, (removeExpired_signer _ _).authenticate, authentic, gone] at result
        exact (congrArg Prod.snd result).symm
      exact ⟨[clock 0, clock 2], left.trans expired⟩
    · obtain ⟨bytes, affords, ended⟩ := fits.resolve_left late
      obtain ⟨first, shown⟩ := reserved_page id readable reserves started late bytes affords ended
      rw [← page, result] at shown
      cases shown

end Reserved

/-- An open only reaps expired reads, or it admits one read within the limits. -/
theorem openMetadata_cases (externals : CursorExternals Source) (store : CursorStore Source)
    (id : Uuid) (source : Source) (generation : CollectionGeneration) (pageItems : Option Nat)
    (retained : Nat) (clock : Nat → Nat) (context : OperationContext) :
    Reaped store
        (store.openMetadata externals id source generation pageItems retained clock context).2 ∨
      ∃ page pinned, pinned.id = id.text ∧
        (store.removeExpired (clock 0)).retainedBytes + pinned.retainedBytes ≤ maxCursorBytes ∧
        (store.removeExpired (clock 0)).entries.entries.length < maxActiveCursors ∧
        store.openMetadata externals id source generation pageItems retained clock context =
          (.ok page, { store.removeExpired (clock 0) with
            entries := (store.removeExpired (clock 0)).entries.insert pinned
            retainedBytes := (store.removeExpired (clock 0)).retainedBytes +
              pinned.retainedBytes }) := by
  cases result : store.openMetadata externals id source generation pageItems retained clock context
    with
  | mk reply after =>
  unfold CursorStore.openMetadata at result
  split at result
  next =>
    cases result
    exact .inl (.refl store)
  dsimp only at result
  split at result
  next =>
    cases result
    exact .inl (.once store _)
  split at result
  next =>
    cases result
    exact .inl (.once store _)
  split at result
  next =>
    cases result
    exact .inl (.once store _)
  split at result
  next =>
    cases result
    exact .inl (.once store _)
  split at result
  next =>
    cases result
    exact .inl (.once store _)
  rename_i capacity
  simp only [not_or, not_lt, not_le] at capacity
  split at result
  next =>
    cases result
    exact .inl (.once store _)
  refine .inr ⟨_, _, ?_, ?_, ?_, result.symm⟩
  · rfl
  · exact capacity.2.1
  · exact capacity.2.2

/-- `CursorStore::new`. The epoch of a runtime is a new identifier. -/
def CursorStore.new (epoch : Uuid) (signingKey : List UInt8) : CursorStore Source where
  entries := .empty
  retainedBytes := 0
  signingKey := signingKey
  runtimeEpoch := epoch.text

theorem CursorStore.new_readable (epoch : Uuid) (signingKey : List UInt8) :
    (CursorStore.new epoch signingKey : CursorStore Source).Readable := by
  unfold CursorStore.Readable CursorStore.new
  rw [List.splitOn_eq_singleton (colon_not_mem_uuid epoch)]
  rfl

theorem CursorStore.new_accounted (epoch : Uuid) (signingKey : List UInt8) :
    Accounted (CursorStore.new epoch signingKey : CursorStore Source) where
  exact := rfl
  bytes := Nat.zero_le _
  count := Nat.zero_le _

variable {call : CursorCall Source} {reply : Except ProviderError CursorReply}

/-- Every call keeps the accounts. -/
theorem CursorStep.accounted (step : CursorStep externals before call reply after)
    (fresh : call.Fresh before) (accounted : Accounted before) : Accounted after := by
  have state : (cursorCall externals before call).2 = after := congrArg Prod.snd step
  rw [← state]
  cases call with
  | openRead id outcome pageItems clock context =>
    change Accounted (before.openRead externals id outcome pageItems clock context).2
    rcases openRead_cases externals before id outcome pageItems clock context with
      reaped | ⟨query, retained, reserves, page⟩
    · exact reaped.accounted accounted
    · rw [page]
      have reserved := accounted.reserved reserves (fresh id.text rfl)
      exact reserved.pageWithLimit Prod.mk.eta.symm
  | openMetadata id source generation pageItems retained clock context =>
    change Accounted (before.openMetadata externals id source generation pageItems retained
      clock context).2
    rcases openMetadata_cases externals before id source generation pageItems retained clock
      context with reaped | ⟨page, pinned, here, bytes, room, result⟩
    · exact reaped.accounted accounted
    · rw [result]
      apply (accounted.removeExpired (clock 0)).add
      · rw [here]
        change (before.entries.filter _).get? id.text = none
        rw [Table.get?_filter, fresh id.text rfl]
        rfl
      · exact bytes
      · exact room
  | page cursor limit clock context => exact accounted.pageWithLimit rfl
  | measurements now => exact accounted.removeExpired now
  | release cursor =>
    change Accounted (before.release externals cursor).2
    unfold CursorStore.release
    split
    next => exact accounted
    split
    next => exact accounted
    next found => exact accounted.release found

theorem CursorStep.signer
    (step : CursorStep externals before call reply after) : SameSigner before after := by
  cases pins : call.pins with
  | none => exact (step.carries (by rw [pins]; simp : call.pins ≠ some "")).signer
  | some id =>
    have other : call.pins ≠ some (id ++ "-") := by
      rw [pins]
      intro same
      have lengths := congrArg String.length (Option.some.inj same)
      simp at lengths
    exact (step.carries other).signer

/-- The accounts of a run: they are exact after every call, nothing that is removed was not
counted, and a read that could not be opened leaves the store but for expired entries. -/
structure ExactAccounts (exchanges : List (CursorExchange Source)) : Prop where
  accounted : ∀ exchange ∈ exchanges, Accounted exchange.after
  unsaturated : ∀ exchange ∈ exchanges, Unsaturated exchange.before
  failures : ∀ exchange ∈ exchanges, exchange.call.pins.isSome →
    (∃ error, exchange.reply = .error error) → Reaped exchange.before exchange.after

theorem CursorStep.failed {before after : CursorStore Source} {call : CursorCall Source}
    {error : ProviderError} (step : CursorStep externals before call (.error error) after)
    (accounted : Accounted before) (readable : before.Readable) (fresh : call.Fresh before)
    (served : call.FirstPageServed externals before) (pins : call.pins.isSome) :
    Reaped before after := by
  cases call with
  | openRead id outcome pageItems clock context =>
    change answerWith _ _ = _ at step
    rcases result : before.openRead externals id outcome pageItems clock context with
      ⟨answer, store⟩
    rw [result] at step
    cases answer with
    | ok page => cases step
    | error stopped =>
      cases step
      exact openRead_failed accounted readable (fresh id.text rfl) served result
  | openMetadata id source generation pageItems retained clock context =>
    change answerWith _ _ = _ at step
    rcases openMetadata_cases externals before id source generation pageItems retained clock
      context with reaped | ⟨page, pinned, _, _, _, result⟩
    · have state : (before.openMetadata externals id source generation pageItems retained clock
          context).2 = after := congrArg Prod.snd step
      rwa [state] at reaped
    · rw [result] at step
      cases step
  | page cursor limit clock context | release cursor | measurements now => cases pins

/-- The accounts of pinned reads are exact in every run in which the first page of every
read that is pinned is served. -/
theorem cursor_accounts_exact {epoch : Uuid} {signingKey : List UInt8}
    {finish : CursorStore Source} {exchanges : List (CursorExchange Source)}
    (trace : Trace (CursorStep externals) (.new epoch signingKey) exchanges finish)
    (fresh : ∀ exchange ∈ exchanges, exchange.call.Fresh exchange.before)
    (served : ∀ exchange ∈ exchanges, exchange.call.FirstPageServed externals exchange.before) :
    ExactAccounts exchanges := by
  have states : ∀ exchange ∈ exchanges,
      (Accounted exchange.before ∧ exchange.before.Readable) ∧
        CursorStep externals exchange.before exchange.call exchange.reply exchange.after := by
    intro exchange member
    obtain ⟨first, rest, rfl⟩ := List.append_of_mem member
    obtain ⟨prior, step, _⟩ := trace.middle_inv
    refine ⟨?_, step⟩
    refine @Trace.invariant _ _ _ _ _ _ _ (fun store => Accounted store ∧ store.Readable) prior
      ?_ ?_
    · exact ⟨CursorStore.new_accounted epoch signingKey, CursorStore.new_readable epoch signingKey⟩
    · intro other earlier taken holds
      have member : other ∈ first ++ exchange :: rest := List.mem_append_left _ earlier
      refine ⟨taken.accounted (fresh other member) holds.1, ?_⟩
      unfold CursorStore.Readable
      rw [taken.signer.epoch]
      exact holds.2
  refine ⟨?_, ?_, ?_⟩
  · intro exchange member
    obtain ⟨⟨accounted, _⟩, step⟩ := states exchange member
    exact step.accounted (fresh exchange member) accounted
  · intro exchange member
    exact (states exchange member).1.1.unsaturated
  · rintro exchange member pins ⟨error, failed⟩
    obtain ⟨⟨accounted, readable⟩, step⟩ := states exchange member
    rw [failed] at step
    exact step.failed accounted readable (fresh exchange member) (served exchange member) pins

/-- The epoch of a runtime. -/
def runtimeEpoch : Uuid := ⟨"00000000-0000-4000-8000-0000000000ff", by decide⟩

/-- Three records are opened with pages of one record, by an operation that may retain this
many bytes. -/
def boundedOpen (maxRetainedBytes : Nat) : CursorCall Empty :=
  .openRead pinnedId ⟨⟨some threeRecords⟩, ⟨"runtime", 0⟩⟩ (some 1) (fun _ => 0)
    ⟨fun _ => none, 0, maxRetainedBytes⟩

/-- The run of this call in a new store. -/
def boundedRun (maxRetainedBytes : Nat) : List (CursorExchange Empty) :=
  Trace.perform (cursorCall plainExternals) (.new runtimeEpoch []) [boundedOpen maxRetainedBytes]

theorem cursor_accounts_exact_boundedOpen :
    (boundedRun 1024).map (fun exchange => (shownPage exchange.reply).isSome) = [true] ∧
      ExactAccounts (boundedRun 1024) := by
  refine ⟨by decide +kernel, ?_⟩
  have trace : Trace (CursorStep plainExternals) (.new runtimeEpoch []) (boundedRun 1024) _ :=
    Trace.of_perform (cursorCall plainExternals) (.new runtimeEpoch []) [boundedOpen 1024]
  refine cursor_accounts_exact trace ?_ ?_
  · intro exchange member
    obtain rfl := List.mem_singleton.mp member
    intro id _
    rfl
  · intro exchange member
    obtain rfl := List.mem_singleton.mp member
    intro query retained reserves
    obtain rfl := Except.ok.inj reserves.measured
    obtain rfl := Option.some.inj reserves.typed
    refine ⟨rfl, .inr ⟨?_, ?_, rfl⟩⟩
    · decide
    · exact ⟨by decide, by decide⟩

/-- With room for the records and none for their first page, the read is refused and stays
pinned. -/
theorem refused_open_stays_pinned : ¬ ExactAccounts (boundedRun 64) := by
  intro exact
  have facts : (boundedRun 64).map (fun exchange : CursorExchange Empty =>
      (exchange.call.pins.isSome, exchange.reply.toOption.isNone,
        exchange.before.entries.entries.length, exchange.after.entries.entries.length)) =
      [(true, true, 0, 1)] := by
    decide +kernel
  obtain ⟨exchange, rest, same, facts, _⟩ := List.map_eq_cons_iff.mp facts
  simp only [Prod.mk.injEq] at facts
  obtain ⟨pins, failed, none, one⟩ := facts
  have member : exchange ∈ boundedRun 64 := by
    rw [same]
    exact List.mem_cons_self
  have error : ∃ error, exchange.reply = .error error := by
    cases reply : exchange.reply with
    | ok value =>
      rw [reply] at failed
      cases failed
    | error error => exact ⟨error, rfl⟩
  obtain ⟨instants, left⟩ := exact.failures exchange member pins error
  have empty : ∀ (instants : List Nat) (store : CursorStore Empty),
      store.entries.entries.length = 0 →
        (instants.foldl CursorStore.removeExpired store).entries.entries.length = 0 := by
    intro instants
    induction instants with
    | nil => exact fun _ zero => zero
    | cons now rest ih =>
      intro store zero
      refine ih _ (Nat.le_zero.mp ?_)
      rw [← zero]
      exact List.length_filter_le _ _
  have contrary := empty instants exchange.before none
  rw [← left, one] at contrary
  cases contrary

end Mdbase.Provider
