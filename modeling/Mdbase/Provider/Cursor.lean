import Mdbase.Library.Table
import Mdbase.Library.Trace
import Mdbase.Provider.Change

/-!
# Pinned reads

A query with more records than one page has is kept in a store, and its pages are read
with cursors. A cursor is a signed text that names the pinned read and an offset. The
size of a page is bound to its offset when the offset is read for the first time.
-/

namespace Mdbase.Provider

open Library
open Mdbase.Runtime (u64Max Value)

/-- `CanonicalQueryValue`, with the members that a pinned read changes or keeps in its
template. -/
structure CanonicalQueryValue where
  records : List Value
  totalCount : Option Nat
  hasMore : Bool
  metadata : Value
  fits : records.length ≤ u64Max
  deriving DecidableEq

/-- `CanonicalOperationOutcome`, by what `query_value_mut` finds in it. -/
structure CanonicalOperationOutcome where
  query : Option CanonicalQueryValue
  deriving DecidableEq

/-- `ExecutionOutcome`, with the members that pinned reads look at. -/
structure ExecutionOutcome where
  operation : CanonicalOperationOutcome
  generation : CollectionGeneration
  deriving DecidableEq

/-- `ReadCursor`, by its token. -/
structure ReadCursor where
  token : String
  deriving DecidableEq

/-- `ReadPage`. -/
structure ReadPage where
  outcome : ExecutionOutcome
  next : Option ReadCursor
  deriving DecidableEq

/-- A lower case hexadecimal digit. -/
def isLowerHex (c : Char) : Bool := ('0' ≤ c ∧ c ≤ '9') ∨ ('a' ≤ c ∧ c ≤ 'f')

/-- The text of a UUID as it is printed: `Uuid::parse_str` reads other spellings as well,
but only this one is printed as it was read. -/
def isUuidText (text : String) : Bool :=
  text.toList.length = 36 ∧ text.toList.zipIdx.all fun (c, index) =>
    if index ∈ [8, 13, 18, 23] then c = '-' else isLowerHex c

/-- `Uuid`, by its text. -/
structure Uuid where
  text : String
  printed : isUuidText text = true
  deriving DecidableEq

/-- `PinnedRead`, with the key of its entry. The source of a metadata query is a
parameter. -/
structure PinnedRead (Source : Type) where
  id : String
  generation : CollectionGeneration
  template : CanonicalOperationOutcome
  results : List Value
  metadata : Option Source
  pageItems : Nat
  pageSizes : Table (Prod.fst : Nat × Nat → Nat)
  retainedBytes : Nat
  created : Nat
  lastAccess : Nat
  fits : results.length ≤ u64Max

/-- `CursorStore`. -/
structure CursorStore (Source : Type) where
  entries : Table (@PinnedRead.id Source)
  retainedBytes : Nat
  signingKey : List UInt8
  runtimeEpoch : String

/-- `OperationContext`, as pinned reads use it: its checks, and the meter of the bytes
that the operation retains. -/
structure OperationContext where
  checks : Context
  retained : Nat
  maxRetainedBytes : Nat

/-- What pinned reads use of other code: the hash of the signature, the length of records
as JSON text up to a limit, and the metadata queries. -/
structure CursorExternals (Source : Type) where
  sha256 : List UInt8 → Vector UInt8 32
  measure : List Value → Nat → Except ProviderError Nat
  remaining : Source → Nat
  page : Source → (index limit : Nat) → OperationContext →
    Except ProviderError CanonicalOperationOutcome × Source

/-- `MAX_ACTIVE_CURSORS`. -/
def maxActiveCursors : Nat := 32

/-- `MAX_CURSOR_BYTES`. -/
def maxCursorBytes : Nat := 32 * 1024 * 1024

/-- `DEFAULT_PAGE_ITEMS`. -/
def defaultPageItems : Nat := 100

/-- `MAX_PAGE_ITEMS`. -/
def maxPageItems : Nat := 1000

/-- `PAGE_CHOICE_BYTES`. -/
def pageChoiceBytes : Nat := 128

/-- `IDLE_LEASE`, in nanoseconds. -/
def idleLease : Nat := 30 * 1000000000

/-- `HARD_LIFETIME`, in nanoseconds. -/
def hardLifetime : Nat := 5 * 60 * 1000000000

/-- `clamp(1, MAX_PAGE_ITEMS)`. -/
def clampPageItems (items : Nat) : Nat := max 1 (min items maxPageItems)

/-- The checks of a context behind the first ones. -/
def OperationContext.later (context : OperationContext) (count : Nat) : OperationContext :=
  { context with checks := fun number => context.checks (number + count) }

/-- `charge_retained`. -/
def OperationContext.chargeRetained (context : OperationContext) (bytes : Nat) :
    Except ProviderError OperationContext :=
  if context.retained + bytes > u64Max then
    .error (.captureLimitExceeded .arithmeticOverflow u64Max u64Max)
  else if context.retained + bytes > context.maxRetainedBytes then
    .error (.captureLimitExceeded .retainedBytes context.maxRetainedBytes
      (context.retained + bytes))
  else .ok { context with retained := context.retained + bytes }

/-- The flag of a query, in the value and by `set_has_more` in its metadata. -/
def setHasMore (query : CanonicalQueryValue) (hasMore : Bool) : CanonicalQueryValue :=
  { query with hasMore := hasMore, metadata := query.metadata.set "has_more" (.bool hasMore) }

/-- A byte as two hexadecimal digits. -/
def hexByte (byte : UInt8) : List Char :=
  let digit := fun value : Nat => Nat.digitChar value
  [digit (byte.toNat / 16), digit (byte.toNat % 16)]

/-- `cursor_mac`, the HMAC of a message. -/
def cursorMac (sha256 : List UInt8 → Vector UInt8 32) (key : List UInt8) (message : String) :
    String :=
  let padded := fun pad : UInt8 => (List.range 64).map fun index => pad ^^^ key.getD index 0
  let inner := sha256 (padded 0x36 ++ message.toUTF8.toList)
  let outer := sha256 (padded 0x5c ++ inner.toList)
  String.ofList (outer.toList.flatMap hexByte)

variable {Source : Type} (externals : CursorExternals Source)

/-- The message that a cursor signs. -/
def cursorMessage (epoch id : String) (index : Nat) : String :=
  "v1:" ++ epoch ++ ":" ++ id ++ ":" ++ toString index

/-- `issue`. -/
def CursorStore.issue (store : CursorStore Source) (id : String) (index : Nat) : ReadCursor :=
  let message := cursorMessage store.runtimeEpoch id index
  ⟨message ++ ":" ++ cursorMac externals.sha256 store.signingKey message⟩

/-- Characters without a plus before them. -/
def withoutPlus : List Char → List Char
  | '+' :: rest => rest
  | all => all

/-- `parse::<usize>`: decimal digits, with at most one plus before them. -/
def parseUsize (text : String) : Option Nat :=
  let digits := withoutPlus text.toList
  let value := Nat.ofDigitChars 10 digits 0
  if digits ≠ [] ∧ digits.all Char.isDigit ∧ value ≤ u64Max then some value else none

/-- `authenticate`. -/
def CursorStore.authenticate (store : CursorStore Source) (cursor : ReadCursor) :
    Except ProviderError (String × Nat) :=
  match (cursor.token.toList.splitOn ':').map String.ofList with
  | [version, epoch, id, index, mac] =>
    if version ≠ "v1" ∨ mac.utf8ByteSize ≠ 64 then .error .invalidReadCursor
    else if epoch ≠ store.runtimeEpoch then .error .generationExpired
    else if ¬ isUuidText id then .error .invalidReadCursor
    else
      match parseUsize index with
      | none => .error .invalidReadCursor
      | some index =>
        if cursorMac externals.sha256 store.signingKey
            (cursorMessage store.runtimeEpoch id index) ≠ mac then .error .invalidReadCursor
        else .ok (id, index)
  | _ => .error .invalidReadCursor

/-- Has an entry expired? -/
def PinnedRead.expired (now : Nat) (pinned : PinnedRead Source) : Bool :=
  now - pinned.lastAccess ≥ idleLease ∨ now - pinned.created ≥ hardLifetime

/-- `remove_expired`. -/
def CursorStore.removeExpired (store : CursorStore Source) (now : Nat) : CursorStore Source :=
  { store with
    entries := store.entries.filter fun pinned => ¬ pinned.expired now
    retainedBytes := store.retainedBytes -
      ((store.entries.entries.filter fun pinned => pinned.expired now).map
        PinnedRead.retainedBytes).sum }

/-- The number of items that a pinned read has. -/
def PinnedRead.total (pinned : PinnedRead Source) : Nat :=
  match pinned.metadata with
  | some source => externals.remaining source
  | none => pinned.results.length

/-- The size of the page at an offset: the one it is bound to, or the requested one. -/
def PinnedRead.sizeAt (pinned : PinnedRead Source) (index requested : Nat) : Nat :=
  ((pinned.pageSizes.get? index).map Prod.snd).getD requested

/-- The first part of `page_with_limit`: the size of the page, which is bound to the
offset if it was not. -/
def CursorStore.bindSize (store : CursorStore Source) (pinned : PinnedRead Source) (index : Nat)
    (limit : Option Nat) (context : OperationContext) :
    Except ProviderError (Nat × CursorStore Source × PinnedRead Source × OperationContext) :=
  let requested := clampPageItems (limit.getD pinned.pageItems)
  let size := pinned.sizeAt index requested
  if index > pinned.total externals then .error .invalidReadCursor
  else if limit.isSome ∧ requested ≠ size then .error .invalidReadCursor
  else if (pinned.pageSizes.get? index).isSome then .ok (size, store, pinned, context)
  else if pinned.retainedBytes + pageChoiceBytes > u64Max then .error .cursorCapacityExhausted
  else if store.retainedBytes + pageChoiceBytes > maxCursorBytes then
    .error .cursorCapacityExhausted
  else do
    let context ← context.chargeRetained pageChoiceBytes
    let pinned := { pinned with
      pageSizes := pinned.pageSizes.insert (index, size)
      retainedBytes := pinned.retainedBytes + pageChoiceBytes }
    .ok (size, { store with
      entries := store.entries.insert pinned
      retainedBytes := store.retainedBytes + pageChoiceBytes }, pinned, context)

/-- The records of a page. -/
def PinnedRead.slice (pinned : PinnedRead Source) (query : CanonicalQueryValue)
    (first last : Nat) : CanonicalQueryValue :=
  { query with
    records := (pinned.results.drop first).take (last - first)
    fits := by
      have bound := pinned.fits
      rw [List.length_take, List.length_drop]
      omega }

/-- The end of `page_with_limit`. -/
def CursorStore.finishPage (store : CursorStore Source) (pinned : PinnedRead Source)
    (query : CanonicalQueryValue) (last total later : Nat) (context : OperationContext) :
    Except ProviderError ReadPage × CursorStore Source :=
  let more : Bool := last < total
  let store := { store with entries := store.entries.insert { pinned with lastAccess := later } }
  let next := if more then some (store.issue externals pinned.id last) else none
  match context.checks.check 1 with
  | .error error => (.error error, store)
  | .ok _ => (.ok ⟨⟨⟨some (setHasMore query more)⟩, pinned.generation⟩, next⟩, store)

/-- The error of a pinned read that is not a query. -/
def cursorStateInvalid : ProviderError :=
  .transaction "cursor_state_invalid" "pinned read no longer contains a typed query"

/-- The second part of `page_with_limit`. -/
def CursorStore.servePage (store : CursorStore Source) (pinned : PinnedRead Source)
    (index size later : Nat) (context : OperationContext) :
    Except ProviderError ReadPage × CursorStore Source :=
  let total := pinned.total externals
  let last := min (min (index + size) u64Max) total
  match pinned.metadata with
  | none =>
    match pinned.template.query with
    | none => (.error cursorStateInvalid, store)
    | some query =>
      store.finishPage externals pinned (pinned.slice query index last) last total later context
  | some source =>
    let (result, source) := externals.page source index size context
    let pinned := { pinned with metadata := some source }
    let store := { store with entries := store.entries.insert pinned }
    match result with
    | .error error => (.error error, store)
    | .ok operation =>
      match operation.query with
      | none => (.error cursorStateInvalid, store)
      | some query =>
        match externals.measure query.records context.maxRetainedBytes >>=
            context.chargeRetained with
        | .error error => (.error error, store)
        | .ok context => store.finishPage externals pinned query last total later context

/-- `page_with_limit`. The clock gives the instants that it reads. -/
def CursorStore.pageWithLimit (store : CursorStore Source) (cursor : ReadCursor)
    (limit : Option Nat) (clock : Nat → Nat) (context : OperationContext) :
    Except ProviderError ReadPage × CursorStore Source :=
  match context.checks.check 0 with
  | .error error => (.error error, store)
  | .ok _ =>
    let store := store.removeExpired (clock 0)
    match store.authenticate externals cursor with
    | .error error => (.error error, store)
    | .ok (id, index) =>
      match store.entries.get? id with
      | none => (.error .generationExpired, store)
      | some pinned =>
        match store.bindSize externals pinned index limit context with
        | .error error => (.error error, store)
        | .ok (size, store, pinned, context) =>
          store.servePage externals pinned index size (clock 1) context

/-- The operation without the records of its query. -/
def CanonicalQueryValue.cleared (query : CanonicalQueryValue) : CanonicalQueryValue :=
  { query with records := [], fits := Nat.zero_le _ }

/-- The entry that `open` adds. -/
def pinnedRead (id : Uuid) (generation : CollectionGeneration) (query : CanonicalQueryValue)
    (pageItems retained now : Nat) : PinnedRead Source where
  id := id.text
  generation := generation
  template := ⟨some query.cleared⟩
  results := query.records
  metadata := none
  pageItems := pageItems
  pageSizes := .empty
  retainedBytes := retained
  created := now
  lastAccess := now
  fits := query.fits

/-- `open`. The identifier is the one that `Uuid::new_v4` returns. -/
def CursorStore.openRead (store : CursorStore Source) (id : Uuid) (outcome : ExecutionOutcome)
    (pageItems : Option Nat) (clock : Nat → Nat) (context : OperationContext) :
    Except ProviderError ReadPage × CursorStore Source :=
  match context.checks.check 0 with
  | .error error => (.error error, store)
  | .ok _ =>
    let store := store.removeExpired (clock 0)
    let pageItems := clampPageItems (pageItems.getD defaultPageItems)
    match outcome.operation.query with
    | none => (.ok ⟨outcome, none⟩, store)
    | some query =>
      match (if query.records = [] then .ok 0
        else externals.measure query.records context.maxRetainedBytes) with
      | .error error => (.error error, store)
      | .ok retained =>
        if query.records.length ≤ pageItems then
          match context.chargeRetained retained with
          | .error error => (.error error, store)
          | .ok _ => (.ok ⟨{ outcome with operation := ⟨some (setHasMore query false)⟩ },
              none⟩, store)
        else if store.retainedBytes + retained > u64Max ∨
            store.entries.entries.length ≥ maxActiveCursors ∨ retained > maxCursorBytes ∨
            store.retainedBytes + retained > maxCursorBytes then
          (.error .cursorCapacityExhausted, store)
        else
          match context.chargeRetained retained with
          | .error error => (.error error, store)
          | .ok context =>
            let store := { store with
              retainedBytes := store.retainedBytes + retained
              entries := store.entries.insert
                (pinnedRead id outcome.generation query pageItems retained (clock 1)) }
            store.pageWithLimit externals (store.issue externals id.text 0) none
              (fun number => clock (number + 2)) (context.later 1)

/-- `open_metadata`. -/
def CursorStore.openMetadata (store : CursorStore Source) (id : Uuid) (source : Source)
    (generation : CollectionGeneration) (pageItems : Option Nat) (retained : Nat)
    (clock : Nat → Nat) (context : OperationContext) :
    Except ProviderError ReadPage × CursorStore Source :=
  match context.checks.check 0 with
  | .error error => (.error error, store)
  | .ok _ =>
    let store := store.removeExpired (clock 0)
    let pageItems := clampPageItems (pageItems.getD defaultPageItems)
    let (result, source) := externals.page source 0 pageItems context
    match result with
    | .error error => (.error error, store)
    | .ok operation =>
      match operation.query with
      | none => (.error .invalidReadCursor, store)
      | some query =>
        match externals.measure query.records context.maxRetainedBytes >>=
            context.chargeRetained with
        | .error error => (.error error, store)
        | .ok context =>
          if ¬ query.hasMore then (.ok ⟨⟨operation, generation⟩, none⟩, store)
          else if retained + pageChoiceBytes > u64Max ∨
              store.retainedBytes + (retained + pageChoiceBytes) > maxCursorBytes ∨
              store.entries.entries.length ≥ maxActiveCursors then
            (.error .cursorCapacityExhausted, store)
          else
            match context.chargeRetained (retained + pageChoiceBytes) with
            | .error error => (.error error, store)
            | .ok _ =>
              let pinned : PinnedRead Source := {
                id := id.text
                generation := generation
                template := ⟨some query.cleared⟩
                results := []
                metadata := some source
                pageItems := pageItems
                pageSizes := .empty
                retainedBytes := retained + pageChoiceBytes
                created := clock 1
                lastAccess := clock 1
                fits := Nat.zero_le _ }
              (.ok ⟨⟨operation, generation⟩, some (store.issue externals id.text pageItems)⟩,
                { store with
                  entries := store.entries.insert pinned
                  retainedBytes := store.retainedBytes + (retained + pageChoiceBytes) })

/-- `release`. -/
def CursorStore.release (store : CursorStore Source) (cursor : ReadCursor) :
    Except ProviderError Bool × CursorStore Source :=
  match store.authenticate externals cursor with
  | .error error => (.error error, store)
  | .ok (id, _) =>
    match store.entries.get? id with
    | none => (.ok false, store)
    | some removed => (.ok true, { store with
        entries := store.entries.erase id
        retainedBytes := store.retainedBytes - removed.retainedBytes })

/-- `measurements`. -/
def CursorStore.measurements (store : CursorStore Source) (now : Nat) :
    (Nat × Nat) × CursorStore Source :=
  let store := store.removeExpired now
  ((store.entries.entries.length, store.retainedBytes), store)

/-- The calls of the store, with the instants and the context of each. -/
inductive CursorCall (Source : Type) where
  | openRead (id : Uuid) (outcome : ExecutionOutcome) (pageItems : Option Nat)
      (clock : Nat → Nat) (context : OperationContext)
  | openMetadata (id : Uuid) (source : Source) (generation : CollectionGeneration)
      (pageItems : Option Nat) (retained : Nat) (clock : Nat → Nat) (context : OperationContext)
  | page (cursor : ReadCursor) (limit : Option Nat) (clock : Nat → Nat)
      (context : OperationContext)
  | release (cursor : ReadCursor)
  | measurements (now : Nat)

/-- The replies of the store. -/
inductive CursorReply where
  | page (page : ReadPage)
  | released (released : Bool)
  | measured (entries bytes : Nat)
  deriving DecidableEq

/-- A result, with its reply among the replies of the store. -/
def answerWith {α : Type} (reply : α → CursorReply)
    (result : Except ProviderError α × CursorStore Source) :
    Except ProviderError CursorReply × CursorStore Source :=
  (result.1.map reply, result.2)

/-- A call of the store. -/
def cursorCall (store : CursorStore Source) :
    CursorCall Source → Except ProviderError CursorReply × CursorStore Source
  | .openRead id outcome pageItems clock context =>
    answerWith .page (store.openRead externals id outcome pageItems clock context)
  | .openMetadata id source generation pageItems retained clock context =>
    answerWith .page
      (store.openMetadata externals id source generation pageItems retained clock context)
  | .page cursor limit clock context =>
    answerWith .page (store.pageWithLimit externals cursor limit clock context)
  | .release cursor => answerWith .released (store.release externals cursor)
  | .measurements now =>
    let ((entries, bytes), store) := store.measurements now
    (.ok (.measured entries bytes), store)

/-- A call of the store as a step. -/
def CursorStep (before : CursorStore Source) (call : CursorCall Source)
    (reply : Except ProviderError CursorReply) (after : CursorStore Source) : Prop :=
  cursorCall externals before call = (reply, after)

end Mdbase.Provider
