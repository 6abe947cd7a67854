import Mdbase.Provider.Pagination

/-!
# Runs of pinned reads

Readers of a pinned query page through its records at any time and with any limits, while
other calls come between. Each of them receives the records once and in order, and a page
that is read again is the same page. A limit is looked at by the size of page it asks for:
limits above the largest size are the same limit.
-/

namespace Mdbase.Provider

open Library
open Mdbase.Runtime (u64Max Value)

variable {Source : Type} {externals : CursorExternals Source}

/-- The errors of a store or an operation that has no room left. -/
def ProviderError.OfCapacity : ProviderError → Prop
  | .cursorCapacityExhausted => True
  | .captureLimitExceeded _ _ _ => True
  | _ => False

variable {context : OperationContext}

theorem chargeRetained_error {bytes : Nat} {error : ProviderError}
    (failed : context.chargeRetained bytes = .error error) : error.OfCapacity := by
  unfold OperationContext.chargeRetained at failed
  split at failed
  next =>
    cases failed
    trivial
  split at failed
  next =>
    cases failed
    trivial
  next => cases failed

/-- The size that is bound to an offset. -/
def PinnedRead.boundSize (pinned : PinnedRead Source) (index : Nat) : Option Nat :=
  (pinned.pageSizes.get? index).map Prod.snd

/-- A cursor that leads to a pinned read is answered, unless there is no room to bind the
size of the page or another size is bound. -/
theorem pageWithLimit_available {store : CursorStore Source} {cursor : ReadCursor}
    {limit : Option Nat} {clock : Nat → Nat} {context : OperationContext} {id : String}
    {index : Nat} {pinned : PinnedRead Source} {query : CanonicalQueryValue}
    (authentic : store.authenticate externals cursor = .ok (id, index))
    (found : (store.removeExpired (clock 0)).entries.get? id = some pinned)
    (records : pinned.metadata = none) (typed : pinned.template.query = some query)
    (inside : index ≤ pinned.results.length)
    (agreed : ∀ items size, limit = some items → pinned.boundSize index = some size →
      clampPageItems items = size)
    (open_ : context.checks.Open) :
    (∃ page, (store.pageWithLimit externals cursor limit clock context).1 = .ok page) ∨
    ∃ error, (store.pageWithLimit externals cursor limit clock context).1 = .error error ∧
      error.OfCapacity := by
  have here : pinned.id = id := Table.key_of_get? found
  subst here
  have total : pinned.total externals = pinned.results.length := by
    simp [PinnedRead.total, records]
  unfold CursorStore.pageWithLimit
  simp only [open_.check, (removeExpired_signer store (clock 0)).authenticate, authentic, found]
  cases bindings : (store.removeExpired (clock 0)).bindSize externals pinned index limit context
    with
  | ok bound =>
    obtain ⟨size, middle, new, context'⟩ := bound
    obtain ⟨facts, checks⟩ := bindSize_ok found bindings
    left
    dsimp only
    rw [servePage_records (facts.extend.metadata records) (facts.extend.template.symm ▸ typed),
      checks, open_.check]
    exact ⟨_, rfl⟩
  | error error =>
    right
    refine ⟨error, rfl, ?_⟩
    unfold CursorStore.bindSize at bindings
    dsimp only at bindings
    rw [total, if_neg (not_lt.mpr inside)] at bindings
    split at bindings
    next differs =>
      obtain ⟨items, rfl⟩ := Option.isSome_iff_exists.mp differs.1
      refine absurd ?_ differs.2
      unfold PinnedRead.sizeAt
      cases bound : pinned.pageSizes.get? index with
      | none => rfl
      | some row => exact agreed items row.2 rfl (by simp [PinnedRead.boundSize, bound])
    split at bindings
    next => cases bindings
    split at bindings
    next =>
      cases bindings
      trivial
    split at bindings
    next =>
      cases bindings
      trivial
    cases charged : context.chargeRetained pageChoiceBytes with
    | ok context' =>
      rw [charged] at bindings
      cases bindings
    | error stopped =>
      rw [charged] at bindings
      cases bindings
      exact chargeRetained_error charged

/-- A query was opened in a run, under an identifier that no later call pins again. -/
def Opened (exchanges : List (CursorExchange Source)) (id : Uuid) (query : CanonicalQueryValue)
    (page : ReadPage) (rest : List (CursorExchange Source)) : Prop :=
  ∃ first opening outcome pageItems clock context, exchanges = first ++ opening :: rest ∧
    opening.call = .openRead id outcome pageItems clock context ∧
    outcome.operation.query = some query ∧ opening.reply = .ok (.page page) ∧
    ∀ exchange ∈ rest, exchange.call.pins ≠ some id.text

/-- A run in which pinned reads are paged without loss, and repeatably. Following the next
cursors from the first page gives the records once and in order, with something on every
page, until there is no next cursor; a next cursor is answered while the read is there and
there is room; a page that is read again, with the limit it was read with or without one,
is the same; a page that is read again with another limit is refused and nothing but
expired reads is dropped; and the flag of a page says whether there is a next one. `other`
says which limits are different. -/
structure Lossless (externals : CursorExternals Source) (other : Nat → Nat → Prop)
    (exchanges : List (CursorExchange Source)) : Prop where
  chains : ∀ (id : Uuid) (query : CanonicalQueryValue) (page : ReadPage)
    (rest : List (CursorExchange Source)), Opened exchanges id query page rest →
    ∀ (chain : List (CursorExchange Source)) (pages : List ReadPage), chain.Sublist rest →
    Reads page.next chain pages →
      (page :: pages).flatMap ReadPage.records <+: query.records ∧
      (lastNext page.next pages = none ↔ (page :: pages).flatMap ReadPage.records = query.records) ∧
      (query.records ≠ [] → ∀ shown ∈ page :: pages, shown.records ≠ [])
  available : ∀ (id : Uuid) (query : CanonicalQueryValue) (page : ReadPage)
    (rest : List (CursorExchange Source)), Opened exchanges id query page rest →
    ∀ (early chain late : List (CursorExchange Source)) (pages : List ReadPage)
      (cursor : ReadCursor) (exchange : CursorExchange Source), rest = early ++ exchange :: late →
    chain.Sublist early → Reads page.next chain pages → lastNext page.next pages = some cursor →
    ∀ (limit : Option Nat) (clock : Nat → Nat) (context : OperationContext)
      (pinned : PinnedRead Source), exchange.call = .page cursor limit clock context →
    context.checks.Open →
    (exchange.before.removeExpired (clock 0)).entries.get? id.text = some pinned →
    (limit = none ∨ ∃ index, exchange.before.authenticate externals cursor = .ok (id.text, index) ∧
      pinned.boundSize index = none) →
    (∃ shown, exchange.reply = .ok (.page shown)) ∨
      ∃ error, exchange.reply = .error error ∧ error.OfCapacity
  again : ∀ (id : Uuid) (query : CanonicalQueryValue) (page : ReadPage)
    (rest : List (CursorExchange Source)), Opened exchanges id query page rest →
    page.next.isSome = true →
    ∀ (early between late : List (CursorExchange Source)) (earlier later : CursorExchange Source),
    rest = early ++ earlier :: (between ++ later :: late) →
    ∀ (cursor : ReadCursor) (limit : Option Nat) (clock : Nat → Nat) (context : OperationContext)
      (index : Nat) (shown : ReadPage),
    earlier.call = .page cursor limit clock context → earlier.reply = .ok (.page shown) →
    earlier.before.authenticate externals cursor = .ok (id.text, index) →
    ∀ (repeated : Option Nat) (clock' : Nat → Nat) (context' : OperationContext)
      (pinned : PinnedRead Source), later.call = .page cursor repeated clock' context' →
    context'.checks.Open →
    (later.before.removeExpired (clock' 0)).entries.get? id.text = some pinned →
    repeated = none ∨ repeated = limit → later.reply = .ok (.page shown)
  refused : ∀ (id : Uuid) (query : CanonicalQueryValue) (page : ReadPage)
    (rest : List (CursorExchange Source)), Opened exchanges id query page rest →
    page.next.isSome = true →
    ∀ (early between late : List (CursorExchange Source)) (earlier later : CursorExchange Source),
    rest = early ++ earlier :: (between ++ later :: late) →
    ∀ (cursor : ReadCursor) (limit : Option Nat) (clock : Nat → Nat) (context : OperationContext)
      (index : Nat) (shown : ReadPage),
    earlier.call = .page cursor limit clock context → earlier.reply = .ok (.page shown) →
    earlier.before.authenticate externals cursor = .ok (id.text, index) →
    ∀ (items : Nat) (clock' : Nat → Nat) (context' : OperationContext)
      (pinned : PinnedRead Source), later.call = .page cursor (some items) clock' context' →
    context'.checks 0 = none →
    (later.before.removeExpired (clock' 0)).entries.get? id.text = some pinned →
    ∃ size, pinned.boundSize index = some size ∧
      (other (limit.getD size) items → later.reply = .error .invalidReadCursor ∧
        later.after = later.before.removeExpired (clock' 0))
  flags : ∀ exchange ∈ exchanges, ∀ page, exchange.reply = .ok (.page page) →
    ∀ query, page.outcome.operation.query = some query → query.hasMore = page.next.isSome

/-- Limits that ask for pages of different sizes. -/
def OtherSize (left right : Nat) : Prop := clampPageItems left ≠ clampPageItems right

theorem Opened.start {start finish : CursorStore Source}
    {exchanges rest : List (CursorExchange Source)} {id : Uuid} {query : CanonicalQueryValue}
    {page : ReadPage} (trace : Trace (CursorStep externals) start exchanges finish)
    (opened : Opened exchanges id query page rest) :
    (∀ exchange ∈ rest, exchange.call.pins ≠ some id.text) ∧
    ∃ middle, Trace (CursorStep externals) middle rest finish ∧
      ((page.next = none ∧ page.records = query.records) ∨
      (Holds id query.records query.cleared middle ∧ middle.Readable ∧ query.records ≠ [] ∧
        ∃ last, Slice (middle.issue externals id.text) query.records 0 last page)) := by
  obtain ⟨first, opening, outcome, pageItems, clock, context, rfl, asked, typed, replied, fresh⟩ :=
    opened
  obtain ⟨_, step, tail⟩ := trace.middle_inv
  rw [asked, replied] at step
  refine ⟨fresh, opening.after, tail, ?_⟩
  rcases openRead_ok typed step.open_ok with ⟨none, all, _⟩ | pinned
  · exact .inl ⟨none, all⟩
  · exact .inr pinned

variable {pages : List ReadPage}

theorem Reads.nil_of_none {chain : List (CursorExchange Source)}
    (reads : Reads none chain pages) : pages = [] := by
  cases chain with
  | nil => exact reads
  | cons exchange rest =>
    obtain ⟨_, _, _, _, _, _, contrary, _⟩ := reads
    cases contrary

variable {query : CanonicalQueryValue} {page : ReadPage} {id : Uuid}

/-- Pages that are read one after the other cover a prefix of the records. -/
theorem Reads.reached {middle finish : CursorStore Source}
    {rest chain : List (CursorExchange Source)} {last : Nat}
    (trace : Trace (CursorStep externals) middle rest finish)
    (fresh : ∀ exchange ∈ rest, exchange.call.pins ≠ some id.text)
    (holds : Holds id query.records query.cleared middle) (nonempty : query.records ≠ [])
    (slice : Slice (middle.issue externals id.text) query.records 0 last page)
    (chosen : chain.Sublist rest) (reads : Reads page.next chain pages) :
    ∃ reached, reached ≤ query.records.length ∧
      (page :: pages).flatMap ReadPage.records = query.records.take reached ∧
      (∀ shown ∈ page :: pages, shown.records ≠ []) ∧
      lastNext page.next pages = if reached < query.records.length then
        some (middle.issue externals id.text reached) else none := by
  have first : page.records = query.records.take last := by
    have contents := slice.contents
    simpa using contents
  have filled := slice.nonempty (List.length_pos_iff.mpr nonempty)
  by_cases further : last < query.records.length
  · have next := slice.next
    rw [if_pos further] at next
    rw [next] at reads
    obtain ⟨reached, beyond, limited, contents, others, following⟩ :=
      reads.pages trace fresh holds chosen query.fits further
    refine ⟨reached, limited, ?_, List.forall_mem_cons.mpr ⟨filled, others⟩, ?_⟩
    · rw [List.flatMap_cons, first, contents]
      have parts : reached = last + (reached - last) := by omega
      conv_rhs => rw [parts, List.take_add]
    · cases pages with
      | nil =>
        have stopped : reached = last := by
          have none := congrArg List.length contents
          simp only [List.flatMap_nil, List.length_nil, List.length_take, List.length_drop] at none
          omega
        rw [stopped, if_pos further]
        exact next
      | cons second more =>
        rw [lastNext_cons, ← lastNext_cons none]
        exact following (List.cons_ne_nil _ _)
  · have next := slice.next
    rw [if_neg further] at next
    rw [next] at reads
    obtain rfl := reads.nil_of_none
    have whole : last = query.records.length := by
      have within := slice.inside
      omega
    refine ⟨last, slice.inside, by simpa using first, by simpa using filled, ?_⟩
    rw [if_neg further]
    exact next

variable {start finish : CursorStore Source}

/-- The pages behind an opening page are a prefix of the answer, all of it at the end. -/
theorem Opened.chains {exchanges rest chain : List (CursorExchange Source)}
    (trace : Trace (CursorStep externals) start exchanges finish)
    (opened : Opened exchanges id query page rest) (chosen : chain.Sublist rest)
    (reads : Reads page.next chain pages) :
    (page :: pages).flatMap ReadPage.records <+: query.records ∧
      (lastNext page.next pages = none ↔ (page :: pages).flatMap ReadPage.records = query.records) ∧
      (query.records ≠ [] → ∀ shown ∈ page :: pages, shown.records ≠ []) := by
  obtain ⟨fresh, middle, tail, ⟨none, all⟩ | ⟨holds, _, nonempty, last, slice⟩⟩ :=
    opened.start trace
  · rw [none] at reads ⊢
    obtain rfl := reads.nil_of_none
    have whole : [page].flatMap ReadPage.records = query.records := by simpa using all
    refine ⟨by rw [whole], ?_, ?_⟩
    · exact ⟨fun _ => whole, fun _ => rfl⟩
    · intro filled shown member
      rw [List.mem_singleton.mp member, all]
      exact filled
  · obtain ⟨reached, limited, contents, filled, next⟩ :=
      reads.reached tail fresh holds nonempty slice chosen
    rw [contents, next]
    refine ⟨List.take_prefix _ _, ?_, fun _ => filled⟩
    rw [List.take_eq_self_iff]
    split
    next more =>
      constructor
      · intro contrary
        cases contrary
      · intro whole
        omega
    rename_i whole
    constructor
    · intro _
      omega
    · intro _
      rfl

variable {clock : Nat → Nat} {pinned : PinnedRead Source}

/-- While its read is retained, the next page is served or a limit is named. -/
theorem Opened.available {exchanges rest early late chain : List (CursorExchange Source)}
    {exchange : CursorExchange Source}
    {cursor : ReadCursor} {limit : Option Nat}
    (trace : Trace (CursorStep externals) start exchanges finish)
    (opened : Opened exchanges id query page rest) (parts : rest = early ++ exchange :: late)
    (chosen : chain.Sublist early) (reads : Reads page.next chain pages)
    (next : lastNext page.next pages = some cursor)
    (asked : exchange.call = .page cursor limit clock context) (open_ : context.checks.Open)
    (alive : (exchange.before.removeExpired (clock 0)).entries.get? id.text = some pinned)
    (unnamed : limit = none ∨ ∃ index,
      exchange.before.authenticate externals cursor = .ok (id.text, index) ∧
        pinned.boundSize index = none) :
    (∃ shown, exchange.reply = .ok (.page shown)) ∨
      ∃ error, exchange.reply = .error error ∧ error.OfCapacity := by
  obtain ⟨fresh, middle, tail, ⟨none, _⟩ | ⟨holds, readable, nonempty, last, slice⟩⟩ :=
    opened.start trace
  · rw [none] at reads next
    obtain rfl := reads.nil_of_none
    cases next
  subst parts
  obtain ⟨head, step, _⟩ := tail.middle_inv
  have earlyFresh : ∀ other ∈ early, other.call.pins ≠ some id.text :=
    fun other member => fresh other (List.mem_append_left _ member)
  have carries := Carries.run head earlyFresh
  obtain ⟨reached, limited, _, _, following⟩ :=
    reads.reached head earlyFresh holds nonempty slice chosen
  rw [following] at next
  split at next
  next further =>
    cases next
    have fits := query.fits
    have readableHere : exchange.before.Readable := by
      unfold CursorStore.Readable at readable ⊢
      rw [carries.signer.epoch]
      exact readable
    have authentic : exchange.before.authenticate externals
        (middle.issue externals id.text reached) = .ok (id.text, reached) := by
      rw [← carries.signer.issue]
      exact authenticate_issue readableHere id (by omega)
    obtain ⟨results, metadata, template, _⟩ := (holds.carried carries).carried
      (removeExpired_carries exchange.before (clock 0) id.text) pinned alive
    have agreed : ∀ items size, limit = some items → pinned.boundSize reached = some size →
        clampPageItems items = size := by
      intro items size named bound
      rcases unnamed with absent | ⟨index, other, unbound⟩
      · rw [absent] at named
        cases named
      · rw [authentic] at other
        cases other
        rw [unbound] at bound
        cases bound
    rw [asked] at step
    obtain ⟨result, called, replied⟩ := step.paged
    have answer := @pageWithLimit_available _ externals _ _ limit clock context _ _ pinned
      query.cleared authentic alive metadata (by rw [template]) (by rw [results]; omega) agreed open_
    rw [called] at answer
    dsimp only at answer
    rcases answer with ⟨shown, same⟩ | ⟨error, same, capacity⟩
    · refine .inl ⟨shown, ?_⟩
      rw [replied, same]
      rfl
    · refine .inr ⟨error, ?_, capacity⟩
      rw [replied, same]
      rfl
  next => cases next

/-- What a page that was read leaves for a later call with its cursor. -/
structure Revisited (externals : CursorExternals Source) (store : CursorStore Source)
    (cursor : ReadCursor) (id : Uuid) (index : Nat) (limit : Option Nat) (shown : ReadPage)
    (pinned : PinnedRead Source) (query : CanonicalQueryValue) (size : Nat) : Prop where
  authentic : store.authenticate externals cursor = .ok (id.text, index)
  records : pinned.metadata = none
  typed : pinned.template.query = some query
  inside : index ≤ pinned.results.length
  bound : pinned.pageSizes.get? index = some (index, size)
  named : ∀ items, limit = some items → clampPageItems items = size
  clamped : clampPageItems size = size
  page : shown = store.pageAt externals pinned query index size

/-- A page whose read is retained can be read again, and shows what it showed. -/
theorem Opened.revisited {exchanges rest early between late : List (CursorExchange Source)}
    {earlier later : CursorExchange Source} {page shown : ReadPage} {cursor : ReadCursor}
    {limit : Option Nat} {index now : Nat}
    (trace : Trace (CursorStep externals) start exchanges finish)
    (opened : Opened exchanges id query page rest) (more : page.next.isSome = true)
    (parts : rest = early ++ earlier :: (between ++ later :: late))
    (asked : earlier.call = .page cursor limit clock context)
    (replied : earlier.reply = .ok (.page shown))
    (authentic : earlier.before.authenticate externals cursor = .ok (id.text, index))
    (alive : (later.before.removeExpired now).entries.get? id.text = some pinned) :
    CursorStep externals later.before later.call later.reply later.after ∧
      ∃ size, Revisited externals later.before cursor id index limit shown pinned query.cleared
        size := by
  obtain ⟨fresh, middle, tail, ⟨none, _⟩ | ⟨holds, _, _, _⟩⟩ := opened.start trace
  · rw [none] at more
    cases more
  subst parts
  obtain ⟨head, step, behind⟩ := tail.middle_inv
  obtain ⟨inner, laterStep, _⟩ := behind.middle_inv
  refine ⟨laterStep, ?_⟩
  have before := Carries.run head fun other member => fresh other (List.mem_append_left _ member)
  have after : Carries id.text earlier.after later.before :=
    Carries.run inner fun other member => fresh other (by simp [member])
  have across := step.carries (fresh earlier (by simp))
  have carried := after.trans (removeExpired_carries later.before now id.text)
  rw [asked, replied] at step
  obtain ⟨found, offset, size, old, new, answered⟩ := pageWithLimit_ok step.page_ok
  have same := answered.authentic.symm.trans authentic
  cases same
  obtain ⟨middleEntry, middleFound, extend⟩ := carried.entry pinned alive
  rw [answered.stored] at middleFound
  cases middleFound
  have whole := answered.extend.trans extend
  obtain ⟨results, metadata, template, _⟩ := (holds.carried before).carried
    (removeExpired_carries earlier.before (clock 0) id.text) old answered.found
  obtain ⟨_, _, _, sized⟩ := ((holds.carried before).carried across).carried carried pinned alive
  have bound := extend.sizes index (index, size) answered.bound
  have total : old.total externals = old.results.length := by
    simp [PinnedRead.total, metadata]
  refine ⟨size, ?_, whole.metadata metadata, ?_, ?_, bound, answered.named, ?_, ?_⟩
  · rw [(across.signer.trans after.signer).authenticate]
    exact authentic
  · rw [whole.template, template]
  · rw [whole.results, ← total]
    exact answered.inside
  · exact (sized index (index, size) bound).2
  · rw [answered.page query.cleared metadata (by rw [template])]
    exact (pageAt_congr (across.signer.trans after.signer) whole _ _ _).symm

theorem openMetadata_flag {store after : CursorStore Source} {source : Source}
    {generation : CollectionGeneration} {pageItems : Option Nat} {retained : Nat}
    (result : store.openMetadata externals id source generation pageItems retained clock context =
      (.ok page, after))
    (typed : page.outcome.operation.query = some query) :
    query.hasMore = page.next.isSome := by
  unfold CursorStore.openMetadata at result
  split at result
  next => cases result
  dsimp only at result
  split at result
  next => cases result
  rename_i operation _
  split at result
  next => cases result
  rename_i value here
  split at result
  next => cases result
  split at result
  next finished =>
    cases result
    rw [here] at typed
    cases typed
    simpa using finished
  rename_i more
  split at result
  next => cases result
  split at result
  next => cases result
  cases result
  rw [here] at typed
  cases typed
  simpa using more

theorem CursorStep.flag {before after : CursorStore Source} {call : CursorCall Source}
    (step : CursorStep externals before call (.ok (.page page)) after)
    (typed : page.outcome.operation.query = some query) :
    query.hasMore = page.next.isSome := by
  cases call with
  | openRead id outcome pageItems clock context =>
    have result := step.open_ok
    cases operation : outcome.operation.query with
    | some value =>
      rcases openRead_ok operation result with ⟨none, _, other, same, flag⟩ |
        ⟨_, _, _, _, slice⟩
      · rw [same] at typed
        cases typed
        rw [flag, none]
        rfl
      · obtain ⟨other, same, flag⟩ := slice.flag
        rw [same] at typed
        cases typed
        exact flag
    | none =>
      unfold CursorStore.openRead at result
      split at result
      next => cases result
      dsimp only at result
      rw [operation] at result
      cases result
      rw [operation] at typed
      cases typed
  | openMetadata id source generation pageItems retained clock context =>
    have replied := congrArg Prod.fst step
    change (before.openMetadata externals id source generation pageItems retained clock
      context).1.map CursorReply.page = .ok (.page page) at replied
    rcases result : before.openMetadata externals id source generation pageItems retained clock
      context with ⟨answer, store⟩
    rw [result] at replied
    cases answer with
    | error error => cases replied
    | ok other =>
      cases replied
      exact openMetadata_flag result typed
  | page cursor limit clock context =>
    obtain ⟨other, same, flag⟩ := pageWithLimit_flag step.page_ok
    rw [same] at typed
    cases typed
    exact flag
  | release cursor =>
    have replied := congrArg Prod.fst step
    change (before.release externals cursor).1.map CursorReply.released = .ok (.page page)
      at replied
    cases answer : (before.release externals cursor).1 with
    | error error | ok other =>
      rw [answer] at replied
      cases replied
  | measurements now => cases congrArg Prod.fst step

/-- Pinned reads are paged without loss in every run; two limits are different when they
ask for pages of different sizes. -/
theorem pagination_lossless {start finish : CursorStore Source}
    {exchanges : List (CursorExchange Source)}
    (trace : Trace (CursorStep externals) start exchanges finish) :
    Lossless externals OtherSize exchanges := by
  refine ⟨?_, ?_, ?_, ?_, ?_⟩
  · intro id query page rest opened chain pages chosen reads
    exact opened.chains trace chosen reads
  · intro id query page rest opened early chain late pages cursor exchange parts chosen reads next
      limit clock context pinned asked open_ alive unnamed
    exact opened.available trace parts chosen reads next asked open_ alive unnamed
  · intro id query page rest opened more early between late earlier later parts cursor limit clock
      context index shown asked replied authentic repeated clock' context' pinned again open_ alive
      limits
    obtain ⟨step, size, revisited⟩ :=
      opened.revisited trace more parts asked replied authentic alive
    have named : ∀ items, repeated = some items → clampPageItems items = size := by
      intro items same
      rcases limits with none | equal
      · rw [none] at same
        cases same
      · exact revisited.named items (equal ▸ same)
    rw [again] at step
    obtain ⟨result, called, answer⟩ := step.paged
    have page := pageWithLimit_again revisited.authentic alive revisited.records revisited.typed
      revisited.inside revisited.bound named open_
    rw [called] at page
    dsimp only at page
    rw [answer, page, ← revisited.page]
    rfl
  · intro id query page rest opened more early between late earlier later parts cursor limit clock
      context index shown asked replied authentic items clock' context' pinned again started alive
    obtain ⟨step, size, revisited⟩ :=
      opened.revisited trace more parts asked replied authentic alive
    refine ⟨size, by simp [PinnedRead.boundSize, revisited.bound], fun other => ?_⟩
    have differs : clampPageItems items ≠ size := by
      intro same
      refine other ?_
      rw [same]
      cases limit with
      | none => exact revisited.clamped
      | some first => exact revisited.named first rfl
    rw [again] at step
    obtain ⟨result, called, answer⟩ := step.paged
    have refusal := pageWithLimit_refused revisited.authentic alive revisited.bound differs started
    rw [called, Prod.mk.injEq] at refusal
    rw [refusal.1] at answer
    exact ⟨answer, refusal.2⟩
  · intro exchange member page replied query typed
    obtain ⟨first, rest, rfl⟩ := List.append_of_mem member
    obtain ⟨_, step, _⟩ := trace.middle_inv
    rw [replied] at step
    exact step.flag typed

/-- Three records. -/
def threeRecords : CanonicalQueryValue where
  records := [.number (.posInt 1), .number (.posInt 2), .number (.posInt 3)]
  totalCount := some 3
  hasMore := false
  metadata := .object []
  fits := by decide

/-- The surroundings of a store without metadata queries. -/
def plainExternals : CursorExternals Empty where
  sha256 := fun message => Vector.replicate 32 (message.foldl (· + ·) 0)
  measure := fun records _ => .ok (2 * records.length + 1)
  remaining := fun _ => 0
  page := fun source _ _ _ => nomatch source

/-- A store without pinned reads. -/
def emptyStore : CursorStore Empty where
  entries := .empty
  retainedBytes := 0
  signingKey := []
  runtimeEpoch := "runtime"

/-- The identifier of a pinned read. -/
def pinnedId : Uuid := ⟨"00000000-0000-4000-8000-000000000001", by decide⟩

/-- A context without limits of its own. -/
def freeContext : OperationContext := ⟨fun _ => none, 0, u64Max⟩

/-- Three records are opened with pages of one record, and the rest is read, twice, with
limits above the largest size of a page. -/
def largeLimits : List (CursorCall Empty) :=
  let cursor := emptyStore.issue plainExternals pinnedId.text 1
  [.openRead pinnedId ⟨⟨some threeRecords⟩, ⟨"runtime", 0⟩⟩ (some 1) (fun _ => 0) freeContext,
    .page cursor (some 1500) (fun _ => 0) freeContext,
    .page cursor (some 2000) (fun _ => 0) freeContext]

/-- The run of these calls. -/
def largeLimitsRun : List (CursorExchange Empty) :=
  Trace.perform (cursorCall plainExternals) emptyStore largeLimits

/-- The page of a reply. -/
def shownPage : Except ProviderError CursorReply → Option ReadPage
  | .ok (.page page) => some page
  | _ => none

theorem eq_of_shownPage {reply : Except ProviderError CursorReply}
    (shown : shownPage reply = some page) : reply = .ok (.page page) := by
  unfold shownPage at shown
  split at shown
  next => rw [Option.some.inj shown]
  next => cases shown

theorem pagination_lossless_largeLimits :
    largeLimitsRun.map (fun exchange => (shownPage exchange.reply).map ReadPage.records) =
        [some [.number (.posInt 1)], some [.number (.posInt 2), .number (.posInt 3)],
          some [.number (.posInt 2), .number (.posInt 3)]] ∧
      Lossless plainExternals OtherSize largeLimitsRun := by
  have trace : Trace (CursorStep plainExternals) emptyStore largeLimitsRun
      (Trace.performed (cursorCall plainExternals) emptyStore largeLimits) :=
    Trace.of_perform (cursorCall plainExternals) emptyStore largeLimits
  exact ⟨by decide +kernel, pagination_lossless trace⟩

/-- The second limit is another one, and it is not refused. -/
theorem large_limits_not_refused :
    ¬ Lossless plainExternals (fun left right => left ≠ right) largeLimitsRun := by
  intro lossless
  have calls : largeLimitsRun.map Exchange.call = largeLimits := Trace.map_call_perform _ _ _
  -- what the three calls were answered with, in one evaluation of the run
  have facts : (largeLimitsRun.map fun exchange : CursorExchange Empty =>
        ((shownPage exchange.reply).isSome, ((shownPage exchange.reply).bind ReadPage.next).isSome,
          (exchange.before.authenticate plainExternals
            (emptyStore.issue plainExternals pinnedId.text 1)).toOption,
          ((exchange.before.removeExpired 0).entries.get? pinnedId.text).isSome)) =
      [(true, true, some (pinnedId.text, 1), false), (true, false, some (pinnedId.text, 1), true),
        (true, false, some (pinnedId.text, 1), true)] := by
    decide +kernel
  obtain ⟨first, rest, same, firstCall, others⟩ := List.map_eq_cons_iff.mp calls
  obtain ⟨second, last, rfl, secondCall, others⟩ := List.map_eq_cons_iff.mp others
  obtain ⟨third, none, rfl, thirdCall, others⟩ := List.map_eq_cons_iff.mp others
  obtain rfl := List.map_eq_nil_iff.mp others
  rw [same] at facts
  simp only [List.map_cons, List.map_nil, List.cons.injEq, Prod.mk.injEq, and_true] at facts
  obtain ⟨⟨_, firstPage, _⟩, ⟨secondPage, _, authentic, _⟩, thirdPage, _, _, alive⟩ := facts
  obtain ⟨shown, secondShown⟩ := Option.isSome_iff_exists.mp secondPage
  obtain ⟨again, thirdShown⟩ := Option.isSome_iff_exists.mp thirdPage
  obtain ⟨pinned, found⟩ := Option.isSome_iff_exists.mp alive
  obtain ⟨cursor, next⟩ := Option.isSome_iff_exists.mp firstPage
  obtain ⟨page, pageShown, pageNext⟩ := Option.bind_eq_some_iff.mp next
  have opened : Opened largeLimitsRun pinnedId threeRecords page [second, third] := by
    have parts : largeLimitsRun = [] ++ first :: [second, third] := by
      rw [same, List.nil_append]
    refine ⟨[], first, _, _, _, _, parts, firstCall, rfl, eq_of_shownPage pageShown, ?_⟩
    intro exchange member
    simp only [List.mem_cons, List.not_mem_nil, or_false] at member
    rcases member with rfl | rfl
    · rw [secondCall]
      exact fun contrary => by cases contrary
    · rw [thirdCall]
      exact fun contrary => by cases contrary
  have accepted : second.before.authenticate plainExternals
      (emptyStore.issue plainExternals pinnedId.text 1) = .ok (pinnedId.text, 1) := by
    cases result : second.before.authenticate plainExternals
        (emptyStore.issue plainExternals pinnedId.text 1) with
    | error error =>
      rw [result] at authentic
      cases authentic
    | ok value =>
      rw [result] at authentic
      rw [Option.some.inj authentic]
  obtain ⟨size, _, refused⟩ := lossless.refused pinnedId threeRecords page [second, third] opened
    (by rw [pageNext]; rfl) [] [] [] second third rfl _ (some 1500) _ _ 1 shown secondCall
    (eq_of_shownPage secondShown) accepted 2000 _ _ pinned thirdCall rfl found
  have contrary := (refused (by simp)).1
  rw [eq_of_shownPage thirdShown] at contrary
  cases contrary

end Mdbase.Provider
