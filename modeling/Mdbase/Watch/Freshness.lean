import Mdbase.Watch.Tickets

/-!
# Replies are fresh

A refresh notes the revision when it begins, and is taken over only if the revision is the same
when it ends. So nothing was invalidated while it ran, and everyone who waits for it was waiting
when it began. An acknowledgement compares the revision once more. Both are answered while the
epoch is locked, so that the answer comes before the epoch is exhausted or not at all.
-/

namespace Mdbase.Watch

open Library (Everywhere changeAll)

variable {debounce : Nat} {state after : WatchState}

/-- What a later state adds to the history is not older than the clock. -/
structure WatchState.Precedes (state after : WatchState) : Prop where
  clock : state.clock ≤ after.clock
  advances : after.advances = state.advances ∨ after.advances = state.clock :: state.advances
  exhausted : ∀ at_, after.exhaustedAt = some at_ → state.exhaustedAt = some at_ ∨ state.clock ≤ at_

theorem WatchState.Precedes.of_same (clock : after.clock = state.clock)
    (advances : after.advances = state.advances)
    (exhausted : after.exhaustedAt = state.exhaustedAt) : state.Precedes after :=
  ⟨clock.ge, .inl advances, fun _ at_ => .inl (exhausted ▸ at_)⟩

theorem WatchState.precedes_poison : state.Precedes state.poison where
  clock := Nat.le_refl _
  advances := .inl rfl
  exhausted := by
    intro at_ exhausted
    cases before : state.exhaustedAt with
    | none =>
      refine .inr (Nat.le_of_eq ?_)
      rw [WatchState.poison, before] at exhausted
      exact Option.some.inj exhausted
    | some first =>
      rw [WatchState.poison, before] at exhausted
      exact .inl exhausted

theorem WatchState.precedes_handle {input : WorkerInput} {invalidation : Option (List String)}
    {now : Nat} : state.Precedes (state.handle input invalidation now debounce) := by
  unfold handle
  dsimp only
  split
  next => exact .of_same rfl rfl rfl
  next => split <;> exact .of_same rfl rfl rfl
  next => split <;> exact .of_same rfl rfl rfl
  all_goals exact .of_same rfl rfl rfl

/-- The revision counts the advances. -/
structure WatchState.Numbered (state : WatchState) : Prop where
  revision : state.invalidationRevision = state.advances.length
  advances : ∀ at_ ∈ state.advances, at_ < state.clock

theorem Access.precedes (access : Access debounce state after) : state.Precedes after := by
  cases access with
  | poison => exact ⟨Nat.le_refl _, .inl rfl, WatchState.precedes_poison.exhausted⟩
  | advance | callbackAdvance => exact ⟨Nat.le_refl _, .inr rfl, fun _ => .inl⟩
  | callbackPoison => exact ⟨Nat.le_refl _, .inl rfl, WatchState.precedes_poison.exhausted⟩
  | @take input rest invalidation now phase next =>
    have handled := @WatchState.precedes_handle debounce { state with inputs := rest } input
      invalidation now
    exact ⟨handled.clock, handled.advances, handled.exhausted⟩
  | answer phase =>
    unfold WatchState.answer
    dsimp only
    split
    next => exact .of_same rfl rfl rfl
    next => split <;> exact .of_same rfl rfl rfl
  | check => split <;> exact .of_same rfl rfl rfl
  | _ => exact .of_same rfl rfl rfl

theorem Access.clock (access : Access debounce state after) : after.clock = state.clock := by
  cases access with
  | @take input rest invalidation now phase next =>
    unfold WatchState.handle
    dsimp only
    split
    next => rfl
    next => split <;> rfl
    next => split <;> rfl
    all_goals rfl
  | answer phase =>
    unfold WatchState.answer
    dsimp only
    split
    next => rfl
    next => split <;> rfl
  | check => split <;> rfl
  | _ => rfl

theorem Access.numbered (access : Access debounce state after) (numbered : state.Numbered) :
    after.tick.Numbered := by
  have revision : after.invalidationRevision = after.advances.length := by
    cases access with
    | advance | callbackAdvance => exact congrArg (· + 1) numbered.revision
    | @take input rest invalidation now phase next =>
      unfold WatchState.handle
      dsimp only
      split
      next => exact numbered.revision
      next => split <;> exact numbered.revision
      next => split <;> exact numbered.revision
      all_goals exact numbered.revision
    | answer phase =>
      unfold WatchState.answer
      dsimp only
      split
      next => exact numbered.revision
      next => split <;> exact numbered.revision
    | check => split <;> exact numbered.revision
    | _ => exact numbered.revision
  refine ⟨revision, fun at_ member => ?_⟩
  have tick : after.tick.clock = state.clock + 1 := congrArg (· + 1) access.clock
  rw [tick]
  rcases access.precedes.advances with same | more
  · exact (numbered.advances at_ (same ▸ member)).trans (Nat.lt_succ_self _)
  · rcases List.mem_cons.mp (more ▸ member) with rfl | old
    · exact Nat.lt_succ_self _
    · exact (numbered.advances at_ old).trans (Nat.lt_succ_self _)

/-- A load that began, with the revision at that time. -/
structure WatchState.Began (state : WatchState) (revision began : Nat) : Prop where
  past : began < state.clock
  revision : (state.advances.countP fun at_ => at_ < began) = revision

/-- A load during which nothing was invalidated. -/
structure WatchState.Observed (state : WatchState) (outcome : ReconciliationOutcome) : Prop where
  began : state.Began outcome.revision outcome.load.began
  ordered : outcome.load.began < outcome.load.ended
  ended : outcome.load.ended < state.clock
  quiet : ∀ at_ ∈ state.advances, outcome.load.began ≤ at_ → outcome.load.ended < at_

theorem WatchState.Began.later {revision began : Nat} (began_ : state.Began revision began)
    (precedes : state.Precedes after) : after.Began revision began where
  past := began_.past.trans_le precedes.clock
  revision := by
    rcases precedes.advances with same | more
    · rw [same, began_.revision]
    · rw [more, List.countP_cons, began_.revision,
        if_neg (by simpa using Nat.le_of_lt began_.past), Nat.add_zero]

variable {outcome : ReconciliationOutcome}

theorem WatchState.Observed.later
    (observed : state.Observed outcome) (precedes : state.Precedes after) :
    after.Observed outcome where
  began := observed.began.later precedes
  ordered := observed.ordered
  ended := observed.ended.trans_le precedes.clock
  quiet := by
    intro at_ member late
    rcases precedes.advances with same | more
    · exact observed.quiet at_ (same ▸ member) late
    · rcases List.mem_cons.mp (more ▸ member) with rfl | old
      · exact observed.ended
      · exact observed.quiet at_ old late

theorem WatchState.Began.unchanged {revision began : Nat} (began_ : state.Began revision began)
    (numbered : state.Numbered) (same : revision = state.invalidationRevision) :
    ∀ at_ ∈ state.advances, at_ < began := by
  have all := began_.revision.trans (same.trans numbered.revision)
  intro at_ member
  exact of_decide_eq_true (List.countP_eq_length.mp all at_ member)

namespace WatchState

/-- When a request was sent. -/
def sentAt? (state : WatchState) (index : Nat) : Option Nat :=
  (state.requests[index]?).bind Request.enqueuedAt

/-- What was sent into the channel of a request, and when. -/
def reply? (state : WatchState) (index : Nat) : Option (ReconciliationResult × Nat) :=
  (state.requests[index]?).bind Request.reply

section Read

variable {β : Type} {read : Request → Option β} {index : Nat}

theorem bind_releaseAll (same : ∀ request, read request.release = read request)
    (indices : List Nat) :
    ((state.releaseAll indices).requests[index]?).bind read =
      (state.requests[index]?).bind read := by
  rw [requests_releaseAll]
  exact Library.bind_changeAll_of_same same _ _ _

theorem bind_modifyRequest {change : Request → Request}
    (same : ∀ request, read (change request) = read request) (changed : Nat) :
    ((state.modifyRequest changed change).requests[index]?).bind read =
      (state.requests[index]?).bind read :=
  Library.bind_modify_of_same same _ _ _

theorem bind_returnRequest (same : ∀ request, read request.release = read request)
    (returned : ∀ request : Request, read { request with phase := .returned } = read request)
    (changed : Nat) :
    ((state.returnRequest changed).requests[index]?).bind read =
      (state.requests[index]?).bind read :=
  (bind_releaseAll same _).trans (Library.bind_modify_of_same returned _ _ _)

theorem bind_handle {input : WorkerInput} {invalidation : Option (List String)} {now : Nat}
    (same : ∀ request, read request.release = read request) (open_ : input ≠ .revisionExhausted) :
    ((state.handle input invalidation now debounce).requests[index]?).bind read =
      (state.requests[index]?).bind read := by
  unfold handle
  dsimp only
  split
  next => exact bind_releaseAll same _
  next => split <;> [exact bind_releaseAll same _; rfl]
  next => split <;> [exact bind_releaseAll same _; rfl]
  next => exact bind_releaseAll same _
  next => rfl
  next => rfl
  next => rfl
  next => exact absurd rfl open_

end Read

theorem sentAt?_finishPendingRescans (result : ReconciliationResult) (index : Nat) :
    (state.finishPendingRescans result).sentAt? index = state.sentAt? index := by
  unfold sentAt?
  rw [requests_finishPendingRescans,
    Library.bind_changeAll_of_same (Request.deliver_enqueuedAt result state.clock)]
  exact bind_releaseAll (fun _ => rfl) _

theorem reply?_finishPendingRescans {result : ReconciliationResult} {index : Nat}
    {reply : ReconciliationResult × Nat}
    (replied : (state.finishPendingRescans result).reply? index = some reply) :
    state.reply? index = some reply ∨ reply = (result, state.clock) ∧
      ∃ pending ∈ state.worker.pendingRescans, pending.request = index := by
  unfold reply? at replied ⊢
  rw [requests_finishPendingRescans,
    Library.getElem?_changeAll (Request.deliver_deliver result state.clock),
    Option.bind_map] at replied
  have unreleased := @bind_releaseAll state _ Request.reply index (fun _ => rfl)
    (state.worker.pendingRescans.map PendingRescan.request)
  rw [← unreleased]
  obtain ⟨request, here, replied⟩ := Option.bind_eq_some_iff.mp replied
  rw [here, Option.bind_some]
  rw [Function.comp_apply] at replied
  split at replied
  next inside =>
    unfold Request.deliver at replied
    split at replied
    next => exact .inl replied
    next => exact .inr ⟨(Option.some.inj replied).symm, List.mem_map.mp inside⟩
  next => exact .inl replied

end WatchState

theorem Access.sentAt (access : Access debounce state after) (kept : state.Kept [])
    {index sentAt : Nat} (sent : state.sentAt? index = some sentAt) :
    after.sentAt? index = some sentAt := by
  have same {later : WatchState} (equal : later.sentAt? index = state.sentAt? index) :
      later.sentAt? index = some sentAt := equal.trans sent
  cases access with
  | reserve => exact same (Library.bind_append_of_none rfl _ _)
  | claim | claimLast | advance | advanceLast
  | cancel => exact same (WatchState.bind_modifyRequest (fun _ => by rfl) _)
  | refuse | poison | enqueueStopped | receive | disconnect
  | sendCancel => exact same (WatchState.bind_returnRequest (fun _ => rfl) (fun _ => rfl) _)
  | @enqueue changed id request here phase claimed runs =>
    have untouched := kept.early changed request here (phase ▸ rfl)
    by_cases other : changed = index
    · subst other
      rw [WatchState.sentAt?, here] at sent
      cases sent.symm.trans untouched.enqueuedAt
    · exact same (congrArg (fun slot => Option.bind slot Request.enqueuedAt)
        (List.getElem?_modify_ne _ _ other))
  | @take input rest invalidation now phase next =>
    by_cases exhausted : input = .revisionExhausted
    · subst exhausted
      exact same (WatchState.sentAt?_finishPendingRescans _ _)
    · exact same (WatchState.bind_handle (fun _ => rfl) exhausted)
  | answer phase =>
    unfold WatchState.answer
    dsimp only
    split
    next => exact sent
    next => split <;> exact sent
  | check =>
    split
    next => exact same (WatchState.sentAt?_finishPendingRescans _ _)
    next => exact sent
  | abandon | complete => exact same (WatchState.sentAt?_finishPendingRescans _ _)
  | _ => exact sent

/-- A waiter is answered with the outcome of the refresh that completes. -/
structure WatchState.Completes (state after : WatchState) (index : Nat)
    (outcome : ReconciliationOutcome) (reply : ReconciliationResult × Nat) : Prop where
  phase : state.worker.phase = .completing outcome
  open_ : after.isExhausted = false
  reply : reply = (.ok outcome, state.clock)
  waits : ∃ pending ∈ state.worker.pendingRescans, pending.request = index

/-- A reply is an old one, a failure or the outcome of a completed load. -/
theorem Access.reply (access : Access debounce state after) {index : Nat}
    {reply : ReconciliationResult × Nat} (replied : after.reply? index = some reply) :
    state.reply? index = some reply ∨ (∃ failure at_, reply = (.error failure, at_)) ∨
      ∃ outcome, state.Completes after index outcome reply := by
  have same (equal : after.reply? index = state.reply? index) :
      state.reply? index = some reply ∨ (∃ failure at_, reply = (.error failure, at_)) ∨
        ∃ outcome, state.Completes after index outcome reply :=
    .inl (equal.symm.trans replied)
  have failed {later : WatchState} (unchanged : later.reply? index = state.reply? index)
      (replied : later.failWork.reply? index = some reply) :
      state.reply? index = some reply ∨ (∃ failure at_, reply = (.error failure, at_)) ∨
        ∃ outcome, state.Completes after index outcome reply := by
    rcases WatchState.reply?_finishPendingRescans replied with old | ⟨new, -⟩
    · exact .inl (unchanged.symm.trans old)
    · exact .inr (.inl ⟨_, _, new⟩)
  cases access with
  | reserve => exact same (Library.bind_append_of_none rfl _ _)
  | claim | claimLast | advance | advanceLast | enqueue
  | cancel => exact same (WatchState.bind_modifyRequest (fun _ => by rfl) _)
  | refuse | poison | enqueueStopped | receive | disconnect | sendCancel =>
    exact same (WatchState.bind_returnRequest (fun _ => rfl) (fun _ => rfl) _)
  | @take input rest invalidation now phase next =>
    by_cases exhausted : input = .revisionExhausted
    · subst exhausted
      exact @failed { state with inputs := rest } rfl replied
    · exact same (WatchState.bind_handle (fun _ => rfl) exhausted)
  | answer phase =>
    refine same ?_
    unfold WatchState.answer
    dsimp only
    split
    next => rfl
    next => split <;> rfl
  | check =>
    split at replied
    next => exact failed rfl replied
    next => exact .inl replied
  | abandon => exact failed rfl replied
  | @complete outcome phase =>
    rcases WatchState.reply?_finishPendingRescans replied with old | ⟨new, waits⟩
    · exact .inl old
    · right
      cases exhausted : state.isExhausted with
      | true =>
        rw [exhausted] at new
        exact .inl ⟨_, _, new⟩
      | false =>
        rw [exhausted] at new
        exact .inr ⟨outcome, phase, exhausted, new, waits⟩
  | _ => exact .inl replied

variable {pending : PendingRescan} {input : WorkerInput}

theorem WatchState.held_send (held : pending ∈ (state.send input).held) :
    pending ∈ state.held ∨ input.pending? = some pending := by
  unfold WatchState.held WatchState.send at held
  dsimp only at held
  rcases List.mem_append.mp held with queued | waits
  · split at queued
    next => exact .inl (List.mem_append_left _ queued)
    rw [List.filterMap_append] at queued
    rcases List.mem_append.mp queued with old | new
    · exact .inl (List.mem_append_left _ old)
    · obtain ⟨sent, member, carried⟩ := List.mem_filterMap.mp new
      cases List.mem_singleton.mp member
      exact .inr carried
  · exact .inl (List.mem_append_right _ waits)

theorem WatchState.held_send_of_none
    (held : pending ∈ (state.send input).held) (none_ : input.pending? = none) :
    pending ∈ state.held :=
  (WatchState.held_send held).resolve_right fun carried => by
    rw [none_] at carried
    cases carried

theorem WatchState.held_poison (held : pending ∈ state.poison.held) : pending ∈ state.held := by
  unfold WatchState.held WatchState.poison at held
  dsimp only at held
  rcases List.mem_append.mp held with queued | waits
  · split at queued
    next => exact List.mem_append_left _ queued
    rw [List.filterMap_append, List.mem_append] at queued
    exact List.mem_append_left _ (queued.resolve_right nofun)
  · exact List.mem_append_right _ waits

variable {invalidation : Option (List String)}

theorem WatchState.held_handle {rest : List WorkerInput}
    {now : Nat} (next : state.inputs = input :: rest)
    (held : pending ∈ ({ state with inputs := rest }.handle input invalidation now debounce).held) :
    pending ∈ state.held := by
  have queued {other : PendingRescan}
      (member : other ∈ rest.filterMap WorkerInput.pending?) : other ∈ state.held := by
    refine List.mem_append_left _ ?_
    rw [next]
    obtain ⟨sent, here, carried⟩ := List.mem_filterMap.mp member
    exact List.mem_filterMap.mpr ⟨sent, List.mem_cons_of_mem _ here, carried⟩
  have waits {other : PendingRescan} (member : other ∈ state.worker.pendingRescans) :
      other ∈ state.held := List.mem_append_right _ member
  have kept (member : pending ∈ ({ state with inputs := rest }).held) : pending ∈ state.held :=
    (List.mem_append.mp member).elim queued waits
  have taken {other : PendingRescan} (carried : input.pending? = some other)
      (member : pending ∈ rest.filterMap WorkerInput.pending? ++
        (state.worker.pendingRescans ++ [other])) : pending ∈ state.held := by
    rcases List.mem_append.mp member with member | member
    · exact queued member
    · rcases List.mem_append.mp member with member | member
      · exact waits member
      · cases List.mem_singleton.mp member
        rw [WatchState.held, next, List.filterMap_cons_some carried]
        exact List.mem_cons_self
  unfold WatchState.handle at held
  dsimp only at held
  split at held
  next => cases held
  next other =>
    split at held
    next => exact kept held
    next => exact taken rfl held
  next paths other =>
    split at held
    next => exact kept held
    obtain ⟨pendingPaths, fullRescan, merged⟩ :=
      (state.worker.scheduleRelevantRefresh state.worker.isFailing now 0).mergePendingPaths_eq
        paths
    have waiters : (state.worker.acceptRescanPaths paths other now).pendingRescans =
        state.worker.pendingRescans ++ [other] := by
      rw [Worker.acceptRescanPaths, merged]
      rfl
    exact taken rfl (waiters ▸ held)
  next id =>
    refine (List.mem_append.mp held).elim queued fun member => waits ?_
    exact List.mem_of_mem_eraseP member
  next => exact kept held
  next event =>
    refine (List.mem_append.mp held).elim queued fun member => waits ?_
    rw [← state.worker.pendingRescans_acceptEvent event invalidation now debounce]
    exact member
  next => exact kept held
  next => exact (List.mem_append.mp held).elim queued (absurd · List.not_mem_nil)

/-- A held request was held before, or it was just sent. -/
theorem Access.held (access : Access debounce state after) (held : pending ∈ after.held) :
    pending ∈ state.held ∨ after.sentAt? pending.request = some state.clock := by
  have dropped {other : PendingRescan}
      (member : other ∈ state.inputs.filterMap WorkerInput.pending? ++ []) :
      other ∈ state.held := by
    rw [List.append_nil] at member
    exact List.mem_append_left _ member
  cases access with
  | poison => exact .inl (WatchState.held_poison held)
  | @enqueue index id request here phase claimed runs =>
    rcases WatchState.held_send held with old | new
    · exact .inl old
    · right
      have same : pending.request = index := by
        split at new <;> cases new <;> rfl
      rw [same, WatchState.sentAt?]
      exact congrArg (fun slot => Option.bind slot Request.enqueuedAt)
        ((List.getElem?_modify_eq ..).trans (congrArg _ here))
  | sendCancel | sendAcknowledgement => exact .inl (WatchState.held_send_of_none held rfl)
  | callbackPoison => exact .inl (WatchState.held_poison held)
  | callbackSend | askToStop => exact .inl (WatchState.held_send_of_none held rfl)
  | take phase next => exact .inl (WatchState.held_handle next held)
  | answer phase =>
    unfold WatchState.answer at held
    dsimp only at held
    split at held
    next => exact .inl held
    next => split at held <;> exact .inl held
  | check =>
    split at held
    next => exact .inl (dropped held)
    next => exact .inl held
  | abandon => exact .inl (dropped held)
  | @settle refreshRevision now load refreshed phase =>
    unfold WatchState.settle at held
    dsimp only at held
    cases refreshed with
    | none => exact .inl held
    | some next =>
      dsimp only at held
      split at held <;> exact .inl held
  | complete => exact .inl (dropped held)
  | _ => exact .inl held

/-- The outcome that an acknowledgement is about. -/
def WatchState.asked? (state : WatchState) (index : Nat) : Option ReconciliationOutcome :=
  (state.acknowledgements[index]?).bind fun acknowledgement => some acknowledgement.outcome

theorem WatchState.acknowledgements_handle {now : Nat} :
    (state.handle input invalidation now debounce).acknowledgements = state.acknowledgements := by
  unfold handle
  dsimp only
  split
  next => rfl
  next => split <;> rfl
  next => split <;> rfl
  all_goals rfl

theorem WatchState.asked?_replyAcknowledgement (index changed : Nat)
    (result : Except ReconciliationFailure Bool) :
    (state.replyAcknowledgement changed result).asked? index = state.asked? index :=
  Library.bind_modify_of_same (fun _ => by rfl) _ _ _

theorem Access.asked (access : Access debounce state after) {index : Nat}
    (asked : state.asked? index = some outcome) :
    after.asked? index = some outcome := by
  cases access with
  | acknowledge =>
    obtain ⟨acknowledgement, here, about⟩ := Option.bind_eq_some_iff.mp asked
    exact Option.bind_eq_some_iff.mpr
      ⟨acknowledgement, Library.getElem?_append_of_some here _, about⟩
  | sendAcknowledgement | expireAcknowledgement =>
    exact (Library.bind_modify_of_same (fun _ => by rfl) _ _ _).trans asked
  | take phase next =>
    unfold WatchState.asked?
    rw [WatchState.acknowledgements_handle]
    exact asked
  | answer phase =>
    unfold WatchState.answer
    dsimp only
    split
    next => exact (WatchState.asked?_replyAcknowledgement _ _ _).trans asked
    next => split <;> exact (WatchState.asked?_replyAcknowledgement _ _ _).trans asked
  | check => split <;> exact asked
  | _ => exact asked

/-- An acknowledgement that is in the queue is about the outcome that it carries. -/
def WatchState.Addressed (state : WatchState) : Prop :=
  ∀ outcome index, .command (.acknowledge outcome index) ∈ state.inputs →
    state.asked? index = some outcome

theorem Access.addressed (access : Access debounce state after) (addressed : state.Addressed) :
    after.Addressed := by
  intro outcome index member
  have old (member : .command (.acknowledge outcome index) ∈ state.inputs) :
      after.asked? index = some outcome := access.asked (addressed outcome index member)
  cases access with
  | poison => exact old ((WatchState.mem_inputs_poison member).resolve_right nofun)
  | enqueue =>
    refine old ((WatchState.mem_inputs_send member).resolve_right fun new => ?_)
    split at new <;> cases new
  | sendCancel => exact old ((WatchState.mem_inputs_send member).resolve_right nofun)
  | @sendAcknowledgement changed acknowledgement here unsent =>
    rcases WatchState.mem_inputs_send member with queued | new
    · exact old queued
    · cases new
      refine (Library.bind_modify_of_same (fun _ => by rfl) _ _ _).trans ?_
      rw [here, Option.bind_some]
  | callbackPoison => exact old ((WatchState.mem_inputs_poison member).resolve_right nofun)
  | callbackSend | askToStop => exact old ((WatchState.mem_inputs_send member).resolve_right nofun)
  | take phase next =>
    refine old ?_
    rw [next]
    exact List.mem_cons_of_mem _ (WatchState.inputs_handle member)
  | answer phase =>
    unfold WatchState.answer at member
    dsimp only at member
    split at member
    next => exact old member
    next => split at member <;> exact old member
  | check => split at member <;> exact old member
  | _ => exact old member

/-- A request was answered with an outcome. -/
structure WatchState.Answered (state : WatchState) (index : Nat)
    (outcome : ReconciliationOutcome) (answeredAt : Nat) : Prop where
  observed : state.Observed outcome
  sent : ∃ sentAt, state.sentAt? index = some sentAt ∧ sentAt < outcome.load.began
  past : answeredAt < state.clock
  open_ : ∀ exhaustedAt, state.exhaustedAt = some exhaustedAt → answeredAt < exhaustedAt

/-- An acknowledgement of an outcome, with its reply if it has one. -/
structure Acknowledgement.Current (state : WatchState) (acknowledgement : Acknowledgement) :
    Prop where
  observed : state.Observed acknowledgement.outcome
  past : ∀ current answeredAt, acknowledgement.reply = some (.ok current, answeredAt) →
    answeredAt < state.clock
  open_ : ∀ current answeredAt, acknowledgement.reply = some (.ok current, answeredAt) →
    ∀ exhaustedAt, state.exhaustedAt = some exhaustedAt → answeredAt < exhaustedAt
  unchanged : ∀ answeredAt, acknowledgement.reply = some (.ok true, answeredAt) →
    ∀ at_ ∈ state.advances, acknowledgement.outcome.load.began ≤ at_ → answeredAt < at_

/-- Everyone who waits was waiting at a time. -/
def WatchState.WaitedBefore (state : WatchState) (time : Nat) : Prop :=
  ∀ pending ∈ state.worker.pendingRescans,
    ∃ sentAt, state.sentAt? pending.request = some sentAt ∧ sentAt < time

/-- A load that has ended. -/
structure WatchState.Loads (state : WatchState) (refreshRevision : Nat) (load : Load) : Prop where
  began : state.Began refreshRevision load.began
  ordered : load.began < load.ended
  ended : load.ended < state.clock
  waited : state.WaitedBefore load.began

/-- What the worker knows in each phase. -/
def WatchState.KeepsLoad (state : WatchState) : Prop :=
  match state.worker.phase with
  | .acknowledging outcome index _ => state.asked? index = some outcome
  | .loading refreshRevision began => state.Began refreshRevision began ∧ state.WaitedBefore began
  | .loaded refreshRevision load _ | .settling refreshRevision load _ =>
    state.Loads refreshRevision load
  | .completing outcome => state.Observed outcome ∧ state.WaitedBefore outcome.load.began
  | .starting | .receiving | .received | .checked | .stopped => True

structure WatchState.Fresh (state : WatchState) : Prop where
  numbered : state.Numbered
  answered : ∀ index outcome answeredAt, state.reply? index = some (.ok outcome, answeredAt) →
    state.Answered index outcome answeredAt
  current : Everywhere (fun _ acknowledgement => acknowledgement.Current state)
    state.acknowledgements
  addressed : state.Addressed
  held : ∀ pending ∈ state.held,
    ∃ sentAt, state.sentAt? pending.request = some sentAt ∧ sentAt < state.clock
  keepsLoad : state.KeepsLoad

variable {index answeredAt : Nat}

theorem WatchState.Answered.later
    (answered : state.Answered index outcome answeredAt) (precedes : state.Precedes after)
    (sent : ∀ sentAt, state.sentAt? index = some sentAt → after.sentAt? index = some sentAt) :
    after.Answered index outcome answeredAt where
  observed := answered.observed.later precedes
  sent := by
    obtain ⟨sentAt, enqueued, before⟩ := answered.sent
    exact ⟨sentAt, sent sentAt enqueued, before⟩
  past := answered.past.trans_le precedes.clock
  open_ := by
    intro exhaustedAt exhausted
    rcases precedes.exhausted exhaustedAt exhausted with old | new
    · exact answered.open_ exhaustedAt old
    · exact answered.past.trans_le new

theorem Acknowledgement.Current.later {acknowledgement : Acknowledgement}
    (current : acknowledgement.Current state) (precedes : state.Precedes after) :
    acknowledgement.Current after where
  observed := current.observed.later precedes
  past := fun result answeredAt replied =>
    (current.past result answeredAt replied).trans_le precedes.clock
  open_ := by
    intro result answeredAt replied exhaustedAt exhausted
    rcases precedes.exhausted exhaustedAt exhausted with old | new
    · exact current.open_ result answeredAt replied exhaustedAt old
    · exact (current.past result answeredAt replied).trans_le new
  unchanged := by
    intro answeredAt replied at_ member since
    rcases precedes.advances with same | more
    · exact current.unchanged answeredAt replied at_ (same ▸ member) since
    · rcases List.mem_cons.mp (more ▸ member) with rfl | old
      · exact current.past true answeredAt replied
      · exact current.unchanged answeredAt replied at_ old since

theorem WatchState.WaitedBefore.later {time : Nat} (waited : state.WaitedBefore time)
    (waiters : after.worker.pendingRescans = state.worker.pendingRescans)
    (sent : ∀ index sentAt, state.sentAt? index = some sentAt →
      after.sentAt? index = some sentAt) : after.WaitedBefore time := by
  intro pending member
  obtain ⟨sentAt, enqueued, before⟩ := waited pending (waiters ▸ member)
  exact ⟨sentAt, sent _ sentAt enqueued, before⟩

theorem WatchState.Loads.later {refreshRevision : Nat} {load : Load}
    (loads : state.Loads refreshRevision load) (precedes : state.Precedes after)
    (waiters : after.worker.pendingRescans = state.worker.pendingRescans)
    (sent : ∀ index sentAt, state.sentAt? index = some sentAt →
      after.sentAt? index = some sentAt) : after.Loads refreshRevision load :=
  ⟨loads.began.later precedes, loads.ordered, loads.ended.trans_le precedes.clock,
    loads.waited.later waiters sent⟩

theorem WatchState.KeepsLoad.later (keeps : state.KeepsLoad) (precedes : state.Precedes after)
    (worker : after.worker = state.worker)
    (sent : ∀ index sentAt, state.sentAt? index = some sentAt → after.sentAt? index = some sentAt)
    (asked : ∀ index outcome, state.asked? index = some outcome →
      after.asked? index = some outcome) : after.KeepsLoad := by
  have waiters : after.worker.pendingRescans = state.worker.pendingRescans := by rw [worker]
  unfold WatchState.KeepsLoad at keeps ⊢
  rw [worker]
  split at keeps
  next => exact asked _ _ keeps
  next => exact ⟨keeps.1.later precedes, keeps.2.later waiters sent⟩
  next => exact keeps.later precedes waiters sent
  next => exact keeps.later precedes waiters sent
  next => exact ⟨keeps.1.later precedes, keeps.2.later waiters sent⟩
  all_goals trivial

theorem WatchState.Precedes.tick (precedes : state.Precedes after) : state.Precedes after.tick :=
  ⟨precedes.clock.trans (Nat.le_succ _), precedes.advances, precedes.exhausted⟩

theorem Access.answered (access : Access debounce state after) (kept : state.Kept [])
    (fresh : state.Fresh) (replied : after.reply? index = some (.ok outcome, answeredAt)) :
    after.tick.Answered index outcome answeredAt := by
  have precedes := access.precedes.tick
  rcases access.reply replied with
    old | ⟨failure, at_, failed⟩ | ⟨completed, phase, open_, new, pending, waits, same⟩
  · exact (fresh.answered index outcome answeredAt old).later precedes
      fun sentAt => access.sentAt kept
  · cases failed
  · cases new
    subst same
    have keeps := fresh.keepsLoad
    rw [WatchState.KeepsLoad, phase] at keeps
    obtain ⟨observed, waited⟩ := keeps
    obtain ⟨sentAt, sent, before⟩ := waited pending waits
    refine ⟨observed.later precedes, ⟨sentAt, access.sentAt kept sent, before⟩, ?_, ?_⟩
    · exact Nat.lt_succ_of_le access.precedes.clock
    · intro exhaustedAt exhausted
      exact Bool.noConfusion (open_.symm.trans (congrArg Option.isSome exhausted))

theorem WatchState.history_answer (state : WatchState) (outcome : ReconciliationOutcome)
    (index : Nat) (preliminarilyCurrent : Bool) :
    (state.answer outcome index preliminarilyCurrent).clock = state.clock ∧
      (state.answer outcome index preliminarilyCurrent).advances = state.advances ∧
        (state.answer outcome index preliminarilyCurrent).exhaustedAt = state.exhaustedAt := by
  unfold answer
  dsimp only
  split
  next => exact ⟨rfl, rfl, rfl⟩
  next => split <;> exact ⟨rfl, rfl, rfl⟩

theorem WatchState.Fresh.answer (fresh : state.Fresh) {outcome : ReconciliationOutcome}
    {index : Nat} {preliminarilyCurrent : Bool} (asked : state.asked? index = some outcome)
    (clock : state.clock < after.clock) (advances : after.advances = state.advances)
    (exhausted : after.exhaustedAt = state.exhaustedAt)
    (old : Everywhere (fun _ acknowledgement => acknowledgement.Current after)
      state.acknowledgements) :
    Everywhere (fun _ acknowledgement => acknowledgement.Current after)
      (state.answer outcome index preliminarilyCurrent).acknowledgements := by
  have replied {result : Except ReconciliationFailure Bool}
      (open_ : (∃ current, result = .ok current) → state.isExhausted = false)
      (unchanged : result = .ok true → ∀ at_ ∈ state.advances, at_ < outcome.load.began) :
      Everywhere (fun _ acknowledgement => acknowledgement.Current after)
        (state.replyAcknowledgement index result).acknowledgements := by
    refine old.modify fun slot found => ?_
    have about : slot.outcome = outcome := by
      rw [WatchState.asked?, found] at asked
      exact Option.some.inj asked
    refine ⟨(old index slot found).observed, ?_, ?_, ?_⟩
    · rintro current answeredAt ⟨⟩
      exact clock
    · rintro current answeredAt ⟨⟩ exhaustedAt at_
      exact Bool.noConfusion ((open_ ⟨current, rfl⟩).symm.trans
        (congrArg Option.isSome (exhausted.symm.trans at_)))
    · rintro answeredAt ⟨⟩ at_ member since
      exact absurd since (Nat.not_le.mpr (about ▸ unchanged rfl at_ (advances ▸ member)))
  unfold WatchState.answer
  dsimp only
  split
  next holds =>
    have current := (Bool.and_eq_true _ _ ▸ holds).2
    rw [WatchState.isCurrent] at current
    simp only [Bool.and_eq_true, Bool.not_eq_true', decide_eq_true_eq] at current
    obtain ⟨⟨⟨-, open_⟩, -⟩, same⟩ := current
    refine replied (fun _ => open_) fun _ => ?_
    obtain ⟨acknowledgement, found, about⟩ := Option.bind_eq_some_iff.mp asked
    have observed := (fresh.current index acknowledgement found).observed
    rw [Option.some.inj about] at observed
    exact observed.began.unchanged fresh.numbered same
  split
  next => exact replied (fun ⟨_, failed⟩ => nomatch failed) nofun
  next alive => exact replied (fun _ => Bool.eq_false_iff.mpr alive) nofun

theorem Access.current (access : Access debounce state after) (fresh : state.Fresh) :
    Everywhere (fun _ acknowledgement => acknowledgement.Current after.tick)
      after.acknowledgements := by
  have old : Everywhere (fun _ acknowledgement => acknowledgement.Current after.tick)
      state.acknowledgements :=
    fresh.current.imp fun _ _ _ current => current.later access.precedes.tick
  cases access with
  | @acknowledge index at_ request outcome here observed open_ =>
    refine old.append ⟨?_, nofun, nofun, nofun⟩
    have replied : state.reply? index = some (.ok outcome, at_) := by
      rw [WatchState.reply?, here]
      exact observed
    exact (fresh.answered index outcome at_ replied).observed.later
      ⟨Nat.le_succ _, .inl rfl, fun _ => .inl⟩
  | sendAcknowledgement | expireAcknowledgement =>
    refine old.modify fun slot found => ?_
    have current := old _ slot found
    exact ⟨current.observed, current.past, current.open_, current.unchanged⟩
  | take phase next =>
    rw [WatchState.acknowledgements_handle]
    exact old
  | @answer outcome index preliminarilyCurrent phase =>
    have asked := fresh.keepsLoad
    rw [WatchState.KeepsLoad, phase] at asked
    obtain ⟨clock, advances, exhausted⟩ := state.history_answer outcome index preliminarilyCurrent
    exact fresh.answer asked (Nat.lt_succ_of_le clock.ge) advances exhausted old
  | check =>
    by_cases exhausted : state.isExhausted = true
    · rw [if_pos exhausted] at old ⊢
      exact old
    · rw [if_neg exhausted] at old ⊢
      exact old
  | _ => exact old

theorem Access.keepsLoad (access : Access debounce state after) (kept : state.Kept [])
    (fresh : state.Fresh) : after.tick.KeepsLoad := by
  have precedes := access.precedes.tick
  have sent : ∀ index sentAt, state.sentAt? index = some sentAt →
      after.tick.sentAt? index = some sentAt := fun _ _ => access.sentAt kept
  have others (worker : after.worker = state.worker) : after.tick.KeepsLoad :=
    fresh.keepsLoad.later precedes worker sent fun _ _ => access.asked
  have keeps := fresh.keepsLoad
  cases access with
  | start phase => trivial
  | @take input rest invalidation now phase next =>
    have queued : ∀ outcome index, input = .command (.acknowledge outcome index) →
        state.asked? index = some outcome := by
      rintro outcome index rfl
      exact fresh.addressed outcome index (next ▸ List.mem_cons_self)
    unfold WatchState.handle
    dsimp only
    split
    next => trivial
    next => split <;> trivial
    next => split <;> trivial
    next => trivial
    next outcome index => exact queued outcome index rfl
    all_goals trivial
  | timeout | answer | check | notDue => trivial
  | @due now deadline phase scheduled reached =>
    refine ⟨⟨Nat.lt_succ_self _, ?_⟩, ?_⟩
    · refine (List.countP_eq_length.mpr fun at_ member => ?_).trans fresh.numbered.revision.symm
      exact decide_eq_true (fresh.numbered.advances at_ member)
    · exact fun pending member => fresh.held pending (List.mem_append_right _ member)
  | @load refreshRevision began refreshed phase =>
    rw [WatchState.KeepsLoad, phase] at keeps
    exact ⟨keeps.1.later precedes, keeps.1.past, Nat.lt_succ_self _, keeps.2.later rfl sent⟩
  | abandon => trivial
  | proceed phase open_ =>
    rw [WatchState.KeepsLoad, phase] at keeps
    exact WatchState.Loads.later keeps precedes rfl sent
  | @settle refreshRevision now load refreshed phase =>
    rw [WatchState.KeepsLoad, phase] at keeps
    unfold WatchState.settle
    dsimp only
    cases refreshed with
    | none => trivial
    | some next =>
      dsimp only
      split
      next same =>
        refine ⟨⟨keeps.began.later ⟨Nat.le_succ _, .inl rfl, fun _ => .inl⟩, keeps.ordered,
          keeps.ended.trans (Nat.lt_succ_self _), ?_⟩, keeps.waited⟩
        intro at_ member since
        exact absurd since (Nat.not_le.mpr (keeps.began.unchanged fresh.numbered same at_ member))
      next => trivial
  | complete => trivial
  | _ => exact others rfl

theorem Access.fresh (access : Access debounce state after) (kept : state.Kept [])
    (fresh : state.Fresh) : after.tick.Fresh where
  numbered := access.numbered fresh.numbered
  answered := fun _ _ _ replied => access.answered kept fresh replied
  current := access.current fresh
  addressed := access.addressed fresh.addressed
  held := by
    intro pending member
    rcases access.held member with old | new
    · obtain ⟨sentAt, sent, before⟩ := fresh.held pending old
      exact ⟨sentAt, access.sentAt kept sent, before.trans_le access.precedes.tick.clock⟩
    · exact ⟨state.clock, new, Nat.lt_succ_of_le access.precedes.clock⟩
  keepsLoad := access.keepsLoad kept fresh

theorem Reachable.fresh {snapshot : Snapshot} (reachable : Reachable debounce snapshot state) :
    state.Fresh := by
  induction reachable with
  | initial => exact ⟨⟨rfl, nofun⟩, nofun, nofun, nofun, nofun, trivial⟩
  | step prior next ih =>
    obtain ⟨access⟩ := next
    exact access.fresh prior.kept ih

end Mdbase.Watch
