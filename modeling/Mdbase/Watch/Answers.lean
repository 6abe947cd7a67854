import Mdbase.Watch.Freshness

/-!
# Replies cover what was asked

A refresh reads the whole collection or the pending paths. Whoever waits has asked for paths
that are pending, or the refresh is a full one, so that the snapshot that the reply reports
shows every path that was asked for as the files were when it was loaded. With this, what
callers may rely on is complete.
-/

namespace Mdbase.Watch

variable {debounce : Nat} {state after : WatchState}

namespace Snapshot

/-- The snapshot shows a path as the files have it. -/
def Shows (snapshot : Snapshot) (contents : Contents) (path : String) : Prop :=
  match contents.loadRecord path with
  | .parsed => path ∈ snapshot.records ∧ path ∉ snapshot.invalidRecords
  | .invalid => path ∈ snapshot.invalidRecords
  | .absent => path ∉ snapshot.records ∧ path ∉ snapshot.invalidRecords

/-- The snapshot shows the paths that were asked for, or all paths, as the files had them. -/
def Covers (snapshot : Snapshot) (contents : Option Contents) (scope : Option (List String)) :
    Prop :=
  ∀ path, (∀ paths, scope = some paths → path ∈ paths) →
    ∃ found, contents = some found ∧ snapshot.Shows found path

/-- A full load shows every path. -/
theorem shows_load (previous : Snapshot) (contents : Contents) (path : String) :
    (retainClassifiedInvalid ⟨contents.invalid, contents.parsed⟩ previous).Shows contents path := by
  unfold Shows Contents.loadRecord retainClassifiedInvalid
  by_cases parsed : path ∈ contents.parsed
  · have valid := Finset.disjoint_left.mp contents.apart parsed
    rw [if_pos parsed]
    exact ⟨Finset.mem_union_left _ parsed, valid⟩
  · rw [if_neg parsed]
    by_cases invalid : path ∈ contents.invalid
    · rw [if_pos invalid]
      exact invalid
    · rw [if_neg invalid]
      refine ⟨fun member => ?_, invalid⟩
      rcases Finset.mem_union.mp member with here | kept
      · exact parsed here
      · exact invalid (Finset.mem_inter.mp kept).1

/-- A refresh of some paths shows them. -/
theorem shows_refreshPaths {snapshot next : Snapshot} {contents : Option Contents}
    {paths : Finset String} {path : String} (member : path ∈ paths)
    (refreshed : snapshot.refreshPaths contents paths = some next) :
    ∃ found, contents = some found ∧ next.Shows found path := by
  unfold refreshPaths at refreshed
  rw [if_neg (Finset.ne_empty_of_mem member)] at refreshed
  obtain ⟨found, rfl, rfl⟩ := Option.map_eq_some_iff.mp refreshed
  refine ⟨found, rfl, ?_⟩
  unfold Shows
  cases loaded : found.loadRecord path with
  | parsed | invalid | absent => simp [member, loaded]

end Snapshot

namespace Worker

/-- The next refresh will cover what is asked for. -/
def Plans (worker : Worker) (scope : Option (List String)) : Prop :=
  worker.fullRescan = true ∨
    ∃ paths, scope = some paths ∧ ∀ path ∈ paths, path ∈ worker.pendingPaths

variable {worker : Worker} {scope : Option (List String)}

/-- A refresh covers what it was planned for. -/
theorem Plans.covers {contents : Option Contents} {next : Snapshot} (plans : worker.Plans scope)
    (refreshed : worker.refresh contents = some next) : next.Covers contents scope := by
  intro path asked
  unfold refresh at refreshed
  split at refreshed
  next =>
    obtain ⟨loaded, read, rfl⟩ := Option.map_eq_some_iff.mp refreshed
    obtain ⟨found, rfl, rfl⟩ := Option.map_eq_some_iff.mp read
    exact ⟨found, rfl, Snapshot.shows_load _ _ _⟩
  next partly =>
    obtain ⟨paths, rfl, pending⟩ := plans.resolve_left partly
    exact Snapshot.shows_refreshPaths (pending path (asked paths rfl)) refreshed

/-- Merged paths are pending, and those that were pending remain so, unless all is refreshed. -/
theorem mergePendingPaths_pending (worker : Worker) (paths : List String) :
    (worker.mergePendingPaths paths).fullRescan = true ∨
      worker.pendingPaths ⊆ (worker.mergePendingPaths paths).pendingPaths ∧
        ∀ path ∈ paths, path ∈ (worker.mergePendingPaths paths).pendingPaths := by
  induction paths generalizing worker with
  | nil => exact .inr ⟨subset_rfl, by simp⟩
  | cons path paths ih =>
    unfold mergePendingPaths
    split
    next full => exact .inl full
    split
    next => exact .inl rfl
    rcases ih { worker with pendingPaths := insert path worker.pendingPaths } with
      full | ⟨kept, merged⟩
    · exact .inl full
    · refine .inr ⟨(Finset.subset_insert _ _).trans kept, ?_⟩
      exact List.forall_mem_cons.mpr ⟨kept (Finset.mem_insert_self _ _), merged⟩

theorem Plans.mergePendingPaths (plans : worker.Plans scope) (paths : List String) :
    (worker.mergePendingPaths paths).Plans scope := by
  rcases plans with full | ⟨asked, rfl, pending⟩
  · left
    cases paths with
    | nil => exact full
    | cons path paths => simp [Worker.mergePendingPaths, full]
  · rcases worker.mergePendingPaths_pending paths with full | ⟨kept, -⟩
    · exact .inl full
    · exact .inr ⟨asked, rfl, fun path member => kept (pending path member)⟩

theorem Plans.acceptEvent (plans : worker.Plans scope) (event : Event)
    (invalidation : Option (List String)) (now debounce : Nat) :
    (worker.acceptEvent event invalidation now debounce).Plans scope := by
  unfold Worker.acceptEvent
  split
  next => exact plans
  dsimp only
  cases invalidation with
  | none => split <;> exact .inl rfl
  | some paths => split <;> exact plans.mergePendingPaths paths

end Worker

/-- The outcome reports a loaded snapshot, which shows what was asked for. -/
structure ReconciliationOutcome.Reports (outcome : ReconciliationOutcome)
    (scope : Option (List String)) : Prop where
  invalid : outcome.invalidRecords = outcome.snapshot.invalidRecords
  removed : ∀ path ∈ outcome.removedInvalidRecords,
    path ∉ outcome.snapshot.invalidRecords ∧ path ∉ outcome.snapshot.records
  covers : outcome.snapshot.Covers outcome.load.contents scope

/-- What a request asks for: some paths, or all. -/
def WatchState.asks? (state : WatchState) (index : Nat) : Option (Option (List String)) :=
  (state.requests[index]?).bind fun request => some request.paths

theorem WatchState.asks?_finishPendingRescans (result : ReconciliationResult) (index : Nat) :
    (state.finishPendingRescans result).asks? index = state.asks? index := by
  have delivered (request : Request) :
      some (request.deliver result state.clock).paths = some request.paths := by
    unfold Request.deliver
    split <;> rfl
  unfold asks?
  rw [requests_finishPendingRescans, Library.bind_changeAll_of_same delivered]
  exact bind_releaseAll (fun _ => rfl) _

variable {scope : Option (List String)} {index : Nat}

/-- A request asks for the same as long as it is there. -/
theorem Access.asks (access : Access debounce state after) (asks : state.asks? index = some scope) :
    after.asks? index = some scope := by
  have same {later : WatchState} (equal : later.asks? index = state.asks? index) :
      later.asks? index = some scope := equal.trans asks
  cases access with
  | reserve =>
    obtain ⟨request, here, about⟩ := Option.bind_eq_some_iff.mp asks
    exact Option.bind_eq_some_iff.mpr ⟨request, Library.getElem?_append_of_some here _, about⟩
  | claim | claimLast | advance | advanceLast | cancel | enqueue =>
    exact same (WatchState.bind_modifyRequest (fun _ => by rfl) _)
  | refuse | poison | enqueueStopped | receive | disconnect | sendCancel =>
    exact same (WatchState.bind_returnRequest (fun _ => rfl) (fun _ => rfl) _)
  | @take input rest invalidation now phase next =>
    by_cases exhausted : input = .revisionExhausted
    · subst exhausted
      exact same (WatchState.asks?_finishPendingRescans _ _)
    · exact same (WatchState.bind_handle (fun _ => rfl) exhausted)
  | answer phase =>
    unfold WatchState.answer
    dsimp only
    split
    next => exact asks
    next => split <;> exact asks
  | check =>
    split
    next => exact same (WatchState.asks?_finishPendingRescans _ _)
    next => exact asks
  | abandon | complete => exact same (WatchState.asks?_finishPendingRescans _ _)
  | _ => exact asks

/-- A command in the queue carries what its request asks for. -/
def WorkerInput.Carries (state : WatchState) : WorkerInput → Prop
  | .command (.rescan pending) => ∃ scope, state.asks? pending.request = some scope
  | .command (.rescanPaths paths pending) => state.asks? pending.request = some (some paths)
  | .command (.cancelRescan _) | .command (.acknowledge ..) | .command .stop
  | .filesystem _ | .revisionExhausted => True

/-- The next refresh will cover what those who wait have asked for. -/
def WatchState.Planned (state : WatchState) (worker : Worker) : Prop :=
  ∀ pending ∈ worker.pendingRescans,
    ∃ scope, state.asks? pending.request = some scope ∧ worker.Plans scope

/-- What the worker will have read for those who wait, in each phase. -/
def WatchState.KeepsScope (state : WatchState) : Prop :=
  match state.worker.phase with
  | .loaded _ load refreshed | .settling _ load refreshed =>
    state.Planned state.worker ∧ refreshed = state.worker.refresh load.contents
  | .completing outcome =>
    ∀ pending ∈ state.worker.pendingRescans,
      ∃ scope, state.asks? pending.request = some scope ∧ outcome.Reports scope
  | .starting | .receiving | .acknowledging .. | .received | .checked | .loading .. | .stopped =>
    state.Planned state.worker

/-- Requests, commands and refreshes are about the same paths. -/
structure WatchState.Matched (state : WatchState) : Prop where
  queued : ∀ input ∈ state.inputs, input.Carries state
  keepsScope : state.KeepsScope
  answered : ∀ index outcome answeredAt, state.reply? index = some (.ok outcome, answeredAt) →
    ∃ scope, state.asks? index = some scope ∧ outcome.Reports scope

theorem WorkerInput.Carries.later {input : WorkerInput} (carries : input.Carries state)
    (access : Access debounce state after) : input.Carries after.tick := by
  cases input with
  | filesystem | revisionExhausted => trivial
  | command command =>
    cases command with
    | rescan pending =>
      obtain ⟨scope, asks⟩ := carries
      exact ⟨scope, access.asks asks⟩
    | rescanPaths paths pending => exact access.asks carries
    | cancelRescan id | acknowledge outcome index | stop => trivial

/-- Every queued input carries the scope that its request asks for. -/
theorem Access.queued (access : Access debounce state after) (matched : state.Matched) :
    ∀ input ∈ after.inputs, input.Carries after.tick := by
  intro input member
  have old (member : input ∈ state.inputs) : input.Carries after.tick :=
    (matched.queued input member).later access
  cases access with
  | poison | callbackPoison =>
    rcases WatchState.mem_inputs_poison member with queued | rfl
    · exact old queued
    · trivial
  | @enqueue index id request here phase claimed runs =>
    rcases WatchState.mem_inputs_send member with queued | rfl
    · exact old queued
    have asks : state.asks? index = some request.paths := by
      rw [WatchState.asks?, here, Option.bind_some]
    have access := @Access.enqueue debounce state index id request here phase claimed runs
    split
    next paths same => exact access.asks (asks.trans (congrArg some same))
    next same => exact ⟨none, access.asks (asks.trans (congrArg some same))⟩
  | sendCancel | sendAcknowledgement | callbackSend | askToStop =>
    rcases WatchState.mem_inputs_send member with queued | rfl
    · exact old queued
    · trivial
  | take phase next =>
    refine old ?_
    rw [next]
    exact List.mem_cons_of_mem _ (WatchState.inputs_handle member)
  | answer phase =>
    unfold WatchState.answer at member
    dsimp only at member
    split at member
    next => exact old member
    next => split at member <;> exact old member
  | check => split at member <;> exact old member
  | _ => exact old member

theorem WatchState.Planned.later {worker : Worker} (planned : state.Planned worker)
    (access : Access debounce state after) : after.tick.Planned worker := by
  intro pending member
  obtain ⟨scope, asks, plans⟩ := planned pending member
  exact ⟨scope, access.asks asks, plans⟩

theorem WatchState.Planned.of_worker {worker other : Worker} (planned : state.Planned worker)
    (waiters : ∀ pending ∈ other.pendingRescans, pending ∈ worker.pendingRescans)
    (plans : ∀ scope, worker.Plans scope → other.Plans scope) : state.Planned other := by
  intro pending member
  obtain ⟨scope, asks, planned⟩ := planned pending (waiters pending member)
  exact ⟨scope, asks, plans scope planned⟩

/-- An input of the queue leaves those who wait with a refresh that will cover what they asked
for. -/
theorem WatchState.planned_handle {input : WorkerInput} {invalidation : Option (List String)}
    {now : Nat} (planned : state.Planned state.worker) (carries : input.Carries state) :
    state.Planned (state.handle input invalidation now debounce).worker := by
  unfold handle
  dsimp only
  split
  next => exact fun _ member => absurd member List.not_mem_nil
  next pending =>
    split
    next => exact planned
    · intro other member
      rcases List.mem_append.mp member with old | new
      · obtain ⟨scope, asks, _⟩ := planned other old
        exact ⟨scope, asks, .inl rfl⟩
      · obtain ⟨scope, asks⟩ := carries
        rw [List.mem_singleton.mp new]
        exact ⟨scope, asks, .inl rfl⟩
  next paths pending =>
    split
    next => exact planned
    · let scheduled := state.worker.scheduleRelevantRefresh state.worker.isFailing now 0
      intro other member
      have waits : other ∈ state.worker.pendingRescans ++ [pending] := by
        obtain ⟨pendingPaths, fullRescan, merged⟩ := scheduled.mergePendingPaths_eq paths
        have waiters : (scheduled.mergePendingPaths paths).pendingRescans =
            state.worker.pendingRescans := by
          rw [merged]
          rfl
        exact waiters ▸ member
      rcases List.mem_append.mp waits with old | new
      · obtain ⟨scope, asks, plans⟩ := planned other old
        have before : scheduled.Plans scope := plans
        exact ⟨scope, asks, before.mergePendingPaths paths⟩
      · rw [List.mem_singleton.mp new]
        refine ⟨_, carries, ?_⟩
        rcases scheduled.mergePendingPaths_pending paths with full | ⟨-, merged⟩
        · exact .inl full
        · exact .inr ⟨paths, rfl, merged⟩
  next => exact planned.of_worker (fun _ => List.mem_of_mem_eraseP) fun _ => id
  next => exact planned
  next event =>
    refine planned.of_worker (fun pending member => ?_) fun scope plans =>
      plans.acceptEvent event invalidation now debounce
    rw [← state.worker.pendingRescans_acceptEvent event invalidation now debounce]
    exact member
  next => exact planned
  next => exact fun _ member => absurd member List.not_mem_nil

theorem WatchState.KeepsScope.planned (keeps : state.KeepsScope)
    (phase : ∀ outcome, state.worker.phase ≠ .completing outcome) :
    state.Planned state.worker := by
  unfold WatchState.KeepsScope at keeps
  split at keeps
  next => exact keeps.1
  next => exact keeps.1
  next outcome completing => exact absurd completing (phase outcome)
  all_goals exact keeps

theorem WatchState.KeepsScope.later (keeps : state.KeepsScope)
    (access : Access debounce state after) (worker : after.worker = state.worker) :
    after.tick.KeepsScope := by
  unfold WatchState.KeepsScope at keeps ⊢
  have same : after.tick.worker = state.worker := worker
  rw [same]
  split at keeps
  next => exact ⟨keeps.1.later access, keeps.2⟩
  next => exact ⟨keeps.1.later access, keeps.2⟩
  next =>
    intro pending member
    obtain ⟨scope, asks, reports⟩ := keeps pending member
    exact ⟨scope, access.asks asks, reports⟩
  all_goals exact keeps.later access

/-- A phase in which those who wait have nothing read for them yet. -/
def Phase.IsPlanning : Phase → Prop
  | .loaded .. | .settling .. | .completing _ => False
  | .starting | .receiving | .acknowledging .. | .received | .checked | .loading .. | .stopped => True

theorem WatchState.Planned.keepsScope (planned : state.Planned state.worker)
    (planning : state.worker.phase.IsPlanning) : state.KeepsScope := by
  unfold WatchState.KeepsScope
  unfold Phase.IsPlanning at planning
  split at planning
  next => exact planning.elim
  next => exact planning.elim
  next => exact planning.elim
  all_goals simp_all

theorem WatchState.isPlanning_handle {input : WorkerInput} {invalidation : Option (List String)}
    {now : Nat} : (state.handle input invalidation now debounce).worker.phase.IsPlanning := by
  unfold handle
  dsimp only
  split
  next => trivial
  next => split <;> trivial
  next => split <;> trivial
  all_goals trivial

theorem Access.keepsScope (access : Access debounce state after) (matched : state.Matched) :
    after.tick.KeepsScope := by
  have keeps := matched.keepsScope
  have rephased {worker : Worker} (planned : state.Planned worker) (phase : Phase) :
      after.tick.Planned { worker with phase := phase } := planned.later access
  have dropped {worker : Worker} (none_ : worker.pendingRescans = []) :
      after.tick.Planned worker := fun pending member =>
    absurd (none_ ▸ member) List.not_mem_nil
  have planned (idle : ∀ outcome, state.worker.phase ≠ .completing outcome) :=
    keeps.planned idle
  have others (same : after.worker = state.worker) : after.tick.KeepsScope :=
    keeps.later access same
  cases access with
  | start phase =>
    have before := planned (by simp [phase])
    refine WatchState.Planned.keepsScope ?_ trivial
    refine WatchState.Planned.later ?_ (.start phase)
    exact before.of_worker (fun _ => id) fun _ _ => .inl rfl
  | @take input rest invalidation now phase next =>
    have carries := matched.queued input (next ▸ List.mem_cons_self)
    have before := planned (by simp [phase])
    have handled := @WatchState.planned_handle debounce { state with inputs := rest } input
      invalidation now before
    refine WatchState.Planned.keepsScope ?_ WatchState.isPlanning_handle
    refine WatchState.Planned.later ?_ (.take phase next)
    cases input with
    | filesystem | revisionExhausted => exact handled trivial
    | command command =>
      cases command with
      | rescan | rescanPaths => exact handled carries
      | cancelRescan | acknowledge | stop => exact handled trivial
  | timeout phase | notDue phase =>
    exact WatchState.Planned.keepsScope (rephased (planned (by simp [phase])) _) trivial
  | due phase scheduled reached =>
    have access := @Access.due debounce state _ _ phase scheduled reached
    have before := (planned (by simp [phase])).later access
    exact WatchState.Planned.keepsScope (before.of_worker (fun _ => id) fun _ => id) trivial
  | @answer outcome index preliminarilyCurrent phase =>
    have before := planned (by simp [phase])
    have access := @Access.answer debounce state outcome index preliminarilyCurrent phase
    refine WatchState.Planned.keepsScope (WatchState.Planned.later ?_ access) ?_
    · unfold WatchState.answer
      dsimp only
      split
      next => exact before
      next => split <;> exact before
    · trivial
  | check phase =>
    refine WatchState.Planned.keepsScope ?_ trivial
    by_cases exhausted : state.isExhausted = true
    · refine dropped ?_
      rw [if_pos exhausted]
      rfl
    · have before := rephased (planned (by simp [phase])) .checked
      rw [if_neg exhausted] at before ⊢
      exact before
  | @load refreshRevision began contents phase =>
    have before := planned (by simp [phase])
    exact ⟨rephased before (.loaded refreshRevision ⟨began, state.clock, contents⟩
      (state.worker.refresh contents)), rfl⟩
  | abandon => exact WatchState.Planned.keepsScope (dropped rfl) trivial
  | @proceed refreshRevision load refreshed phase open_ =>
    rw [WatchState.KeepsScope, phase] at keeps
    exact ⟨rephased keeps.1 (.settling refreshRevision load refreshed), keeps.2⟩
  | @settle refreshRevision now load refreshed phase =>
    rw [WatchState.KeepsScope, phase] at keeps
    have access := @Access.settle debounce state refreshRevision now load refreshed phase
    have later (pending : PendingRescan) (scope : Option (List String)) :=
      @Access.asks debounce state _ scope pending.request access
    obtain ⟨before, read⟩ := keeps
    unfold WatchState.settle
    dsimp only
    cases refreshed with
    | none =>
      intro pending member
      obtain ⟨scope, asks, plans⟩ := before pending member
      exact ⟨scope, later pending scope asks, plans⟩
    | some next =>
      dsimp only
      split
      next same =>
        intro pending member
        obtain ⟨scope, asks, plans⟩ := before pending member
        refine ⟨scope, later pending scope asks, rfl, ?_, plans.covers read.symm⟩
        intro path removed
        have gone := (Finset.mem_sdiff.mp removed).2
        exact ⟨fun member => gone (Finset.mem_union_left _ member),
          fun member => gone (Finset.mem_union_right _ member)⟩
      next =>
        intro pending member
        obtain ⟨scope, asks, _⟩ := before pending member
        exact ⟨scope, later pending scope asks, .inl rfl⟩
  | complete => exact WatchState.Planned.keepsScope (dropped rfl) trivial
  | _ => exact others rfl

theorem Access.matched (access : Access debounce state after) (matched : state.Matched) :
    after.tick.Matched where
  queued := access.queued matched
  keepsScope := access.keepsScope matched
  answered := by
    intro index outcome answeredAt replied
    rcases access.reply replied with
      old | ⟨failure, at_, failed⟩ | ⟨completed, phase, open_, new, pending, waits, same⟩
    · obtain ⟨scope, asks, reports⟩ := matched.answered index outcome answeredAt old
      exact ⟨scope, access.asks asks, reports⟩
    · cases failed
    · cases new
      have keeps := matched.keepsScope
      rw [WatchState.KeepsScope, phase] at keeps
      obtain ⟨scope, asks, reports⟩ := keeps pending waits
      exact ⟨scope, access.asks (same ▸ asks), reports⟩

theorem Reachable.matched {snapshot : Snapshot} (reachable : Reachable debounce snapshot state) :
    state.Matched := by
  induction reachable with
  | initial => exact ⟨nofun, nofun, nofun⟩
  | step prior next ih =>
    obtain ⟨access⟩ := next
    exact access.matched ih

/-- What callers may rely on in a state. -/
structure WatchState.Sound (state : WatchState) : Prop where
  /-- A rescan that succeeds reports a load that began after the request was sent, and nothing
  was invalidated while it ran. -/
  fresh : ∀ request ∈ state.requests, ∀ outcome answeredAt,
    request.reply = some (.ok outcome, answeredAt) →
      (∃ sentAt, request.enqueuedAt = some sentAt ∧ sentAt < outcome.load.began) ∧
        outcome.load.began < outcome.load.ended ∧
          ∀ at_ ∈ state.advances, outcome.load.began ≤ at_ → outcome.load.ended < at_
  /-- It reports the snapshot that was loaded, which shows what was asked for as the files
  were. -/
  reports : ∀ request ∈ state.requests, ∀ outcome answeredAt,
    request.reply = some (.ok outcome, answeredAt) → outcome.Reports request.paths
  /-- Nothing was invalidated between an observation and its acknowledgement. -/
  acknowledged : ∀ acknowledgement ∈ state.acknowledgements, ∀ answeredAt,
    acknowledgement.reply = some (.ok true, answeredAt) →
      ∀ at_ ∈ state.advances, acknowledgement.outcome.load.began ≤ at_ → answeredAt < at_
  /-- Nothing succeeds once the epoch is exhausted. -/
  exhausted : ∀ exhaustedAt, state.exhaustedAt = some exhaustedAt →
    (∀ request ∈ state.requests, ∀ outcome answeredAt,
        request.reply = some (.ok outcome, answeredAt) → answeredAt < exhaustedAt) ∧
      ∀ acknowledgement ∈ state.acknowledgements, ∀ current answeredAt,
        acknowledgement.reply = some (.ok current, answeredAt) → answeredAt < exhaustedAt
  /-- Pending work has a deadline, unless it is being served or the epoch is exhausted. -/
  scheduled : state.worker.isIdle = true → state.worker.HasWork →
    state.worker.deadline.isSome = true ∨ state.isExhausted = true
  counted : state.pendingRescans = unreleased state.requests
  bounded : state.pendingRescans ≤ maxPendingRescans
  /-- A caller that was answered has its ticket released. -/
  completed : ∀ request ∈ state.requests, request.reply.isSome = true →
    request.ticket.released = true
  /-- So has a caller that has returned, or the worker will read that it has to. -/
  cancelled : ∀ index request, state.requests[index]? = some request →
    request.phase = .returned → request.ticket.released = true ∨
      ∃ input ∈ state.inputs, input.Releases index request
  drained : (∀ request ∈ state.requests, request.phase = .returned) → state.inputs = [] →
    state.pendingRescans = 0

/-- Requests are answered with fresh state and never leak, in any interleaving. -/
theorem sound_of_reachable {snapshot : Snapshot} (reachable : Reachable debounce snapshot state) :
    state.Sound := by
  have fresh := reachable.fresh
  have kept := reachable.kept
  have matched := reachable.matched
  have answered {request : Request} (member : request ∈ state.requests)
      {outcome : ReconciliationOutcome} {answeredAt : Nat}
      (replied : request.reply = some (.ok outcome, answeredAt)) :
      ∃ index, state.sentAt? index = request.enqueuedAt ∧
        state.Answered index outcome answeredAt := by
    obtain ⟨index, here⟩ := List.mem_iff_getElem?.mp member
    refine ⟨index, ?_, fresh.answered index outcome answeredAt ?_⟩
    · rw [WatchState.sentAt?, here, Option.bind_some]
    · rw [WatchState.reply?, here, Option.bind_some, replied]
  have current {acknowledgement : Acknowledgement}
      (member : acknowledgement ∈ state.acknowledgements) : acknowledgement.Current state := by
    obtain ⟨index, here⟩ := List.mem_iff_getElem?.mp member
    exact fresh.current index acknowledgement here
  constructor
  case fresh =>
    intro request member outcome answeredAt replied
    obtain ⟨index, same, answered⟩ := answered member replied
    obtain ⟨sentAt, sent, before⟩ := answered.sent
    exact ⟨⟨sentAt, same ▸ sent, before⟩, answered.observed.ordered, answered.observed.quiet⟩
  case reports =>
    intro request member outcome answeredAt replied
    obtain ⟨index, here⟩ := List.mem_iff_getElem?.mp member
    obtain ⟨scope, asks, reports⟩ := matched.answered index outcome answeredAt
      (by rw [WatchState.reply?, here, Option.bind_some, replied])
    rw [WatchState.asks?, here] at asks
    exact Option.some.inj asks ▸ reports
  case acknowledged => exact fun acknowledgement member => (current member).unchanged
  case exhausted =>
    refine fun exhaustedAt exhausted => ⟨?_, ?_⟩
    · intro request member outcome answeredAt replied
      obtain ⟨index, -, answered⟩ := answered member replied
      exact answered.open_ exhaustedAt exhausted
    · exact fun acknowledgement member result answeredAt replied =>
        (current member).open_ result answeredAt replied exhaustedAt exhausted
  case scheduled =>
    intro idle work
    cases exhausted : state.isExhausted with
    | true => exact .inr rfl
    | false => exact .inl (((reachable.keepsSchedule.2 exhausted).scheduled idle).work work)
  case counted => exact kept.counted
  case bounded => exact kept.bounded
  case completed =>
    intro request member
    obtain ⟨index, here⟩ := List.mem_iff_getElem?.mp member
    exact kept.replied index request here
  case cancelled => exact fun index request here returned => kept.released_or_queued here returned
  case drained => exact kept.pendingRescans_eq_zero

/-- A rescan that is requested, served by a full refresh and returned. -/
theorem sound_after_rescan : ∃ state request outcome,
    Reachable 0 ⟨∅, {"note.md"}⟩ state ∧ state.requests = [request] ∧
      request.phase = .returned ∧ request.reply = some (.ok outcome, 11) ∧
        outcome.invalidRecords = {"note.md"} ∧ state.Sound := by
  have started : Reachable 0 ⟨∅, {"note.md"}⟩ _ :=
    .step .initial (.mk (@Access.start _ _ (some ⟨{"note.md"}, ∅, by simp⟩) 0 rfl))
  have reserved := Reachable.step started (.mk (@Access.reserve _ _ none (by decide)))
  have claimed := Reachable.step reserved (.mk (@Access.claim _ _ 0 _ rfl rfl rfl (by decide)))
  have advanced := Reachable.step claimed (.mk (@Access.advance _ _ 0 _ rfl rfl rfl (by decide)))
  have sent := Reachable.step advanced (.mk (@Access.enqueue _ _ 0 1 _ rfl rfl rfl rfl))
  have taken := Reachable.step sent (.mk (@Access.take _ _ _ [] none 0 rfl rfl))
  have checked := Reachable.step taken (.mk (.check rfl))
  have due := Reachable.step checked (.mk (@Access.due _ _ 0 0 rfl rfl (Nat.le_refl _)))
  have loaded := Reachable.step due (.mk (@Access.load _ _ _ _ (some ⟨∅, {"note.md"}, by simp⟩) rfl))
  have proceeded := Reachable.step loaded (.mk (.proceed rfl rfl))
  have settled := Reachable.step proceeded (.mk (@Access.settle _ _ _ 0 _ _ rfl))
  have completed := Reachable.step settled (.mk (.complete rfl))
  have returned := Reachable.step completed (.mk (@Access.receive _ _ 0 _ rfl rfl rfl))
  exact ⟨_, _, _, returned, rfl, rfl, rfl, rfl, sound_of_reachable returned⟩

end Mdbase.Watch
