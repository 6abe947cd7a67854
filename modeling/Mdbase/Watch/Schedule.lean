import Mdbase.Watch.Reconciliation

/-!
# Pending work has a deadline

While the epoch is not exhausted, a worker that has something to refresh, or a caller that
waits for it, has a deadline for the refresh or is in the middle of one. A worker whose
refreshes fail has one too, which is why an event without paths may leave it alone.
-/

namespace Mdbase.Watch

namespace Worker

@[simp] theorem isSome_scheduleRelevantRefresh (worker : Worker) (refreshIsFailing : Bool)
    (now debounce : Nat) :
    (worker.scheduleRelevantRefresh refreshIsFailing now debounce).deadline.isSome := by
  unfold scheduleRelevantRefresh
  cases refreshIsFailing with
  | false => rfl
  | true => cases worker.deadline <;> rfl

theorem mergePendingPaths_eq (worker : Worker) (paths : List String) :
    ∃ pendingPaths fullRescan, worker.mergePendingPaths paths =
      { worker with pendingPaths := pendingPaths, fullRescan := fullRescan } := by
  induction paths generalizing worker with
  | nil => exact ⟨_, _, rfl⟩
  | cons path paths ih =>
    unfold mergePendingPaths
    split
    next => exact ⟨_, _, rfl⟩
    split
    next => exact ⟨_, _, rfl⟩
    next => exact ih { worker with pendingPaths := insert path worker.pendingPaths }

@[simp] theorem isSome_acceptRescan (worker : Worker) (pending : PendingRescan) (now : Nat) :
    (worker.acceptRescan pending now).deadline.isSome :=
  isSome_scheduleRelevantRefresh worker worker.isFailing now 0

@[simp] theorem isSome_acceptRescanPaths (worker : Worker) (paths : List String)
    (pending : PendingRescan) (now : Nat) :
    (worker.acceptRescanPaths paths pending now).deadline.isSome := by
  obtain ⟨pendingPaths, fullRescan, merged⟩ :=
    (worker.scheduleRelevantRefresh worker.isFailing now 0).mergePendingPaths_eq paths
  simp [acceptRescanPaths, merged]

/-- An event is ignored, or the refresh that it asks for is scheduled, unless one is
scheduled already because refreshes fail. -/
theorem acceptEvent_cases (worker : Worker) (event : Event)
    (invalidation : Option (List String)) (now debounce : Nat) :
    worker.acceptEvent event invalidation now debounce = worker ∨
      (worker.acceptEvent event invalidation now debounce).deadline.isSome ∨
        (worker.isFailing = true ∧
          (worker.acceptEvent event invalidation now debounce).deadline = worker.deadline) := by
  unfold acceptEvent
  split
  next => exact .inl rfl
  right
  dsimp only
  split
  next failing =>
    right
    rw [Bool.and_eq_true] at failing
    refine ⟨failing.2, ?_⟩
    cases invalidation with
    | none => rfl
    | some paths =>
      obtain ⟨pendingPaths, fullRescan, merged⟩ := worker.mergePendingPaths_eq paths
      simp [merged]
  next => exact .inl (isSome_scheduleRelevantRefresh _ _ _ _)

theorem pendingRescans_acceptEvent (worker : Worker) (event : Event)
    (invalidation : Option (List String)) (now debounce : Nat) :
    (worker.acceptEvent event invalidation now debounce).pendingRescans =
      worker.pendingRescans := by
  unfold acceptEvent
  split
  next => rfl
  dsimp only
  cases invalidation with
  | none => split <;> rfl
  | some paths =>
    obtain ⟨pendingPaths, fullRescan, merged⟩ := worker.mergePendingPaths_eq paths
    split <;> simp [merged, scheduleRelevantRefresh]

/-- Work and failing refreshes have a deadline. -/
structure Scheduled (worker : Worker) : Prop where
  work : worker.HasWork → worker.deadline.isSome
  failing : worker.isFailing = true → worker.deadline.isSome

theorem Scheduled.of_isSome {worker : Worker} (scheduled : worker.deadline.isSome) :
    worker.Scheduled :=
  ⟨fun _ => scheduled, fun _ => scheduled⟩

theorem Scheduled.acceptEvent {worker : Worker} (scheduled : worker.Scheduled) (event : Event)
    (invalidation : Option (List String)) (now debounce : Nat) :
    (worker.acceptEvent event invalidation now debounce).Scheduled := by
  rcases worker.acceptEvent_cases event invalidation now debounce with
    same | later | ⟨failing, same⟩
  · rwa [same]
  · exact .of_isSome later
  · exact .of_isSome (same ▸ scheduled.failing failing)

theorem Scheduled.of_fewer {worker fewer : Worker} (scheduled : worker.Scheduled)
    (waiting : fewer.pendingRescans ≠ [] → worker.pendingRescans ≠ [])
    (paths : fewer.pendingPaths = worker.pendingPaths) (full : fewer.fullRescan = worker.fullRescan)
    (deadline : fewer.deadline = worker.deadline)
    (diagnostic : fewer.lastRefreshDiagnostic = worker.lastRefreshDiagnostic) :
    fewer.Scheduled where
  work := by
    intro work
    rw [deadline]
    refine scheduled.work ?_
    rcases work with work | work | work
    · exact .inl (waiting work)
    · exact .inr (.inl (paths ▸ work))
    · exact .inr (.inr (full ▸ work))
  failing := by
    intro failing
    rw [deadline]
    exact scheduled.failing (by rwa [isFailing, ← diagnostic])

/-- The work of a refresh that was taken over is done. -/
def IsServed (worker : Worker) : Prop :=
  worker.pendingPaths = ∅ ∧ worker.fullRescan = false ∧ worker.lastRefreshDiagnostic = none

/-- What holds of the schedule in each phase. -/
def KeepsSchedule (worker : Worker) : Prop :=
  match worker.phase with
  | .loading .. | .loaded .. | .settling .. => True
  | .completing _ => worker.IsServed
  | .starting | .receiving | .acknowledging .. | .received | .checked | .stopped => worker.Scheduled

theorem KeepsSchedule.scheduled {worker : Worker} (keeps : worker.KeepsSchedule)
    (idle : worker.isIdle = true) : worker.Scheduled := by
  cases phase : worker.phase with
  | loading | loaded | settling | completing =>
    rw [isIdle, phase] at idle
    cases idle
  | starting | receiving | acknowledging | received | checked | stopped =>
    rw [KeepsSchedule, phase] at keeps
    exact keeps

end Worker

variable {debounce : Nat} {state after : WatchState}

/-- Work is dropped for an exhausted epoch only. -/
def WatchState.Announces (state : WatchState) : Prop :=
  .revisionExhausted ∈ state.inputs → state.isExhausted = true

variable {input other : WorkerInput}

theorem WatchState.mem_inputs_send
    (member : other ∈ (state.send input).inputs) : other ∈ state.inputs ∨ other = input := by
  unfold WatchState.send at member
  dsimp only at member
  split at member
  next => exact .inl member
  next => exact (List.mem_append.mp member).imp_right List.mem_singleton.mp

theorem WatchState.mem_inputs_poison {other : WorkerInput} (member : other ∈ state.poison.inputs) :
    other ∈ state.inputs ∨ other = .revisionExhausted := by
  unfold WatchState.poison at member
  dsimp only at member
  split at member
  next => exact .inl member
  next => exact (List.mem_append.mp member).imp_right List.mem_singleton.mp

theorem WatchState.Announces.send (announces : state.Announces) {input : WorkerInput}
    (other : input ≠ .revisionExhausted) : (state.send input).Announces :=
  fun member => announces ((mem_inputs_send member).resolve_right other.symm)

variable {invalidation : Option (List String)}

theorem WatchState.inputs_handle {now : Nat}
    (member : other ∈ (state.handle input invalidation now debounce).inputs) :
    other ∈ state.inputs := by
  unfold handle at member
  dsimp only at member
  split at member
  next => cases member
  next => split at member <;> exact member
  next => split at member <;> exact member
  all_goals exact member

theorem WatchState.exhaustedAt_handle {input : WorkerInput} {now : Nat} :
    (state.handle input invalidation now debounce).exhaustedAt = state.exhaustedAt := by
  unfold handle
  dsimp only
  split
  next => rfl
  next => split <;> rfl
  next => split <;> rfl
  all_goals rfl

theorem WatchState.exhaustedAt_answer {outcome : ReconciliationOutcome} {index : Nat}
    {preliminarilyCurrent : Bool} :
    ((state.answer outcome index preliminarilyCurrent).setPhase .received).isExhausted =
      state.isExhausted := by
  unfold answer
  dsimp only
  split
  next => rfl
  next => split <;> rfl

theorem Access.announces (access : Access debounce state after) (announces : state.Announces) :
    after.Announces := by
  cases access with
  | reserve | claim | claimLast | advance | advanceLast | refuse => exact announces
  | poison => exact fun _ => rfl
  | @enqueue index id request =>
    cases request.paths with
    | none | some paths => exact announces.send nofun
  | enqueueStopped | receive | disconnect | cancel => exact announces
  | sendCancel => exact announces.send nofun
  | acknowledge => exact announces
  | sendAcknowledgement => exact announces.send nofun
  | expireAcknowledgement | enter | callbackAdvance | callbackAdvanceLast => exact announces
  | callbackPoison => exact fun _ => rfl
  | callbackSend | askToStop => exact announces.send nofun
  | start => exact announces
  | take phase next =>
    intro member
    unfold WatchState.isExhausted
    rw [WatchState.exhaustedAt_handle]
    refine announces ?_
    rw [next]
    exact List.mem_cons_of_mem _ (WatchState.inputs_handle member)
  | timeout => exact announces
  | answer phase =>
    unfold WatchState.answer
    dsimp only
    split
    next => exact announces
    next => split <;> exact announces
  | check =>
    split
    next => exact announces
    next => exact announces
  | notDue | due | load | abandon | proceed | settle | complete => exact announces

theorem WatchState.scheduled_handle {input : WorkerInput}
    {now : Nat} (scheduled : state.worker.Scheduled) (open_ : input ≠ .revisionExhausted) :
    (state.handle input invalidation now debounce).worker.KeepsSchedule := by
  have fewer (pending : List PendingRescan) (phase : Phase)
      (waiting : pending ≠ [] → state.worker.pendingRescans ≠ []) :
      ({ state.worker with pendingRescans := pending, phase := phase }).Scheduled :=
    scheduled.of_fewer waiting rfl rfl rfl rfl
  unfold handle
  dsimp only
  split
  next => exact fewer [] .stopped (absurd rfl)
  next pending =>
    split
    next => exact fewer state.worker.pendingRescans .received id
    next => exact Worker.Scheduled.of_isSome (state.worker.isSome_acceptRescan pending now)
  next paths pending =>
    split
    next => exact fewer state.worker.pendingRescans .received id
    exact Worker.Scheduled.of_isSome (state.worker.isSome_acceptRescanPaths paths pending now)
  next id =>
    refine fewer (state.worker.pendingRescans.eraseP fun pending => pending.id = id) .received ?_
    rintro some none
    rw [none] at some
    exact some rfl
  next => exact fewer state.worker.pendingRescans _ id
  next event =>
    exact (scheduled.acceptEvent event invalidation now debounce).of_fewer id rfl rfl rfl rfl
  next => exact fewer state.worker.pendingRescans .received id
  next => exact absurd rfl open_

theorem Access.keepsSchedule (access : Access debounce state after) (announces : state.Announces)
    (keeps : state.isExhausted = false → state.worker.KeepsSchedule)
    (open_ : after.isExhausted = false) : after.worker.KeepsSchedule := by
  have rephased {worker : Worker} (scheduled : worker.Scheduled) (phase : Phase) :
      ({ worker with phase := phase }).Scheduled :=
    scheduled.of_fewer id rfl rfl rfl rfl
  cases access with
  | reserve | claim | claimLast | advance | advanceLast | refuse => exact keeps open_
  | poison => cases open_
  | enqueue | enqueueStopped | receive | disconnect | cancel | sendCancel | acknowledge
  | sendAcknowledgement | expireAcknowledgement | enter | callbackAdvance
  | callbackAdvanceLast => exact keeps open_
  | callbackPoison => cases open_
  | callbackSend | askToStop => exact keeps open_
  | start phase => exact Worker.Scheduled.of_isSome rfl
  | @take input rest invalidation now phase next =>
    unfold WatchState.isExhausted at open_
    rw [WatchState.exhaustedAt_handle] at open_
    have scheduled := keeps open_
    rw [Worker.KeepsSchedule, phase] at scheduled
    refine WatchState.scheduled_handle scheduled ?_
    rintro rfl
    have exhausted := announces (next ▸ List.mem_cons_self)
    rw [WatchState.isExhausted] at exhausted
    exact absurd exhausted (Bool.eq_false_iff.mp open_)
  | timeout phase =>
    have scheduled := keeps open_
    rw [Worker.KeepsSchedule, phase] at scheduled
    exact rephased scheduled .received
  | @answer outcome index preliminarilyCurrent phase =>
    have scheduled := keeps (WatchState.exhaustedAt_answer ▸ open_)
    rw [Worker.KeepsSchedule, phase] at scheduled
    unfold WatchState.answer
    dsimp only
    split
    next => exact scheduled.of_fewer id rfl rfl rfl rfl
    next => split <;> exact rephased scheduled .received
  | check phase =>
    split
    next exhausted =>
      rw [if_pos exhausted] at open_
      exact Bool.noConfusion (exhausted.symm.trans open_)
    rename_i alive
    rw [if_neg alive] at open_
    have scheduled := keeps open_
    rw [Worker.KeepsSchedule, phase] at scheduled
    exact rephased scheduled .checked
  | notDue phase later =>
    have scheduled := keeps open_
    rw [Worker.KeepsSchedule, phase] at scheduled
    exact rephased scheduled .receiving
  | due phase scheduled reached | load phase => trivial
  | abandon phase exhausted => exact Bool.noConfusion (exhausted.symm.trans open_)
  | proceed phase open_ => trivial
  | @settle refreshRevision now load refreshed phase =>
    unfold WatchState.settle
    dsimp only
    cases refreshed with
    | none => exact Worker.Scheduled.of_isSome rfl
    | some next =>
      dsimp only
      split
      next => exact ⟨rfl, rfl, rfl⟩
      next => exact Worker.Scheduled.of_isSome rfl
  | @complete outcome phase =>
    have served := keeps open_
    rw [Worker.KeepsSchedule, phase] at served
    obtain ⟨paths, full, diagnostic⟩ := served
    refine ⟨?_, ?_⟩
    · rintro (work | work | work)
      · exact absurd rfl work
      · exact absurd paths work
      · exact Bool.noConfusion (full.symm.trans work)
    · intro failing
      exact Bool.noConfusion ((congrArg Option.isSome diagnostic).symm.trans failing)

/-- In every state, work has a deadline or is in the middle of a refresh, unless the epoch is
exhausted. -/
theorem Reachable.keepsSchedule {snapshot : Snapshot}
    (reachable : Reachable debounce snapshot state) :
    state.Announces ∧ (state.isExhausted = false → state.worker.KeepsSchedule) := by
  induction reachable with
  | initial =>
    refine ⟨nofun, fun _ => ⟨?_, nofun⟩⟩
    rintro (work | work | work)
    · exact absurd rfl work
    · exact absurd rfl work
    · cases work
  | step prior next ih =>
    obtain ⟨access⟩ := next
    exact ⟨access.announces ih.1, access.keepsSchedule ih.1 ih.2⟩

end Mdbase.Watch
