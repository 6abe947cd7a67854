import Mdbase.Library.Fallible
import Mdbase.Runtime.TimerFleet

/-!
# Timers under a prefix

A reconciliation makes the timers under a prefix those that are desired: a timer that already
carries its desired schedule stays, any other desired timer gets a new generation, and what is
active and not desired is withdrawn. It plans everything before it changes anything, so it fails
without a change when a generation counter is exhausted.
-/

namespace Mdbase.Runtime

open Library Memory

/-- `TimerRequest`. -/
structure TimerRequest where
  id : String
  fireAt : DateTime
  contract : ExactContractReference
  source : ImplementationIdentity
  sourceUri : String
  subject : Option String
  data : Value

/-- `timer_record`. -/
def timerRecord (request : TimerRequest) (now : DateTime) : TimerRecord where
  id := request.id
  generation := 0
  status := .scheduled
  fireAt := request.fireAt
  eventContract := request.contract
  eventSource := request.source
  sourceUri := request.sourceUri
  subject := request.subject
  data := request.data
  createdAt := now
  updatedAt := now
  firedAt := none

/-- The loop of `Runtime::reconcile_timers` over the requested timers. -/
def desiredTimers (idPrefix : String) (now : DateTime) :
    List TimerRequest → List TimerRecord → Except RuntimeError (List TimerRecord)
  | [], desired => .ok desired
  | timer :: rest, desired =>
    if !idPrefix.toList.isPrefixOf timer.id.toList then
      .error (.diagnostic "timer_outside_reconciliation_prefix"
        ("Timer " ++ timer.id ++ " is outside reconciliation prefix " ++ idPrefix ++ "."))
    else if timer.id ∈ desired.map TimerRecord.id then
      .error (.diagnostic "duplicate_timer_id"
        ("Timer " ++ timer.id ++ " appears more than once."))
    else desiredTimers idPrefix now rest (desired ++ [timerRecord timer now])

/-- `Runtime::reconcile_timers`. -/
def requestTimers (state : MemoryState) (idPrefix : String) (timers : List TimerRequest)
    (now : DateTime) : MemoryState × Except RuntimeError TimerReconcileOutcome :=
  if idPrefix = "" then
    (state, .error (.diagnostic "invalid_timer_prefix"
      "Timer reconciliation requires a non-empty ID prefix."))
  else
    match desiredTimers idPrefix now timers [] with
    | .error error => (state, .error error)
    | .ok desired => reconcileTimers state idPrefix desired now

variable {now : DateTime} {requests : List TimerRequest}

theorem desiredTimers_ok {idPrefix : String} {before desired : List TimerRecord}
    (accepted : desiredTimers idPrefix now requests before = .ok desired)
    (distinct : (before.map TimerRecord.id).Nodup)
    (under : ∀ timer ∈ before, idPrefix.toList.isPrefixOf timer.id.toList = true) :
    (desired.map TimerRecord.id).Nodup ∧
      ∀ timer ∈ desired, idPrefix.toList.isPrefixOf timer.id.toList = true := by
  induction requests generalizing before with
  | nil =>
    cases accepted
    exact ⟨distinct, under⟩
  | cons timer rest ih =>
    rw [desiredTimers] at accepted
    split at accepted
    next => cases accepted
    rename_i inside
    split at accepted
    next => cases accepted
    rename_i fresh
    refine ih accepted ?_ ?_
    · rw [List.map_append, List.nodup_append]
      refine ⟨distinct, List.nodup_singleton _, ?_⟩
      rintro id known other last rfl
      rw [List.map_singleton, List.mem_singleton] at last
      rw [last] at known
      exact fresh known
    · intro other member
      rcases List.mem_append.mp member with known | last
      · exact under other known
      · rw [List.mem_singleton] at last
        rw [last]
        exact Bool.not_eq_false _ ▸ (Bool.not_eq_true' _ ▸ inside)

/-- A stored timer carries the desired schedule. -/
structure TimerRecord.Carries (stored desired : TimerRecord) : Prop where
  id : stored.id = desired.id
  fireAt : stored.fireAt = desired.fireAt
  eventContract : stored.eventContract = desired.eventContract
  eventSource : stored.eventSource = desired.eventSource
  sourceUri : stored.sourceUri = desired.sourceUri
  subject : stored.subject = desired.subject
  data : stored.data = desired.data

/-- A desired timer is stored already, and not cancelled. -/
def isKept (current : Option TimerRecord) (desired : TimerRecord) : Bool :=
  current.any fun current => timerMatches current desired

/-- The next generation of a timer. -/
def TimerRecord.renewed (desired : TimerRecord) (current : Option TimerRecord) (now : DateTime) :
    TimerRecord :=
  { desired with
    generation := (current.map TimerRecord.generation).getD 0 + 1
    createdAt := (current.map TimerRecord.createdAt).getD desired.createdAt
    status := .scheduled
    updatedAt := now
    firedAt := none }

/-- The record that a desired timer leads to. -/
def TimerRecord.reconciled (desired : TimerRecord) (current : Option TimerRecord)
    (now : DateTime) : TimerRecord :=
  if isKept current desired then current.getD desired else desired.renewed current now

/-- The generation counter of a timer that has to be renewed is exhausted. -/
def isExhausted (state : MemoryState) (desired : TimerRecord) : Bool :=
  !isKept (state.timers.get? desired.id) desired &&
    timerGenerationMax ≤ generationOf state desired.id

theorem nextTimerGeneration_eq (current : Option TimerRecord) (desired : TimerRecord)
    (now : DateTime) :
    nextTimerGeneration current desired now =
      if timerGenerationMax ≤ (current.map TimerRecord.generation).getD 0 then
        .error (.diagnostic "timer_generation_exhausted"
          ("Timer " ++ desired.id ++ " exhausted its generation counter."))
      else .ok (desired.renewed current now) := by
  rw [nextTimerGeneration, nextTimerGenerationValue]
  by_cases exhausted : timerGenerationMax ≤ (current.map TimerRecord.generation).getD 0
  · rw [if_pos exhausted, if_pos exhausted]
  · rw [if_neg exhausted, if_neg exhausted]
    rfl

theorem planTimer_eq (state : MemoryState) (now : DateTime) (desired : TimerRecord) :
    planTimer state now desired =
      if isExhausted state desired then
        .error (.diagnostic "timer_generation_exhausted"
          ("Timer " ++ desired.id ++ " exhausted its generation counter."))
      else .ok (desired.reconciled (state.timers.get? desired.id) now,
        !isKept (state.timers.get? desired.id) desired) := by
  have renews (current : Option TimerRecord) (here : state.timers.get? desired.id = current)
      (free : isKept current desired = false) :
      (nextTimerGeneration current desired now).map (·, true) =
        if isExhausted state desired then
          .error (.diagnostic "timer_generation_exhausted"
            ("Timer " ++ desired.id ++ " exhausted its generation counter."))
        else .ok (desired.reconciled current now, !isKept current desired) := by
    rw [nextTimerGeneration_eq, isExhausted, here, free, TimerRecord.reconciled, free, generationOf,
      here]
    by_cases exhausted : timerGenerationMax ≤ (current.map TimerRecord.generation).getD 0
    · simp [exhausted, Except.map]
    · simp [exhausted, Except.map]
  unfold planTimer
  cases here : state.timers.get? desired.id with
  | none => exact renews none here rfl
  | some current =>
    cases matching : timerMatches current desired with
    | false =>
      dsimp only
      rw [matching]
      exact renews (some current) here matching
    | true =>
      have kept : isKept (some current) desired = true := matching
      rw [isExhausted, here, TimerRecord.reconciled, kept]
      simp [matching]

variable {state : MemoryState} {planned : List (TimerRecord × Bool)} {desired : List TimerRecord}

theorem mapM_planTimer_eq (all : desired.mapM (planTimer state now) = .ok planned) :
    planned = desired.map fun timer => (timer.reconciled (state.timers.get? timer.id) now,
      !isKept (state.timers.get? timer.id) timer) := by
  have images := forall₂_of_mapM_ok all
  clear all
  induction images with
  | nil => rfl
  | cons plan _ ih =>
    rw [planTimer_eq] at plan
    split at plan
    next => cases plan
    next => rw [List.map_cons, ← Except.ok.inj plan, ← ih]

theorem reconciled_id (desired : TimerRecord) (now : DateTime) :
    (desired.reconciled (state.timers.get? desired.id) now).id = desired.id := by
  unfold TimerRecord.reconciled
  split
  next =>
    cases here : state.timers.get? desired.id with
    | none => rfl
    | some current => exact Table.key_of_get? here
  next => rfl

theorem reconciled_carries (desired : TimerRecord) (now : DateTime) :
    (desired.reconciled (state.timers.get? desired.id) now).Carries desired ∧
      timerMatches (desired.reconciled (state.timers.get? desired.id) now) desired = true := by
  have id : (desired.reconciled (state.timers.get? desired.id) now).id = desired.id :=
    reconciled_id desired now
  have matching : timerMatches (desired.reconciled (state.timers.get? desired.id) now) desired =
      true := by
    unfold TimerRecord.reconciled
    split
    next kept =>
      obtain ⟨current, here, matching⟩ := (Option.any_eq_true _ _).mp kept
      rw [here]
      exact matching
    next => simp [timerMatches, TimerRecord.renewed]
  obtain ⟨-, fireAt, contract, source, uri, subject, data⟩ := of_decide_eq_true matching
  exact ⟨⟨id, fireAt, contract, source, uri, subject, data⟩, matching⟩

theorem applyAll_outside {id : String}
    (outside : ∀ entry ∈ planned, entry.2 = true → entry.1.id ≠ id) (state : MemoryState) :
    (planned.foldl applyPlannedTimer state).timers.get? id = state.timers.get? id ∧
      (planned.foldl applyPlannedTimer state).timerLeases.get? id = state.timerLeases.get? id := by
  induction planned generalizing state with
  | nil => exact ⟨rfl, rfl⟩
  | cons head rest ih =>
    rw [List.foldl_cons]
    obtain ⟨timer, lease⟩ := ih
      (fun entry member => outside entry (List.mem_cons_of_mem _ member))
      (applyPlannedTimer state head)
    rw [timer, lease, applyPlannedTimer]
    split
    next schedules =>
      have other := (outside head List.mem_cons_self schedules).symm
      exact ⟨Table.get?_insert_of_ne _ other, Table.get?_erase_of_ne _ other⟩
    next => exact ⟨rfl, rfl⟩

theorem applyAll_inside {timer : TimerRecord}
    (distinct : (planned.map fun entry => entry.1.id).Nodup) (inside : (timer, true) ∈ planned)
    (state : MemoryState) :
    (planned.foldl applyPlannedTimer state).timers.get? timer.id = some timer ∧
      (planned.foldl applyPlannedTimer state).timerLeases.get? timer.id = none := by
  induction planned generalizing state with
  | nil => cases inside
  | cons head rest ih =>
    rw [List.foldl_cons]
    rw [List.map_cons, List.nodup_cons] at distinct
    rcases List.mem_cons.mp inside with here | later
    · have outside : ∀ entry ∈ rest, entry.2 = true → entry.1.id ≠ timer.id :=
        fun entry member _ same => distinct.1 (by
          rw [← here, List.mem_map]
          exact ⟨entry, member, same⟩)
      obtain ⟨stored, lease⟩ := applyAll_outside outside (applyPlannedTimer state head)
      rw [stored, lease, ← here]
      exact ⟨Table.get?_insert_self _ _, Table.get?_erase_self _ _⟩
    · exact ih distinct.2 later _

theorem applyAll_runs (planned : List (TimerRecord × Bool)) (state : MemoryState) :
    (planned.foldl applyPlannedTimer state).runs = state.runs ∧
      (planned.foldl applyPlannedTimer state).runLeases = state.runLeases := by
  induction planned generalizing state with
  | nil => exact ⟨rfl, rfl⟩
  | cons entry rest ih =>
    rw [List.foldl_cons, (ih _).1, (ih _).2, applyPlannedTimer]
    split <;> exact ⟨rfl, rfl⟩

theorem withdrawAll_runs (now : DateTime) (ids : List String) (state : MemoryState) :
    (ids.foldl (withdrawTimer now) state).runs = state.runs ∧
      (ids.foldl (withdrawTimer now) state).runLeases = state.runLeases := by
  induction ids generalizing state with
  | nil => exact ⟨rfl, rfl⟩
  | cons id rest ih => exact ih (withdrawTimer now state id)

/-- A timer that a reconciliation withdraws: it is active under the prefix, and not desired. -/
def IsOmitted (idPrefix : String) (desired : List TimerRecord) (timer : TimerRecord) : Prop :=
  idPrefix.toList.isPrefixOf timer.id.toList = true ∧ timer.id ∉ desired.map TimerRecord.id ∧
    timer.status.active = true

/-- What a reconciliation that does not fail leaves. -/
structure Reconciled (state next : MemoryState) (idPrefix : String) (desired : List TimerRecord)
    (now : DateTime) (outcome : TimerReconcileOutcome) : Prop where
  carried : ∀ timer ∈ desired, ∃ stored, next.timers.get? timer.id = some stored ∧
    stored.Carries timer
  kept : ∀ timer ∈ desired, isKept (state.timers.get? timer.id) timer = true →
    next.timers.get? timer.id = state.timers.get? timer.id ∧
      next.timerLeases.get? timer.id = state.timerLeases.get? timer.id
  renewed : ∀ timer ∈ desired, isKept (state.timers.get? timer.id) timer = false →
    next.timers.get? timer.id = some (timer.renewed (state.timers.get? timer.id) now) ∧
      next.timerLeases.get? timer.id = none
  withdrawn : ∀ timer ∈ state.timers, IsOmitted idPrefix desired timer →
    next.timers.get? timer.id = some (withdrawnTimer now timer) ∧
      next.timerLeases.get? timer.id = none
  others : ∀ id, id ∉ desired.map TimerRecord.id →
    (∀ timer ∈ state.timers, timer.id = id → ¬IsOmitted idPrefix desired timer) →
    next.timers.get? id = state.timers.get? id ∧
      next.timerLeases.get? id = state.timerLeases.get? id
  cancelled : ∀ id, id ∈ outcome.cancelledIds ↔
    ∃ timer ∈ state.timers, timer.id = id ∧ IsOmitted idPrefix desired timer
  sorted : outcome.cancelledIds.Pairwise (· < ·)
  timers : outcome.timers.Pairwise (fun left right => left.id ≤ right.id) ∧
    ∀ record, record ∈ outcome.timers ↔ ∃ timer ∈ desired, next.timers.get? timer.id = some record
  runs : next.runs = state.runs ∧ next.runLeases = state.runLeases
  journal : SameJournal state next

theorem mem_omittedTimers {idPrefix id : String} :
    id ∈ omittedTimers state idPrefix (desired.map TimerRecord.id) ↔
      ∃ timer ∈ state.timers, timer.id = id ∧ IsOmitted idPrefix desired timer := by
  rw [omittedTimers, List.mem_map]
  refine exists_congr fun timer => ?_
  rw [List.mem_filter, decide_eq_true_iff, IsOmitted, and_right_comm, and_assoc]
  rfl

theorem omittedTimers_sorted (state : MemoryState) (idPrefix : String) (ids : List String) :
    (omittedTimers state idPrefix ids).Pairwise (· < ·) := by
  rw [omittedTimers, List.pairwise_map]
  exact List.Pairwise.filter _ state.timers.sorted

section

variable {state next : MemoryState} {idPrefix : String} {desired : List TimerRecord}
  {now : DateTime} {outcome : TimerReconcileOutcome}

theorem reconcileTimers_error {error : RuntimeError}
    (failed : reconcileTimers state idPrefix desired now = (next, .error error)) :
    next = state ∧ ∃ timer ∈ desired, isExhausted state timer = true := by
  unfold reconcileTimers at failed
  split at failed
  next failure all =>
    obtain ⟨timer, member, plan⟩ := exists_error_of_mapM all
    refine ⟨(congrArg Prod.fst failed).symm, timer, member, ?_⟩
    rw [planTimer_eq] at plan
    split at plan
    next exhausted => exact exhausted
    next => cases plan
  next => cases congrArg Prod.snd failed

/-- The plan of a reconciliation. -/
def plannedTimers (state : MemoryState) (desired : List TimerRecord) (now : DateTime) :
    List (TimerRecord × Bool) :=
  desired.map fun timer => (timer.reconciled (state.timers.get? timer.id) now,
    !isKept (state.timers.get? timer.id) timer)

/-- The store after the timers that are not desired are withdrawn. -/
def withdrawOmitted (state : MemoryState) (idPrefix : String) (desired : List TimerRecord)
    (now : DateTime) : MemoryState :=
  (omittedTimers state idPrefix (desired.map TimerRecord.id)).foldl (withdrawTimer now) state

theorem reconcileTimers_ok (result : reconcileTimers state idPrefix desired now =
      (next, .ok outcome)) :
    next = (plannedTimers state desired now).foldl applyPlannedTimer
        (withdrawOmitted state idPrefix desired now) ∧
      outcome.timers = ((plannedTimers state desired now).map Prod.fst).insertionSort
        (fun left right => left.id ≤ right.id) ∧
      outcome.cancelledIds = omittedTimers state idPrefix (desired.map TimerRecord.id) := by
  unfold reconcileTimers at result
  split at result
  next => cases congrArg Prod.snd result
  rename_i planned all
  obtain rfl := mapM_planTimer_eq all
  obtain ⟨here, same⟩ := Prod.ext_iff.mp result
  cases same
  refine ⟨here.symm, rfl, ?_⟩
  exact List.Pairwise.insertionSort_eq ((omittedTimers_sorted _ _ _).imp le_of_lt)

theorem withdrawOmitted_at (state : MemoryState) (idPrefix : String) (desired : List TimerRecord)
    (now : DateTime) (id : String) :
    (withdrawOmitted state idPrefix desired now).timers.get? id =
        (if id ∈ omittedTimers state idPrefix (desired.map TimerRecord.id) then
          (state.timers.get? id).map (withdrawnTimer now)
        else state.timers.get? id) ∧
      (withdrawOmitted state idPrefix desired now).timerLeases.get? id =
        if id ∈ omittedTimers state idPrefix (desired.map TimerRecord.id) then none
        else state.timerLeases.get? id :=
  ⟨withdrawAll_timers_get? now _ state id, withdrawAll_timerLeases_get? now _ state id⟩

theorem plannedTimers_ids (state : MemoryState) (desired : List TimerRecord) (now : DateTime) :
    (plannedTimers state desired now).map (fun entry => entry.1.id) =
      desired.map TimerRecord.id := by
  rw [plannedTimers, List.map_map]
  exact List.map_congr_left fun timer _ => reconciled_id timer now

theorem plannedTimers_outside {id : String} (undesired : id ∉ desired.map TimerRecord.id) :
    ∀ entry ∈ plannedTimers state desired now, entry.2 = true → entry.1.id ≠ id := by
  intro entry member _ same
  rw [← plannedTimers_ids state desired now] at undesired
  exact undesired (List.mem_map.mpr ⟨entry, member, same⟩)

theorem not_mem_omittedTimers {timer : TimerRecord} (member : timer ∈ desired) :
    timer.id ∉ omittedTimers state idPrefix (desired.map TimerRecord.id) := by
  intro omitted
  obtain ⟨other, _, same, _, undesired, _⟩ := mem_omittedTimers.mp omitted
  rw [same] at undesired
  exact undesired (List.mem_map_of_mem member)

theorem desired_at (distinct : (desired.map TimerRecord.id).Nodup)
    (result : reconcileTimers state idPrefix desired now = (next, .ok outcome))
    {timer : TimerRecord} (member : timer ∈ desired) :
    next.timers.get? timer.id = some (timer.reconciled (state.timers.get? timer.id) now) ∧
      next.timerLeases.get? timer.id =
        if isKept (state.timers.get? timer.id) timer then state.timerLeases.get? timer.id
        else none := by
  obtain ⟨rfl, -, -⟩ := reconcileTimers_ok result
  have base := withdrawOmitted_at state idPrefix desired now timer.id
  rw [if_neg (not_mem_omittedTimers member), if_neg (not_mem_omittedTimers member)] at base
  cases kept : isKept (state.timers.get? timer.id) timer with
  | true =>
    have outside : ∀ entry ∈ plannedTimers state desired now, entry.2 = true →
        entry.1.id ≠ timer.id := by
      intro entry planned schedules same
      obtain ⟨other, listed, rfl⟩ := List.mem_map.mp planned
      rw [reconciled_id] at same
      obtain rfl := List.inj_on_of_nodup_map distinct listed member same
      rw [kept] at schedules
      cases schedules
    obtain ⟨stored, lease⟩ := applyAll_outside outside (withdrawOmitted state idPrefix desired now)
    rw [stored, lease, base.1, base.2, if_pos rfl, TimerRecord.reconciled, if_pos kept]
    obtain ⟨current, here, -⟩ := (Option.any_eq_true _ _).mp kept
    rw [here]
    exact ⟨rfl, rfl⟩
  | false =>
    have inside : (timer.reconciled (state.timers.get? timer.id) now, true) ∈
        plannedTimers state desired now :=
      List.mem_map.mpr ⟨timer, member, by rw [kept]; rfl⟩
    have found := applyAll_inside (by rw [plannedTimers_ids]; exact distinct) inside
      (withdrawOmitted state idPrefix desired now)
    rw [reconciled_id] at found
    exact found

theorem undesired_at (result : reconcileTimers state idPrefix desired now = (next, .ok outcome))
    {id : String} (undesired : id ∉ desired.map TimerRecord.id) :
    next.timers.get? id =
        (if id ∈ omittedTimers state idPrefix (desired.map TimerRecord.id) then
          (state.timers.get? id).map (withdrawnTimer now)
        else state.timers.get? id) ∧
      next.timerLeases.get? id =
        if id ∈ omittedTimers state idPrefix (desired.map TimerRecord.id) then none
        else state.timerLeases.get? id := by
  obtain ⟨rfl, -, -⟩ := reconcileTimers_ok result
  obtain ⟨stored, lease⟩ := applyAll_outside (plannedTimers_outside undesired)
    (withdrawOmitted state idPrefix desired now)
  rw [stored, lease]
  exact withdrawOmitted_at state idPrefix desired now id

theorem reconcileTimers_runs
    (result : reconcileTimers state idPrefix desired now = (next, .ok outcome)) :
    next.runs = state.runs ∧ next.runLeases = state.runLeases := by
  obtain ⟨rfl, -, -⟩ := reconcileTimers_ok result
  have withdrawn := withdrawAll_runs now (omittedTimers state idPrefix
    (desired.map TimerRecord.id)) state
  have applied := applyAll_runs (plannedTimers state desired now)
    (withdrawOmitted state idPrefix desired now)
  exact ⟨applied.1.trans withdrawn.1, applied.2.trans withdrawn.2⟩

/-- A reconciliation that succeeds leaves the store as `Reconciled` says. -/
theorem reconciled_of_ok (distinct : (desired.map TimerRecord.id).Nodup)
    (result : reconcileTimers state idPrefix desired now = (next, .ok outcome)) :
    Reconciled state next idPrefix desired now outcome := by
  obtain ⟨_, timers, cancelledIds⟩ := reconcileTimers_ok result
  have omitted (timer : TimerRecord) (stored : timer ∈ state.timers)
      (selected : IsOmitted idPrefix desired timer) :
      timer.id ∈ omittedTimers state idPrefix (desired.map TimerRecord.id) :=
    mem_omittedTimers.mpr ⟨timer, stored, rfl, selected⟩
  refine ⟨?_, ?_, ?_, ?_, ?_, ?_, ?_, ⟨?_, ?_⟩, reconcileTimers_runs result, ?_⟩
  · exact fun timer member =>
      ⟨_, (desired_at distinct result member).1, (reconciled_carries timer now).1⟩
  · intro timer member kept
    obtain ⟨stored, lease⟩ := desired_at distinct result member
    rw [stored, lease, if_pos kept, TimerRecord.reconciled, if_pos kept]
    obtain ⟨current, here, -⟩ := (Option.any_eq_true _ _).mp kept
    rw [here]
    exact ⟨rfl, rfl⟩
  · intro timer member free
    obtain ⟨stored, lease⟩ := desired_at distinct result member
    rw [stored, lease, free, TimerRecord.reconciled, free]
    exact ⟨rfl, rfl⟩
  · intro timer stored selected
    have after := undesired_at result selected.2.1
    rw [if_pos (omitted timer stored selected), if_pos (omitted timer stored selected),
      Table.get?_key stored] at after
    exact after
  · intro id undesired unselected
    have after := undesired_at result undesired
    have outside : id ∉ omittedTimers state idPrefix (desired.map TimerRecord.id) := by
      intro member
      obtain ⟨timer, stored, same, selected⟩ := mem_omittedTimers.mp member
      exact unselected timer stored same selected
    rwa [if_neg outside, if_neg outside] at after
  · intro id
    rw [cancelledIds]
    exact mem_omittedTimers
  · rw [cancelledIds]
    exact omittedTimers_sorted _ _ _
  · rw [timers]
    exact List.pairwise_insertionSort _ _
  · intro record
    rw [timers, List.mem_insertionSort, plannedTimers, List.map_map, List.mem_map]
    refine exists_congr fun timer => and_congr_right fun member => ?_
    rw [(desired_at distinct result member).1, Option.some_inj]
    rfl
  · have same := SameJournal.reconcileTimers state idPrefix desired now
    rwa [result] at same

/-- Reconciling again with the same timers changes nothing. -/
theorem reconcileTimers_again (distinct : (desired.map TimerRecord.id).Nodup)
    (result : reconcileTimers state idPrefix desired now = (next, .ok outcome)) (later : DateTime) :
    reconcileTimers next idPrefix desired later =
      (next, .ok { outcome with cancelledIds := [] }) := by
  have reconciled := reconciled_of_ok distinct result
  have plans : desired.mapM (planTimer next later) = .ok (desired.map fun timer =>
      (timer.reconciled (state.timers.get? timer.id) now, false)) := by
    refine mapM_ok_of_forall fun timer member => ?_
    have matching : timerMatches (timer.reconciled (state.timers.get? timer.id) now) timer =
        true := (reconciled_carries timer now).2
    have kept : isKept (next.timers.get? timer.id) timer = true := by
      rw [(desired_at distinct result member).1]
      exact matching
    rw [planTimer_eq, isExhausted, kept, TimerRecord.reconciled, kept,
      (desired_at distinct result member).1]
    rfl
  have none_ : omittedTimers next idPrefix (desired.map TimerRecord.id) = [] := by
    refine List.eq_nil_iff_forall_not_mem.mpr fun id member => ?_
    obtain ⟨timer, stored, rfl, inside, undesired, active⟩ := mem_omittedTimers.mp member
    have found := Table.get?_key stored
    by_cases omitted : ∃ old ∈ state.timers, old.id = timer.id ∧ IsOmitted idPrefix desired old
    · obtain ⟨old, known, same, selected⟩ := omitted
      rw [← same, (reconciled.withdrawn old known selected).1] at found
      rw [← Option.some.inj found] at active
      cases active
    · have unchanged := (reconciled.others timer.id undesired fun old known same selected =>
        omitted ⟨old, known, same, selected⟩).1
      rw [found] at unchanged
      exact omitted ⟨timer, Table.mem_of_get? unchanged.symm, rfl, inside, undesired, active⟩
  have applied (timers : List TimerRecord) (leads : TimerRecord → TimerRecord) :
      (timers.map fun timer => (leads timer, false)).foldl applyPlannedTimer next = next := by
    induction timers with
    | nil => rfl
    | cons timer rest ih => exact ih
  have timers : (desired.map fun timer =>
      (timer.reconciled (state.timers.get? timer.id) now, false)).map Prod.fst =
        (plannedTimers state desired now).map Prod.fst := by
    rw [plannedTimers, List.map_map, List.map_map]
    rfl
  unfold reconcileTimers
  rw [plans]
  dsimp only
  rw [none_, List.foldl_nil, applied, timers, ← (reconcileTimers_ok result).2.1]
  rfl

end

theorem desiredTimers_times {idPrefix : String} {before desired : List TimerRecord}
    (accepted : desiredTimers idPrefix now requests before = .ok desired) (later : DateTime)
    {others : List TimerRecord} (same : others.map TimerRecord.id = before.map TimerRecord.id) :
    desiredTimers idPrefix later requests others =
      .ok (others ++ requests.map (timerRecord · later)) := by
  induction requests generalizing before others with
  | nil => exact congrArg _ (List.append_nil _).symm
  | cons timer rest ih =>
    rw [desiredTimers] at accepted ⊢
    rw [same]
    split_ifs at accepted ⊢
    rw [ih accepted (by simp [same, timerRecord]), List.append_assoc]
    rfl

theorem reconcileTimers_times {state : MemoryState} {idPrefix : String} {later : DateTime}
    (kept : ∀ timer ∈ requests,
      isKept (state.timers.get? timer.id) (timerRecord timer now) = true) :
    reconcileTimers state idPrefix (requests.map (timerRecord · later)) later =
      reconcileTimers state idPrefix (requests.map (timerRecord · now)) later := by
  have plan (at_ : DateTime) (timer : TimerRequest) (member : timer ∈ requests) :
      (planTimer state later ∘ (timerRecord · at_)) timer =
        .ok ((state.timers.get? timer.id).getD (timerRecord timer now), false) := by
    obtain ⟨current, found, matching⟩ := (Option.any_eq_true _ _).mp (kept timer member)
    rw [Function.comp_apply, planTimer,
      show state.timers.get? (timerRecord timer at_).id = some current from found, found]
    exact if_pos matching
  unfold reconcileTimers
  rw [List.mapM_map, List.mapM_map, mapM_ok_of_forall (plan later), mapM_ok_of_forall (plan now),
    List.map_map, List.map_map]
  rfl

/-- A request for timers stores those that it lists, withdraws the other active ones under its
prefix, and changes nothing when it is repeated at any time, or it fails and changes nothing. -/
theorem requestTimers_reconciles (state : MemoryState) (idPrefix : String)
    (requests : List TimerRequest) (now : DateTime) :
    match requestTimers state idPrefix requests now with
    | (next, .ok outcome) =>
      (requests.map TimerRequest.id).Nodup ∧
        (∀ timer ∈ requests, idPrefix.toList.isPrefixOf timer.id.toList = true) ∧
        Reconciled state next idPrefix (requests.map (timerRecord · now)) now outcome ∧
        ∀ later, requestTimers next idPrefix requests later =
          (next, .ok { outcome with cancelledIds := [] })
    | (next, .error _) => next = state := by
  by_cases empty : idPrefix = ""
  · rw [requestTimers, if_pos empty]
  cases accepted : desiredTimers idPrefix now requests [] with
  | error error => rw [requestTimers, if_neg empty, accepted]
  | ok desired =>
    obtain ⟨distinct, under⟩ := desiredTimers_ok accepted List.nodup_nil (by simp)
    obtain rfl : desired = requests.map (timerRecord · now) :=
      Except.ok.inj (accepted.symm.trans (desiredTimers_times accepted now rfl))
    have request : requestTimers state idPrefix requests now =
        reconcileTimers state idPrefix (requests.map (timerRecord · now)) now := by
      rw [requestTimers, if_neg empty, accepted]
    rw [request]
    rcases result : reconcileTimers state idPrefix (requests.map (timerRecord · now)) now with
      ⟨next, error | outcome⟩
    · exact (reconcileTimers_error result).1
    · have each (timer : TimerRequest) (member : timer ∈ requests) :=
        desired_at distinct result (List.mem_map_of_mem member)
      refine ⟨by simpa [Function.comp_def, timerRecord] using distinct,
        fun timer member => under _ (List.mem_map_of_mem member), reconciled_of_ok distinct result,
        fun later => ?_⟩
      rw [requestTimers, if_neg empty, desiredTimers_times accepted later rfl]
      refine (reconcileTimers_times fun timer member => ?_).trans
        (reconcileTimers_again distinct result later)
      rw [show next.timers.get? timer.id = _ from (each timer member).1]
      exact (reconciled_carries (timerRecord timer now) now).2

/-- A reconciliation of distinct timers under a prefix makes the prefix match and changes nothing
when it is repeated, or it fails and changes nothing. -/
theorem reconcileTimers_prefix_matches {state next : MemoryState} {idPrefix : String}
    {desired : List TimerRecord} {now : DateTime}
    {reply : Except RuntimeError TimerReconcileOutcome}
    (distinct : (desired.map TimerRecord.id).Nodup)
    (under : ∀ timer ∈ desired, idPrefix.toList.isPrefixOf timer.id.toList = true)
    (result : reconcileTimers state idPrefix desired now = (next, reply)) :
    match reply with
    | .ok outcome => Reconciled state next idPrefix desired now outcome ∧
        (∀ timer ∈ state.timers, idPrefix.toList.isPrefixOf timer.id.toList = false →
          next.timers.get? timer.id = some timer ∧
            next.timerLeases.get? timer.id = state.timerLeases.get? timer.id) ∧
        reconcileTimers next idPrefix desired now = (next, .ok { outcome with cancelledIds := [] })
    | .error _ => next = state ∧ ∃ timer ∈ desired, isExhausted state timer = true := by
  cases reply with
  | error error => exact reconcileTimers_error result
  | ok outcome =>
    have reconciled := reconciled_of_ok distinct result
    refine ⟨reconciled, fun timer stored outside => ?_, reconcileTimers_again distinct result now⟩
    have undesired : timer.id ∉ desired.map TimerRecord.id := by
      intro member
      obtain ⟨other, listed, same⟩ := List.mem_map.mp member
      have inside := under other listed
      rw [same, outside] at inside
      cases inside
    rw [← Table.get?_key stored]
    refine reconciled.others timer.id undesired fun other known same selected => ?_
    rw [IsOmitted, same, outside] at selected
    cases selected.1

/-- A new timer replaces one that is scheduled under the same prefix. -/
theorem reconcileTimers_prefix_matches_sample :
    let old : TimerRecord := { (default : TimerRecord) with id := "t/old", generation := 1 }
    let state : MemoryState := { MemoryState.new with timers := MemoryState.new.timers.insert old }
    let desired : TimerRecord := { (default : TimerRecord) with id := "t/new" }
    Reconciled state (reconcileTimers state "t/" [desired] 5).1 "t/" [desired] 5
      ⟨[desired.renewed none 5], ["t/old"]⟩ := by
  intro old state desired
  have result : reconcileTimers state "t/" [desired] 5 =
      ((reconcileTimers state "t/" [desired] 5).1,
        .ok ⟨[desired.renewed none 5], ["t/old"]⟩) := by
    refine Prod.ext rfl ?_
    decide +kernel
  exact (reconcileTimers_prefix_matches (by decide) (by decide) result).1

end Mdbase.Runtime
