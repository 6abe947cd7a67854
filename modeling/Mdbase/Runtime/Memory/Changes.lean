import Mdbase.Runtime.Memory.Journal

/-!
# What an admission can do to the stored runs

`Change` lists the elementary changes of the run table that admission is made
of: a queued run is removed by a debounce, a run is cancelled by a replacement,
a plan is stored as a queued run. `admit_changes` decomposes every admission
into such changes, so an invariant of the runs is checked against the four
constructors and not against the admission loop.
-/

namespace Mdbase.Runtime.Memory

open Library Relation

/-- Removed runs lose their rows and their leases. -/
theorem removeRuns_get? (state : MemoryState) (ids : List String) (id : String) :
    ((removeRuns state ids).runs.get? id = if id ∈ ids then none else state.runs.get? id) ∧
      (removeRuns state ids).runLeases.get? id =
        if id ∈ ids then none else state.runLeases.get? id := by
  induction ids generalizing state with
  | nil => simp [removeRuns]
  | cons head rest ih =>
    have unfolded : removeRuns state (head :: rest) =
        removeRuns { state with
          runs := state.runs.erase head
          runLeases := state.runLeases.erase head } rest := rfl
    rw [unfolded, (ih _).1, (ih _).2]
    by_cases later : id ∈ rest
    · simp [later]
    · by_cases here : id = head
      · simp [here]
      · simp [later, here, Table.get?_erase_of_ne]

@[simp] theorem removeRuns_runs_get? (state : MemoryState) (ids : List String) (id : String) :
    (removeRuns state ids).runs.get? id = if id ∈ ids then none else state.runs.get? id :=
  (removeRuns_get? state ids id).1

@[simp] theorem removeRuns_runLeases_get? (state : MemoryState) (ids : List String) (id : String) :
    (removeRuns state ids).runLeases.get? id =
      if id ∈ ids then none else state.runLeases.get? id :=
  (removeRuns_get? state ids id).2

variable {receivedAt : DateTime} {plan : PlannedRun} {state : MemoryState} {run : RunRecord}

/-- Debouncing removes the obsolete runs and keeps the others. -/
theorem mem_debounce :
    run ∈ (debounce state receivedAt plan).runs ↔
      run ∈ state.runs ∧ ¬ (plan.notBefore > receivedAt ∧ obsolete plan receivedAt run) := by
  unfold debounce
  split
  next delayed =>
    rw [Table.mem_iff_get?, removeRuns_runs_get?]
    have listed : run ∈ state.runs →
        (run.plan.id ∈ (state.runs.entries.filter (obsolete plan receivedAt)).map (·.plan.id) ↔
          obsolete plan receivedAt run = true) := by
      intro member
      simp only [List.mem_map, List.mem_filter]
      constructor
      · rintro ⟨other, ⟨otherMember, otherObsolete⟩, same⟩
        exact Runs.eq_of_id otherMember member same ▸ otherObsolete
      · intro isObsolete
        exact ⟨run, ⟨member, isObsolete⟩, rfl⟩
    constructor
    · intro found
      split at found
      next => cases found
      next unlisted =>
        have member := Table.mem_of_get? found
        exact ⟨member, fun both => unlisted ((listed member).mpr both.2)⟩
    · rintro ⟨member, kept⟩
      rw [if_neg fun isListed => kept ⟨delayed, (listed member).mp isListed⟩]
      exact Table.get?_key member
  next immediate => simp [immediate]

/-- The effect of a cancellation request on a run that may refuse it. -/
def cancelOnce (receivedAt : DateTime) (run : RunRecord) : RunRecord :=
  match run.requestCancel receivedAt with
  | some cancelled => { cancelled with revision := cancelled.revision + 1 }
  | none => run

@[simp] theorem cancelOnce_plan (receivedAt : DateTime) (run : RunRecord) :
    (cancelOnce receivedAt run).plan = run.plan := by
  unfold cancelOnce
  split
  next accepted => exact (RunRecord.requestCancel_cancellation accepted).plan
  next => rfl

theorem cancelOnce_status (active : run.status.terminal = false) :
    (cancelOnce receivedAt run).status = if run.status = .running then .running else .cancelled := by
  unfold cancelOnce
  split
  next accepted => exact (RunRecord.requestCancel_cancellation accepted).status
  next refused => simp [RunRecord.requestCancel_eq_none_iff.mp refused] at active

theorem recordCancellation_runs (state : MemoryState) (cancelled : RunRecord) :
    (recordCancellation state cancelled).runs =
      state.runs.insert { cancelled with revision := cancelled.revision + 1 } := rfl

theorem displace_runs_get? (receivedAt : DateTime) (state : MemoryState)
    (requested : List String) (id other : String) :
    (displace receivedAt (state, requested) id).1.runs.get? other =
      if other = id then (state.runs.get? id).map (cancelOnce receivedAt)
      else state.runs.get? other := by
  cases found : state.runs.get? id with
  | none =>
    by_cases same : other = id
    · simp [displace, same, found]
    · simp [displace, same, found]
  | some run =>
    have here := Runs.id_of_get? found
    cases accepted : run.requestCancel receivedAt with
    | some cancelled =>
      have samePlan := (RunRecord.requestCancel_cancellation accepted).plan
      simp only [displace, found, accepted, recordCancellation_runs, Table.get?_insert,
        samePlan, here, Option.map_some, cancelOnce]
    | none =>
      have terminal := RunRecord.requestCancel_eq_none_iff.mp accepted
      simp only [displace, found, accepted, terminal, if_true, Option.map_some, cancelOnce]
      split
      next same => rw [same, found]
      next => rfl

theorem displaceAll_runs_get? (receivedAt : DateTime) {ids : List String} (nodup : ids.Nodup)
    (state : MemoryState) (requested : List String) (other : String) :
    (ids.foldl (displace receivedAt) (state, requested)).1.runs.get? other =
      if other ∈ ids then (state.runs.get? other).map (cancelOnce receivedAt)
      else state.runs.get? other := by
  induction ids generalizing state requested with
  | nil => simp
  | cons head rest ih =>
    obtain ⟨headFresh, restNodup⟩ := List.nodup_cons.mp nodup
    rw [List.foldl_cons, ← Prod.mk.eta (p := displace receivedAt (state, requested) head),
      ih restNodup, displace_runs_get?]
    by_cases here : other = head
    · simp [here, headFresh]
    · simp [here]

theorem mem_activeGroupRuns {group id : String} :
    id ∈ activeGroupRuns state group ↔
      ∃ run ∈ state.runs, run.plan.id = id ∧ run.plan.concurrencyGroup = group ∧
        run.status.occupiesConcurrencyGroup = true := by
  simp only [activeGroupRuns, List.mem_map, List.mem_filter, decide_eq_true_eq, Table.mem_def]
  constructor
  · rintro ⟨run, ⟨member, inGroup, active⟩, same⟩
    exact ⟨run, member, same, inGroup, active⟩
  · rintro ⟨run, member, same, inGroup, active⟩
    exact ⟨run, ⟨member, inGroup, active⟩, same⟩

theorem activeGroupRuns_nodup (state : MemoryState) (group : String) :
    (activeGroupRuns state group).Nodup :=
  state.runs.nodup_keys _

theorem idempotencyTaken_eq_false_iff :
    idempotencyTaken state plan = false ↔
      ∀ run ∈ state.runs, run.plan.idempotency ≠ plan.idempotency := by
  simp [idempotencyTaken, PlannedRun.idempotency, Table.mem_def]

/-- The runs that a replacement displaced, seen in the state in which it is
stored: every run still active in its group is listed, and every listed run is
in its group and was cancelled or is running. -/
structure Displacement (state : MemoryState) (plan : PlannedRun) : Prop where
  listed : ∀ run ∈ state.runs, run.plan.concurrencyGroup = plan.concurrencyGroup →
    run.status.occupiesConcurrencyGroup = true → run.plan.id ∈ plan.replacementBlockers
  settled : ∀ id ∈ plan.replacementBlockers, ∃ run ∈ state.runs, run.plan.id = id ∧
    run.plan.concurrencyGroup = plan.concurrencyGroup ∧
    (run.status = .cancelled ∨ run.status = .running)

/-- One elementary change of the run table during the admission of an event. -/
inductive Change (event : PreparedEvent) (cursor : Nat) (state : MemoryState) :
    MemoryState → Prop where
  | remove (id : String)
      (queued : ∀ run, state.runs.get? id = some run → run.status = .queued) :
      Change event cursor state
        { state with runs := state.runs.erase id, runLeases := state.runLeases.erase id }
  | cancel {run cancelled : RunRecord} {now : DateTime} (stored : run ∈ state.runs)
      (accepted : run.requestCancel now = some cancelled) :
      Change event cursor state (recordCancellation state cancelled)
  | release {run : RunRecord} (stored : run ∈ state.runs)
      (terminal : run.status.terminal = true) :
      Change event cursor state
        { state with runLeases := state.runLeases.erase run.plan.id }
  | store {planned plan : PlannedRun} (member : planned ∈ event.runs)
      (same : plan = (planned.withCursor cursor).withBlockers plan.replacementBlockers)
      (own : plan.concurrencyPolicy ≠ .replace →
        plan.replacementBlockers = planned.replacementBlockers)
      (displaced : plan.concurrencyPolicy = .replace → Displacement state plan)
      (untaken : ∀ run ∈ state.runs, run.plan.idempotency ≠ plan.idempotency) :
      Change event cursor state
        { state with runs := state.runs.insert (RunRecord.admitted plan) }

/-- A sequence of elementary changes. -/
abbrev Changes (event : PreparedEvent) (cursor : Nat) : MemoryState → MemoryState → Prop :=
  ReflTransGen (Change event cursor)

variable {event : PreparedEvent} {cursor : Nat}

theorem removeRuns_changes {ids : List String}
    (queued : ∀ id ∈ ids, ∀ run, state.runs.get? id = some run → run.status = .queued) :
    Changes event cursor state (removeRuns state ids) := by
  induction ids generalizing state with
  | nil => exact .refl
  | cons head rest ih =>
    refine .head (.remove head (queued head List.mem_cons_self)) (ih ?_)
    intro id member run found
    have kept : state.runs.get? id = some run := by
      rw [Table.get?_erase] at found
      split at found
      next => cases found
      next => exact found
    exact queued id (List.mem_cons_of_mem _ member) run kept

theorem debounce_changes (state : MemoryState) (receivedAt : DateTime) (plan : PlannedRun) :
    Changes event cursor state (debounce state receivedAt plan) := by
  unfold debounce
  split
  next =>
    apply removeRuns_changes
    intro id member run found
    obtain ⟨other, otherMember, same⟩ := List.mem_map.mp member
    obtain ⟨otherStored, isObsolete⟩ := List.mem_filter.mp otherMember
    have here := Runs.id_of_get? found
    have equal := Runs.eq_of_id otherStored (Table.mem_of_get? found) (same.trans here.symm)
    simp only [obsolete, decide_eq_true_eq] at isObsolete
    exact equal ▸ isObsolete.1
  next => exact .refl

theorem displace_changes (receivedAt : DateTime) (progress : MemoryState × List String)
    (id : String) : Changes event cursor progress.1 (displace receivedAt progress id).1 := by
  obtain ⟨state, requested⟩ := progress
  cases found : state.runs.get? id with
  | none => simpa [displace, found] using ReflTransGen.refl
  | some run =>
    have stored := Table.mem_of_get? found
    cases accepted : run.requestCancel receivedAt with
    | some cancelled =>
      simpa [displace, found, accepted] using ReflTransGen.single (Change.cancel stored accepted)
    | none =>
      have terminal := RunRecord.requestCancel_eq_none_iff.mp accepted
      have here := Runs.id_of_get? found
      subst here
      simpa [displace, found, accepted, terminal] using
        ReflTransGen.single (Change.release stored terminal)

theorem displaceAll_changes (receivedAt : DateTime) (ids : List String)
    (progress : MemoryState × List String) :
    Changes event cursor progress.1 (ids.foldl (displace receivedAt) progress).1 := by
  induction ids generalizing progress with
  | nil => exact .refl
  | cons head rest ih => exact (displace_changes receivedAt progress head).trans (ih _)

theorem displaceAll_displacement (state : MemoryState) (receivedAt : DateTime)
    (requested : List String) (plan : PlannedRun) :
    Displacement ((activeGroupRuns state plan.concurrencyGroup).foldl (displace receivedAt)
        (state, requested)).1
      (plan.withBlockers (activeGroupRuns state plan.concurrencyGroup)) := by
  have nodup := activeGroupRuns_nodup state plan.concurrencyGroup
  constructor
  · intro run stored inGroup active
    by_contra unlisted
    rw [PlannedRun.withBlockers_replacementBlockers] at unlisted
    have found := Runs.get?_id stored
    rw [displaceAll_runs_get? _ nodup, if_neg unlisted] at found
    exact unlisted (mem_activeGroupRuns.mpr ⟨run, Table.mem_of_get? found, rfl, inGroup, active⟩)
  · intro id listed
    rw [PlannedRun.withBlockers_replacementBlockers] at listed
    obtain ⟨run, stored, rfl, inGroup, active⟩ := mem_activeGroupRuns.mp listed
    refine ⟨cancelOnce receivedAt run, ?_, by simp, by simpa using inGroup, ?_⟩
    · rw [Table.mem_iff_get?, cancelOnce_plan, displaceAll_runs_get? _ nodup, if_pos listed,
        Runs.get?_id stored]
      rfl
    · have running : run.status.terminal = false := by
        cases status : run.status <;> simp_all [RunStatus.terminal,
          RunStatus.occupiesConcurrencyGroup]
      rw [cancelOnce_status running]
      split
      next => exact .inr rfl
      next => exact .inl rfl

theorem displaceAll_mem_plan {requested ids : List String} (nodup : ids.Nodup)
    (stored : run ∈ (ids.foldl (displace receivedAt) (state, requested)).1.runs) :
    ∃ old ∈ state.runs, old.plan = run.plan := by
  have found := Runs.get?_id stored
  rw [displaceAll_runs_get? _ nodup] at found
  split at found
  next =>
    obtain ⟨old, oldFound, rfl⟩ := Option.map_eq_some_iff.mp found
    exact ⟨old, Table.mem_of_get? oldFound, by simp⟩
  next => exact ⟨run, Table.mem_of_get? found, rfl⟩

theorem replacePlan_changes (loop : Admission)
    (member : plan ∈ event.runs) (replaces : plan.concurrencyPolicy = .replace)
    (untaken : ∀ run ∈ loop.state.runs, run.plan.idempotency ≠ plan.idempotency) :
    Changes event cursor loop.state
      (replacePlan receivedAt loop (plan.withCursor cursor)).state := by
  refine (displaceAll_changes receivedAt
    (activeGroupRuns loop.state (plan.withCursor cursor).concurrencyGroup)
    (loop.state, loop.cancellationRequested)).tail ?_
  refine .store member rfl (fun keeps => absurd replaces keeps)
    (fun _ => displaceAll_displacement loop.state receivedAt _ (plan.withCursor cursor)) ?_
  intro run stored
  obtain ⟨old, oldStored, samePlan⟩ := displaceAll_mem_plan (activeGroupRuns_nodup _ _) stored
  simpa [samePlan] using untaken old oldStored

theorem considerPlan_changes {loop : Admission} (member : plan ∈ event.runs) :
    Changes event cursor loop.state
      (considerPlan receivedAt loop (plan.withCursor cursor)).state := by
  have debounced : Changes event cursor loop.state
      (debounce loop.state receivedAt (plan.withCursor cursor)) := debounce_changes ..
  unfold considerPlan
  dsimp only
  split
  next => exact debounced
  rename_i untaken
  rw [Bool.not_eq_true, idempotencyTaken_eq_false_iff] at untaken
  split
  next => exact debounced
  split
  next replaces =>
    exact debounced.trans (replacePlan_changes
      { loop with state := debounce loop.state receivedAt (plan.withCursor cursor) }
      member (by simpa using replaces) untaken)
  next keeps =>
    exact debounced.tail
      (.store member rfl (fun _ => rfl) (fun replaces => absurd replaces keeps) untaken)

theorem admitPlan_changes {loop next : Admission} (member : plan ∈ event.runs)
    (round : admitPlan cursor receivedAt loop plan = some next) :
    Changes event cursor loop.state next.state := by
  obtain ⟨suppressed, _, rfl⟩ := Option.map_eq_some_iff.mp round
  cases suppressed with
  | true => exact .refl
  | false => exact considerPlan_changes member

theorem admitPlans_changes {loop final : Admission}
    {plans : List PlannedRun} (members : ∀ plan ∈ plans, plan ∈ event.runs)
    (rounds : admitPlans cursor receivedAt loop plans = some final) :
    Changes event cursor loop.state final.state := by
  induction plans generalizing loop with
  | nil =>
    obtain rfl : loop = final := by simpa [admitPlans] using rounds
    exact .refl
  | cons plan rest ih =>
    obtain ⟨next, round, rounds⟩ : ∃ next, admitPlan cursor receivedAt loop plan = some next ∧
        admitPlans cursor receivedAt next rest = some final := by
      simpa [admitPlans, List.foldlM_cons, Option.bind_eq_some_iff] using rounds
    exact (admitPlan_changes (members plan List.mem_cons_self) round).trans
      (ih (fun plan member => members plan (List.mem_cons_of_mem _ member)) rounds)

variable {state next : MemoryState} {outcome : AdmitOutcome}

/-- An admission either answers a duplicate and changes nothing, or journals the
event and then changes the runs step by step. -/
theorem admit_changes (admitted : admit_ state event = some (next, outcome)) :
    (next = state ∧ ∃ cursor, state.eventIndex.get? (toLex (event.sourceRuntime, event.eventId)) =
          some (toLex (event.sourceRuntime, event.eventId), cursor) ∧
        outcome = ⟨cursor, true, [], [], []⟩) ∨
    (state.eventIndex.get? (toLex (event.sourceRuntime, event.eventId)) = none ∧
      outcome.cursor = state.nextCursor + 1 ∧ outcome.duplicate = false ∧
      Changes event (state.nextCursor + 1) (journal state event) next) := by
  unfold admit_ at admitted
  split at admitted
  next key cursor found =>
    obtain rfl := Table.key_of_get? found
    simp only [Option.some.injEq, Prod.mk.injEq] at admitted
    exact .inl ⟨admitted.1.symm, cursor, found, admitted.2.symm⟩
  rename_i absent
  obtain ⟨final, rounds, result⟩ := Option.map_eq_some_iff.mp admitted
  simp only [Prod.mk.injEq] at result
  obtain ⟨rfl, rfl⟩ := result
  exact .inr ⟨absent, rfl, rfl, admitPlans_changes (fun _ member => member) rounds⟩

/-- A run id goes with one idempotency scope and key: no plan of the event
carries the id of a stored run, or of another plan, under a different one. -/
structure IdsAgree (state : MemoryState) (event : PreparedEvent) : Prop where
  stored : ∀ plan ∈ event.runs, ∀ run ∈ state.runs, run.plan.id = plan.id →
    run.plan.idempotency = plan.idempotency
  planned : ∀ left ∈ event.runs, ∀ right ∈ event.runs, left.id = right.id →
    left.idempotency = right.idempotency

theorem IdsAgree.journal (agree : IdsAgree state event) : IdsAgree (journal state event) event :=
  ⟨agree.stored, agree.planned⟩

theorem Change.idsAgree (change : Change event cursor state next)
    (agree : IdsAgree state event) : IdsAgree next event := by
  refine ⟨?_, agree.planned⟩
  intro plan member run stored same
  cases change with
  | remove id _ => exact agree.stored plan member run (Table.mem_erase.mp stored).1 same
  | cancel old accepted =>
    rcases Table.mem_insert.mp stored with rfl | ⟨stored, _⟩
    · have samePlan := (RunRecord.requestCancel_cancellation accepted).plan
      simp only [samePlan] at same ⊢
      exact agree.stored plan member _ old same
    · exact agree.stored plan member run stored same
  | release _ _ => exact agree.stored plan member run stored same
  | @store planned _ plannedMember samePlan _ _ _ =>
    rcases Table.mem_insert.mp stored with rfl | ⟨stored, _⟩
    · rw [RunRecord.admitted_plan, samePlan] at same ⊢
      exact agree.planned planned plannedMember plan member same
    · exact agree.stored plan member run stored same

theorem IdsAgree.absent {planned plan : PlannedRun}
    (agree : IdsAgree state event) (member : planned ∈ event.runs)
    (same : plan = (planned.withCursor cursor).withBlockers plan.replacementBlockers)
    (untaken : ∀ run ∈ state.runs, run.plan.idempotency ≠ plan.idempotency) :
    state.runs.get? plan.id = none := by
  rw [Table.get?_eq_none_iff]
  intro run stored sameId
  have samePlanned : run.plan.id = planned.id := by
    rw [same] at sameId
    exact sameId
  refine untaken run stored ?_
  rw [agree.stored planned member run stored samePlanned, same]
  rfl

/-- A condition on admissions that includes the agreement of run ids and that
the admission itself cannot break. -/
structure AdmissionRule (admits : MemoryState → PreparedEvent → Prop) : Prop where
  idsAgree : ∀ {state event}, admits state event → IdsAgree state event
  journal : ∀ {state event}, admits state event → admits (Memory.journal state event) event
  change : ∀ {state next event cursor}, admits state event → Change event cursor state next →
    admits next event

theorem IdsAgree.admissionRule : AdmissionRule IdsAgree where
  idsAgree agree := agree
  journal agree := agree.journal
  change agree change := change.idsAgree agree

theorem Change.journal (change : Change event cursor state next) :
    next.nextCursor = state.nextCursor ∧ next.events = state.events ∧
      next.eventIndex = state.eventIndex ∧ next.retainedAfter = state.retainedAfter := by
  cases change <;> exact ⟨rfl, rfl, rfl, rfl⟩

theorem Change.timers (change : Change event cursor state next) :
    next.timers = state.timers ∧ next.timerLeases = state.timerLeases := by
  cases change <;> exact ⟨rfl, rfl⟩

variable {P : MemoryState → Prop}

/-- A property of stores holds after the admission of a new event that meets a
condition when it holds after the journal entry and survives every elementary
change. -/
theorem admit_induction {admits : MemoryState → PreparedEvent → Prop} (rule : AdmissionRule admits)
    (result : admit_ state event = some (next, outcome))
    (holds : admits state event) (entry : P (Memory.journal state event))
    (change : ∀ {before after}, admits before event →
      Change event before.nextCursor before after → P before → P after) :
    next = state ∨ P next := by
  rcases admit_changes result with ⟨same, _⟩ | ⟨_, _, _, changes⟩
  · exact .inl same
  · have all : admits next event ∧ next.nextCursor = state.nextCursor + 1 ∧ P next := by
      clear result
      induction changes with
      | refl => exact ⟨rule.journal holds, rfl, entry⟩
      | tail _ last ih =>
        obtain ⟨still, cursor, reached⟩ := ih
        refine ⟨rule.change still last, last.journal.1.trans cursor, ?_⟩
        rw [← cursor] at last
        exact change still last reached
    exact .inr all.2.2

/-- What a round that is not suppressed leaves in the store: the plan is left
out, stored, or stored after the active runs of its group were displaced. -/
theorem considerPlan_cases (receivedAt : DateTime) (loop : Admission) (plan : PlannedRun) :
    (considerPlan receivedAt loop plan).state = debounce loop.state receivedAt plan ∨
    (∀ run ∈ (debounce loop.state receivedAt plan).runs, run.plan.idempotency ≠ plan.idempotency) ∧
      ((plan.concurrencyPolicy ≠ .replace ∧
          (considerPlan receivedAt loop plan).state =
            (storePlan { loop with state := debounce loop.state receivedAt plan } plan).state) ∨
        (plan.concurrencyPolicy = .replace ∧
          (considerPlan receivedAt loop plan).state = (replacePlan receivedAt
            { loop with state := debounce loop.state receivedAt plan } plan).state)) := by
  unfold considerPlan
  dsimp only
  split
  next => exact .inl rfl
  rename_i untaken
  rw [Bool.not_eq_true, idempotencyTaken_eq_false_iff] at untaken
  split
  next => exact .inl rfl
  split
  next replaces => exact .inr ⟨untaken, .inr ⟨replaces, rfl⟩⟩
  next keeps => exact .inr ⟨untaken, .inl ⟨keeps, rfl⟩⟩

theorem Changes.nextCursor
    (changes : Changes event cursor state next) : next.nextCursor = state.nextCursor := by
  induction changes with
  | refl => rfl
  | tail _ last ih => exact last.journal.1.trans ih

theorem admitPlan_nextCursor {loop next : Admission}
    (round : admitPlan cursor receivedAt loop plan = some next) :
    next.state.nextCursor = loop.state.nextCursor := by
  let event : PreparedEvent := { (default : PreparedEvent) with runs := [plan] }
  have changes : Changes event cursor loop.state next.state :=
    admitPlan_changes (List.mem_singleton_self plan) round
  exact changes.nextCursor

/-- A property of stores holds after the admission of a new event when it holds
after the journal entry and survives every round. -/
theorem admit_rounds (result : admit_ state event = some (next, outcome))
    (entry : P (Memory.journal state event))
    (round : ∀ {loop after : Admission} {plan : PlannedRun}, plan ∈ event.runs →
      admitPlan loop.state.nextCursor event.receivedAt loop plan = some after →
      P loop.state → P after.state) :
    next = state ∨ P next := by
  unfold admit_ at result
  split at result
  next =>
    simp only [Option.some.injEq, Prod.mk.injEq] at result
    exact .inl result.1.symm
  obtain ⟨final, rounds, result⟩ := Option.map_eq_some_iff.mp result
  simp only [Prod.mk.injEq] at result
  obtain ⟨rfl, _⟩ := result
  refine .inr ?_
  have run : ∀ (plans : List PlannedRun) (loop : Admission), (∀ plan ∈ plans, plan ∈ event.runs) →
      loop.state.nextCursor = (Memory.journal state event).nextCursor →
      admitPlans (Memory.journal state event).nextCursor event.receivedAt loop plans =
        some final →
      P loop.state → P final.state := by
    intro plans
    induction plans with
    | nil =>
      intro loop _ _ done reached
      obtain rfl : loop = final := by simpa [admitPlans] using done
      exact reached
    | cons plan rest ih =>
      intro loop members cursor rounds reached
      obtain ⟨middle, first, later⟩ : ∃ middle,
          admitPlan (Memory.journal state event).nextCursor event.receivedAt loop plan =
            some middle ∧
          admitPlans (Memory.journal state event).nextCursor event.receivedAt middle rest =
            some final := by
        simpa [admitPlans, List.foldlM_cons, Option.bind_eq_some_iff] using rounds
      rw [← cursor] at first
      refine ih middle (fun plan member => members plan (List.mem_cons_of_mem _ member))
        ((admitPlan_nextCursor first).trans cursor) later ?_
      exact round (members plan List.mem_cons_self) first reached
  exact run event.runs _ (fun _ member => member) rfl rounds entry

end Mdbase.Runtime.Memory
