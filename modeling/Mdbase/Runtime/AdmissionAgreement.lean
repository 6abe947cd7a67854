import Mdbase.Runtime.Replay
import Mdbase.Runtime.Sqlite.Persistence

/-!
# The stores agree on admission

`admit_tx` on the tables of a state does what `admit` does on the state, plan
after plan. The two part only where one of them does not return: the interval
arithmetic of a plan leaves the range of `DateTime`, a plan is to be stored under
the id of a stored run, or a counter leaves the range of `i64`.
-/

namespace Mdbase.Runtime

open Library Memory Sqlite

/-- The minimum interval of a plan as a time span. -/
def intervalOf (interval : Nat) : Int := DateTime.milliseconds (min interval i64Max)

theorem intervalOf_nonneg (interval : Nat) : 0 ≤ intervalOf interval := by
  unfold intervalOf DateTime.milliseconds
  exact Int.mul_nonneg (Int.natCast_nonneg _) (by norm_num)

/-- A run of the plan's trigger that is less than the interval older than the
plan. -/
def recent (plan : PlannedRun) (interval : Nat) (run : RunRecord) : Bool :=
  run.plan.workflow = plan.workflow ∧ run.plan.trigger = plan.trigger ∧
    plan.createdAt < run.plan.createdAt + intervalOf interval

/-- An instant that `DateTime` can hold. -/
def Representable (instant : DateTime) : Prop :=
  DateTime.minUtc ≤ instant ∧ instant ≤ DateTime.maxUtc

instance (instant : DateTime) : Decidable (Representable instant) :=
  inferInstanceAs (Decidable (_ ∧ _))

theorem representable_of_stamped {instant : DateTime} (stamped : Stamped instant) :
    Representable instant := by
  have first := stamped.first
  have last := stamped.last
  simp only [Representable, DateTime.minUtc, DateTime.maxUtc, yearZero, yearTenThousand,
    dateTime_le_iff, dateTime_lt_iff] at *
  omega

theorem checkedAdd_interval {created : DateTime} (held : Representable created) (interval : Nat) :
    DateTime.checkedAdd created (intervalOf interval) =
      if created + intervalOf interval ≤ DateTime.maxUtc then some (created + intervalOf interval)
      else none := by
  have nonneg := intervalOf_nonneg interval
  have lower : DateTime.minUtc ≤ created + intervalOf interval := by
    have first := held.1
    simp only [dateTime_le_iff] at *
    omega
  simp only [DateTime.checkedAdd, lower, true_and]

theorem checkedAdd_neg_interval {created : DateTime} (held : Representable created)
    (interval : Nat) : DateTime.checkedAdd created (-intervalOf interval) =
      if DateTime.minUtc ≤ created - intervalOf interval then some (created - intervalOf interval)
      else none := by
  have nonneg := intervalOf_nonneg interval
  have upper : created + -intervalOf interval ≤ DateTime.maxUtc := by
    have last := held.2
    simp only [dateTime_le_iff] at *
    omega
  simp only [DateTime.checkedAdd, upper, and_true, sub_eq_add_neg]

variable {plan : PlannedRun}

/-- Whether an earlier plan falls into the debounce interval is decided by the first recent run. -/
theorem anyM_recent (planCreated : plan.createdAt ≤ DateTime.maxUtc) (interval : Nat)
    {runs : List RunRecord} (created : ∀ run ∈ runs, Representable run.plan.createdAt) :
    (runs.anyM fun run =>
      if run.plan.workflow = plan.workflow ∧ run.plan.trigger = plan.trigger then
        (DateTime.checkedAdd run.plan.createdAt (intervalOf interval)).map
          fun limit => decide (limit > plan.createdAt)
      else some false) =
    match runs.find? (recent plan interval) with
    | none => some false
    | some run =>
      if run.plan.createdAt + intervalOf interval ≤ DateTime.maxUtc then some true else none := by
  induction runs with
  | nil => rfl
  | cons run rest ih =>
    have later := ih fun other member => created other (List.mem_cons_of_mem _ member)
    rw [List.find?_cons, List.anyM, checkedAdd_interval (created run List.mem_cons_self)]
    by_cases matching : run.plan.workflow = plan.workflow ∧ run.plan.trigger = plan.trigger
    · by_cases young : plan.createdAt < run.plan.createdAt + intervalOf interval
      · have isRecent : recent plan interval run = true := by
          simp [recent, matching, young]
        rw [isRecent, if_pos matching]
        dsimp only
        split
        next inRange => simp [young]
        next outside => rfl
      · have notRecent : recent plan interval run = false := by
          simp [recent, young]
        have inRange : run.plan.createdAt + intervalOf interval ≤ DateTime.maxUtc :=
          (not_lt.mp young).trans planCreated
        rw [notRecent, if_pos matching, if_pos inRange, ← later]
        simp [young]
    · have notRecent : recent plan interval run = false := by
        simp only [recent, decide_eq_false_iff_not]
        exact fun both => matching ⟨both.1, both.2.1⟩
      rw [notRecent, if_neg matching, ← later]
      rfl

variable {state : MemoryState}

theorem minimumIntervalSuppresses_eq
    (created : ∀ run ∈ state.runs, Representable run.plan.createdAt)
    (planCreated : plan.createdAt ≤ DateTime.maxUtc) {interval : Nat}
    (limited : plan.minimumIntervalMs = some interval) :
    minimumIntervalSuppresses state plan =
      match state.runs.entries.find? (recent plan interval) with
      | none => some false
      | some run =>
        if run.plan.createdAt + intervalOf interval ≤ DateTime.maxUtc then some true else none := by
  rw [minimumIntervalSuppresses, limited]
  exact anyM_recent planCreated interval created

theorem representable_of_storable (storable : Storable state) :
    ∀ run ∈ state.runs, Representable run.plan.createdAt :=
  fun run member => representable_of_stamped (storable.instants run member).1

/-- The SQL check panics when the plan is closer to the first instant than its
interval. -/
theorem minimumIntervalSuppressesTx_persist (storable : Storable state)
    (planCreated : Stamped plan.createdAt) {interval : Nat}
    (limited : plan.minimumIntervalMs = some interval) :
    minimumIntervalSuppressesTx (persist state) plan =
      if DateTime.minUtc ≤ plan.createdAt - intervalOf interval then
        some (.ok (state.runs.entries.any (recent plan interval)))
      else none := by
  have nonneg := intervalOf_nonneg interval
  have whole : (plan.createdAt - intervalOf interval) % 1000000 = 0 := by
    rw [Int.sub_emod, planCreated.whole, intervalOf, DateTime.milliseconds, Int.mul_emod_left]
    rfl
  have last : plan.createdAt - intervalOf interval < yearTenThousand := by
    have last := planCreated.last
    simp only [dateTime_lt_iff] at *
    omega
  rw [minimumIntervalSuppressesTx, limited]
  dsimp only
  rw [show DateTime.milliseconds (min interval i64Max) = intervalOf interval from rfl,
    checkedAdd_neg_interval (representable_of_stamped planCreated)]
  split_ifs with inRange
  · simp only [persist, Table.image, List.any_map, pure, ExceptT.pure, ExceptT.mk]
    congr 2
    rw [Bool.eq_iff_iff, List.any_eq_true, List.any_eq_true]
    refine exists_congr fun run => and_congr_right fun stored => ?_
    have created := (storable.instants run stored).1
    have earlier := timestamp_lt_iff whole last created
    simp only [Function.comp_apply, runRow, insertedRow, storable.createdAt run stored, earlier,
      recent, decide_eq_true_eq]
    refine and_congr_right fun _ => and_congr_right fun _ => ?_
    simp only [dateTime_lt_iff]
    omega
  · rfl

variable {receivedAt : DateTime} {run cancelled : RunRecord}

/-- The tables after a cancellation was recorded: the row of the run is updated
in place. -/
theorem persist_recordCancellation (stored : run ∈ state.runs)
    (accepted : run.requestCancel receivedAt = some cancelled) :
    persist (recordCancellation state cancelled) =
      { persist state with
        runs := (persist state).runs.modify run.plan.id fun row =>
          row.update { cancelled with revision := cancelled.revision + 1 }
            ((cancelled.revision + 1 : Nat) : Int) } := by
  have found := Runs.get?_id stored
  have plan := (RunRecord.requestCancel_cancellation accepted).plan
  have createdAt := (RunRecord.requestCancel_cancellation accepted).createdAt
  refine Tables.ext_runs rfl rfl rfl fun id => ?_
  have inPlace : ∀ row : RunRow, (row.update { cancelled with revision := cancelled.revision + 1 }
      ((cancelled.revision + 1 : Nat) : Int)).id = row.id := fun _ => rfl
  rw [Table.get?_modify _ inPlace, persist_runs_get?, persist_runs_get?, recordCancellation_runs,
    Table.get?_insert]
  simp only [plan]
  split
  next here =>
    subst here
    rw [found]
    simp only [Option.map_some, Option.some.injEq, recordCancellation, leaseOf, plan]
    unfold RunRow.update runRow insertedRow
    split
    next terminal => simp [createdAt]
    next active => simp [createdAt]
  rename_i other
  have lease : leaseOf (recordCancellation state cancelled) id = leaseOf state id := by
    simp only [leaseOf, recordCancellation, plan]
    split
    next => rw [Table.get?_erase_of_ne _ other]
    next => rfl
  rw [lease]

/-- Cancelling one stored run: the statement fails when the next revision does
not fit its column. -/
theorem displaceTx_persist {requested : List String} (stored : run ∈ state.runs)
    (accepted : run.requestCancel receivedAt = some cancelled) :
    displaceTx receivedAt (persist state, requested) run.plan.id =
      if run.revision < i64Max then
        some (.ok (persist (recordCancellation state cancelled), requested ++ [run.plan.id]))
      else some (.error (.store "out of range integral type conversion attempted")) := by
  have found := Runs.get?_id stored
  have plan := (RunRecord.requestCancel_cancellation accepted).plan
  have revision := (RunRecord.requestCancel_cancellation accepted).revision
  simp only [displaceTx, persist_runs_get?, found, Option.map_some]
  have record : (runRow (leaseOf state run.plan.id) run).recordJson = run := rfl
  rw [record, accepted, persist_recordCancellation stored accepted]
  simp only [revisionParam, plan, revision, Nat.succ_le_iff]
  split_ifs
  · rfl
  · rfl

theorem Sqlite.Storable.recordCancellation (storable : Storable state) (stored : run ∈ state.runs)
    (accepted : run.requestCancel receivedAt = some cancelled) (bound : run.revision < i64Max) :
    Storable (Memory.recordCancellation state cancelled) := by
  have plan := (RunRecord.requestCancel_cancellation accepted).plan
  have revision := (RunRecord.requestCancel_cancellation accepted).revision
  have createdAt := (RunRecord.requestCancel_cancellation accepted).createdAt
  refine ⟨?_, ?_, ?_, ?_, storable.cursor, storable.journal⟩
  · intro other member
    rcases Table.mem_insert.mp member with rfl | ⟨member, _⟩
    · simpa [plan] using storable.instants run stored
    · exact storable.instants other member
  · intro other member
    rcases Table.mem_insert.mp member with rfl | ⟨member, _⟩
    · simpa [plan, createdAt] using storable.createdAt run stored
    · exact storable.createdAt other member
  · intro other member
    rcases Table.mem_insert.mp member with rfl | ⟨member, _⟩
    · simpa [revision] using bound
    · exact storable.revisions other member
  · intro entry member
    have before : entry ∈ state.runLeases := by
      simp only [Memory.recordCancellation] at member
      split at member
      next => exact (Table.mem_erase.mp member).1
      next => exact member
    obtain ⟨isStored, stamped⟩ := storable.leases entry before
    refine ⟨?_, stamped⟩
    rw [recordCancellation_runs, Table.get?_insert]
    split
    next => rfl
    next => exact isStored

/-- Displacing runs in the database is displacing them in memory, while revisions fit. -/
theorem displaceAllTx_persist {ids : List String} (nodup : ids.Nodup) (storable : Storable state)
    (active : ∀ id ∈ ids, ∃ run, state.runs.get? id = some run ∧ run.status.terminal = false)
    (requested : List String) :
    ((∀ id ∈ ids, ∀ run, state.runs.get? id = some run → run.revision < i64Max) →
      ids.foldlM (displaceTx receivedAt) (persist state, requested) =
        some (.ok (persist (ids.foldl (displace receivedAt) (state, requested)).1,
          (ids.foldl (displace receivedAt) (state, requested)).2)) ∧
      Storable (ids.foldl (displace receivedAt) (state, requested)).1) ∧
    (∀ progress, ids.foldlM (displaceTx receivedAt) (persist state, requested) =
        some (.ok progress) →
      ∀ id ∈ ids, ∀ run, state.runs.get? id = some run → run.revision < i64Max) := by
  induction ids generalizing state requested with
  | nil => exact ⟨fun _ => ⟨rfl, storable⟩, fun _ _ id member => absurd member List.not_mem_nil⟩
  | cons head rest ih =>
    obtain ⟨unlisted, restNodup⟩ := List.nodup_cons.mp nodup
    obtain ⟨run, found, open_⟩ := active head List.mem_cons_self
    obtain rfl := Runs.id_of_get? found
    have stored := Table.mem_of_get? found
    obtain ⟨cancelled, accepted⟩ : ∃ cancelled, run.requestCancel receivedAt = some cancelled := by
      rw [← Option.ne_none_iff_exists']
      intro refused
      rw [RunRecord.requestCancel_eq_none_iff, open_] at refused
      cases refused
    have plan := (RunRecord.requestCancel_cancellation accepted).plan
    have step : displace receivedAt (state, requested) run.plan.id =
        (recordCancellation state cancelled, requested ++ [run.plan.id]) := by
      simp only [displace, found, accepted]
    have others : ∀ id ∈ rest, (recordCancellation state cancelled).runs.get? id =
        state.runs.get? id := by
      intro id member
      rw [recordCancellation_runs, Table.get?_insert_of_ne]
      rintro rfl
      rw [plan] at member
      exact unlisted member
    have restActive : ∀ id ∈ rest, ∃ run,
        (recordCancellation state cancelled).runs.get? id = some run ∧
          run.status.terminal = false := by
      intro id member
      rw [others id member]
      exact active id (List.mem_cons_of_mem _ member)
    rw [List.foldlM_cons, List.foldl_cons, step, displaceTx_persist stored accepted]
    constructor
    · intro bounds
      have bound := bounds run.plan.id List.mem_cons_self run found
      rw [if_pos bound]
      refine (ih restNodup (storable.recordCancellation stored accepted bound) restActive
        (requested ++ [run.plan.id])).1 fun id member other otherFound => ?_
      rw [others id member] at otherFound
      exact bounds id (List.mem_cons_of_mem _ member) other otherFound
    · intro progress succeeded id member other otherFound
      split at succeeded
      next bound =>
        have later := (ih restNodup (storable.recordCancellation stored accepted bound) restActive
          (requested ++ [run.plan.id])).2 progress succeeded
        rcases List.mem_cons.mp member with rfl | member
        · rw [found] at otherFound
          cases otherFound
          exact bound
        · rw [← others id member] at otherFound
          exact later id member other otherFound
      next => cases succeeded

/-- The tables of the loop variables of an admission. -/
def persistLoop (loop : Memory.Admission) : Sqlite.Admission where
  tables := persist loop.state
  admitted := loop.admitted
  skipped := loop.skipped
  cancellationRequested := loop.cancellationRequested

variable {loop : Memory.Admission}

theorem Sqlite.Storable.storePlan (storable : Storable loop.state) (stamped : PlanStamped plan) :
    Storable (Memory.storePlan loop plan).state := by
  refine ⟨?_, ?_, ?_, ?_, storable.cursor, storable.journal⟩
  · intro run member
    rcases Table.mem_insert.mp member with rfl | ⟨member, _⟩
    · exact stamped
    · exact storable.instants run member
  · intro run member
    rcases Table.mem_insert.mp member with rfl | ⟨member, _⟩
    · rfl
    · exact storable.createdAt run member
  · intro run member
    rcases Table.mem_insert.mp member with rfl | ⟨member, _⟩
    · exact Nat.zero_le _
    · exact storable.revisions run member
  · intro entry member
    obtain ⟨isStored, expires⟩ := storable.leases entry member
    refine ⟨?_, expires⟩
    have looked : (Memory.storePlan loop plan).state.runs.get? entry.1 =
        if entry.1 = plan.id then some (RunRecord.admitted plan)
        else loop.state.runs.get? entry.1 := Table.get?_insert ..
    rw [looked]
    split
    next => rfl
    next => exact isStored

/-- Storing a plan in the database is storing it in memory, but for a taken id. -/
theorem storePlanTx_persist {loop : Memory.Admission} (storable : Storable loop.state)
    {plan : PlannedRun} (untaken : idempotencyTaken loop.state plan = false) :
    storePlanTx (persistLoop loop) plan =
      if loop.state.runs.get? plan.id = none then
        some (.ok (persistLoop (Memory.storePlan loop plan)))
      else some (.error (.store "UNIQUE constraint failed: runtime_runs.id")) := by
  cases found : loop.state.runs.get? plan.id with
  | none =>
    have leaseless : leaseOf loop.state plan.id = none := by
      rw [leaseOf, Option.map_eq_none_iff, Table.get?_eq_none_iff]
      intro entry member here
      have isStored := (storable.leases entry member).1
      rw [here, found] at isStored
      cases isStored
    have inserted : { persist loop.state with
        runs := (persist loop.state).runs.insert (insertedRow (RunRecord.admitted plan)) } =
          persist (Memory.storePlan loop plan).state := by
      refine Tables.ext_runs rfl rfl rfl fun id => ?_
      have looked : (Memory.storePlan loop plan).state.runs.get? id =
          if id = plan.id then some (RunRecord.admitted plan) else loop.state.runs.get? id :=
        Table.get?_insert ..
      have lease : leaseOf (Memory.storePlan loop plan).state id = leaseOf loop.state id := rfl
      rw [Table.get?_insert, persist_runs_get?, persist_runs_get?, looked, lease]
      change (if id = plan.id then _ else _) = _
      split
      next here =>
        rw [here, leaseless]
        rfl
      next => rfl
    simp only [storePlanTx, insertRun, persistLoop, persist_runs_get?, RunRecord.admitted_plan,
      found, Option.map_none, duplicateRun_persist, untaken]
    rw [← inserted]
    rfl
  | some run =>
    simp only [storePlanTx, insertRun, persistLoop, persist_runs_get?, RunRecord.admitted_plan,
      found]
    rfl

/-- The plan is stored once its minimum interval let it through. -/
def Stores (state : MemoryState) (receivedAt : DateTime) (plan : PlannedRun) : Prop :=
  idempotencyTaken (debounce state receivedAt plan) plan = false ∧
    ¬ (plan.concurrencyPolicy = .skip ∧
      activeGroupRuns (debounce state receivedAt plan) plan.concurrencyGroup ≠ [])

/-- The runs of a group can be cancelled: their next revision fits its column. -/
def Cancellable (state : MemoryState) (group : String) : Prop :=
  ∀ id ∈ activeGroupRuns state group, ∀ run, state.runs.get? id = some run → run.revision < i64Max

/-- A plan that is stored has an unused id, and a replacement cancels only runs
whose revision can grow. -/
structure Accommodates (state : MemoryState) (receivedAt : DateTime) (plan : PlannedRun) :
    Prop where
  fresh : Stores state receivedAt plan → (debounce state receivedAt plan).runs.get? plan.id = none
  revisions : Stores state receivedAt plan → plan.concurrencyPolicy = .replace →
    Cancellable (debounce state receivedAt plan) plan.concurrencyGroup

section Consider

variable {receivedAt : DateTime} {loop : Memory.Admission} {plan : PlannedRun}

/-- The loop variables after the active runs of a group were displaced. -/
def displaceGroup (receivedAt : DateTime) (loop : Memory.Admission) (group : String) :
    Memory.Admission :=
  let (state, requested) := (activeGroupRuns loop.state group).foldl (displace receivedAt)
    (loop.state, loop.cancellationRequested)
  { loop with state := state, cancellationRequested := requested }

theorem displaceGroup_get?_eq_none {group id : String} :
    (displaceGroup receivedAt loop group).state.runs.get? id = none ↔
      loop.state.runs.get? id = none := by
  have looked := displaceAll_runs_get? receivedAt (activeGroupRuns_nodup loop.state group)
    loop.state loop.cancellationRequested id
  have same : (displaceGroup receivedAt loop group).state.runs.get? id = _ := looked
  rw [same]
  split <;> simp

theorem displaceGroup_untaken {group : String}
    (untaken : idempotencyTaken loop.state plan = false) (blockers : List String) :
    idempotencyTaken (displaceGroup receivedAt loop group).state (plan.withBlockers blockers) =
      false := by
  rw [idempotencyTaken_eq_false_iff] at untaken ⊢
  intro run stored
  obtain ⟨old, oldStored, same⟩ :=
    displaceAll_mem_plan (activeGroupRuns_nodup loop.state group) stored
  rw [← same]
  exact untaken old oldStored

theorem displaceGroupTx_persist (storable : Storable loop.state) (group : String) :
    (Cancellable loop.state group →
      (activeGroupRuns loop.state group).foldlM (displaceTx receivedAt)
          (persist loop.state, loop.cancellationRequested) =
        some (.ok (persist (displaceGroup receivedAt loop group).state,
          (displaceGroup receivedAt loop group).cancellationRequested)) ∧
      Storable (displaceGroup receivedAt loop group).state) ∧
    (∀ progress, (activeGroupRuns loop.state group).foldlM (displaceTx receivedAt)
        (persist loop.state, loop.cancellationRequested) = some (.ok progress) →
      Cancellable loop.state group) := by
  refine displaceAllTx_persist (activeGroupRuns_nodup loop.state group) storable ?_ _
  intro id member
  obtain ⟨run, stored, rfl, _, occupies⟩ := mem_activeGroupRuns.mp member
  refine ⟨run, Runs.get?_id stored, ?_⟩
  cases status : run.status <;> simp_all [RunStatus.occupiesConcurrencyGroup, RunStatus.terminal]

/-- A replacement is stored exactly when the runs it displaces can be cancelled
and its id is unused. -/
theorem replacePlanTx_persist (storable : Storable loop.state) (stamped : PlanStamped plan)
    (untaken : idempotencyTaken loop.state plan = false) :
    (Cancellable loop.state plan.concurrencyGroup ∧ loop.state.runs.get? plan.id = none →
      replacePlanTx receivedAt (persistLoop loop) plan =
        some (.ok (persistLoop (replacePlan receivedAt loop plan))) ∧
      Storable (replacePlan receivedAt loop plan).state) ∧
    (∀ next, replacePlanTx receivedAt (persistLoop loop) plan = some (.ok next) →
      Cancellable loop.state plan.concurrencyGroup ∧ loop.state.runs.get? plan.id = none) := by
  obtain ⟨displaces, bounded⟩ :=
    @displaceGroupTx_persist receivedAt loop storable plan.concurrencyGroup
  have stores : Storable (displaceGroup receivedAt loop plan.concurrencyGroup).state → _ :=
    fun stays => storePlanTx_persist stays (displaceGroup_untaken untaken
      (activeGroupRuns loop.state plan.concurrencyGroup))
  have unfolded : replacePlanTx receivedAt (persistLoop loop) plan =
      (((activeGroupRuns loop.state plan.concurrencyGroup).foldlM (displaceTx receivedAt)
        (persist loop.state, loop.cancellationRequested) : Transaction _) >>= fun progress =>
          storePlanTx { persistLoop loop with
              tables := progress.1, cancellationRequested := progress.2 }
            (plan.withBlockers (activeGroupRuns loop.state plan.concurrencyGroup))) := by
    rw [replacePlanTx]
    simp only [persistLoop, activeGroupRunsTx_persist]
  rw [unfolded]
  constructor
  · rintro ⟨bounds, free⟩
    obtain ⟨displaced, stays⟩ := displaces bounds
    have stored := stores stays
    rw [if_pos (by exact displaceGroup_get?_eq_none.mpr free)] at stored
    rw [displaced]
    exact ⟨stored, stays.storePlan stamped⟩
  · intro next succeeded
    obtain ⟨progress, displaced, stored⟩ := Transaction.bind_eq_ok.mp succeeded
    have bounds := bounded progress displaced
    obtain ⟨displacedTo, stays⟩ := displaces bounds
    rw [displacedTo] at displaced
    cases displaced
    have attempt := stores stays
    refine ⟨bounds, ?_⟩
    by_contra used
    rw [if_neg (by exact fun free => used (displaceGroup_get?_eq_none.mp free))] at attempt
    have refused := attempt.symm.trans stored
    cases refused

/-- A plan that its minimum interval lets through is decided alike exactly when
it can be accommodated. -/
theorem considerPlanTx_persist (storable : Storable loop.state) (received : Stamped receivedAt)
    (stamped : PlanStamped plan) :
    (Accommodates loop.state receivedAt plan →
      considerPlanTx receivedAt (persistLoop loop) plan =
        some (.ok (persistLoop (considerPlan receivedAt loop plan))) ∧
      Storable (considerPlan receivedAt loop plan).state) ∧
    (∀ next, considerPlanTx receivedAt (persistLoop loop) plan = some (.ok next) →
      Accommodates loop.state receivedAt plan) := by
  have debounced := storable.debounce receivedAt plan
  have deleted : deleteObsolete (persistLoop loop).tables receivedAt plan =
      persist (debounce loop.state receivedAt plan) := deleteObsolete_persist storable received plan
  simp only [considerPlanTx, considerPlan, deleted, duplicateRun_persist, activeGroupRunsTx_persist]
  cases taken : idempotencyTaken (debounce loop.state receivedAt plan) plan with
  | true =>
    refine ⟨fun _ => ⟨rfl, debounced⟩, fun _ _ => ⟨fun stores => ?_, fun stores => ?_⟩⟩
    · simp [Stores, taken] at stores
    · simp [Stores, taken] at stores
  | false =>
    simp only [Bool.false_eq_true, if_false]
    by_cases skips : plan.concurrencyPolicy = .skip ∧
        activeGroupRuns (debounce loop.state receivedAt plan) plan.concurrencyGroup ≠ []
    · simp only [if_pos skips]
      exact ⟨fun _ => ⟨rfl, debounced⟩,
        fun _ _ => ⟨fun stores => absurd skips stores.2, fun stores => absurd skips stores.2⟩⟩
    · simp only [if_neg skips]
      have stores : Stores loop.state receivedAt plan := ⟨taken, skips⟩
      by_cases replaces : plan.concurrencyPolicy = .replace
      · simp only [if_pos replaces]
        obtain ⟨succeeds, needs⟩ := @replacePlanTx_persist receivedAt
          { loop with state := debounce loop.state receivedAt plan } plan debounced stamped taken
        refine ⟨fun accommodates => succeeds ⟨accommodates.revisions stores replaces,
          accommodates.fresh stores⟩, fun next succeeded => ?_⟩
        obtain ⟨cancellable, free⟩ := needs next succeeded
        exact ⟨fun _ => free, fun _ _ => cancellable⟩
      · simp only [if_neg replaces]
        have attempt := @storePlanTx_persist
          { loop with state := debounce loop.state receivedAt plan } debounced plan taken
        refine ⟨fun accommodates => ?_, fun next succeeded => ⟨fun _ => ?_, fun _ replaced =>
          absurd replaced replaces⟩⟩
        · rw [if_pos (by exact accommodates.fresh stores)] at attempt
          exact ⟨attempt, debounced.storePlan stamped⟩
        · by_contra used
          rw [if_neg (by exact used)] at attempt
          have refused := attempt.symm.trans succeeded
          cases refused

/-- What a plan needs at its turn for both stores to return: the interval
arithmetic of both stays in the range of `DateTime`, and the plan can be
accommodated if its interval lets it through. -/
structure Turn (state : MemoryState) (receivedAt : DateTime) (plan : PlannedRun) : Prop where
  earliest : ∀ interval, plan.minimumIntervalMs = some interval →
    DateTime.minUtc ≤ plan.createdAt - intervalOf interval
  limit : ∀ interval run, plan.minimumIntervalMs = some interval →
    state.runs.entries.find? (recent plan interval) = some run →
    run.plan.createdAt + intervalOf interval ≤ DateTime.maxUtc
  accommodates : minimumIntervalSuppresses state plan = some false →
    Accommodates state receivedAt plan

/-- The minimum-interval checks return the same answer when both stay in
range. -/
theorem suppresses_alike (storable : Storable loop.state) (created : Stamped plan.createdAt)
    (earliest : ∀ interval, plan.minimumIntervalMs = some interval →
      DateTime.minUtc ≤ plan.createdAt - intervalOf interval)
    (limit : ∀ interval run, plan.minimumIntervalMs = some interval →
      loop.state.runs.entries.find? (recent plan interval) = some run →
      run.plan.createdAt + intervalOf interval ≤ DateTime.maxUtc) :
    ∃ suppressed, minimumIntervalSuppresses loop.state plan = some suppressed ∧
      minimumIntervalSuppressesTx (persist loop.state) plan = some (.ok suppressed) := by
  cases limited : plan.minimumIntervalMs with
  | none =>
    refine ⟨false, ?_, ?_⟩
    · rw [minimumIntervalSuppresses, limited]
    · rw [minimumIntervalSuppressesTx, limited]
      rfl
  | some interval =>
    rw [minimumIntervalSuppresses_eq (representable_of_storable storable)
        (representable_of_stamped created).2 limited,
      minimumIntervalSuppressesTx_persist storable created limited,
      if_pos (earliest interval limited)]
    cases found : loop.state.runs.entries.find? (recent plan interval) with
    | none =>
      refine ⟨false, rfl, ?_⟩
      rw [List.any_eq_false.mpr fun run member =>
        List.find?_eq_none.mp found run member]
    | some run =>
      refine ⟨true, if_pos (limit interval run limited found), ?_⟩
      rw [List.any_eq_true.mpr ⟨run, List.mem_of_find?_eq_some found, List.find?_some found⟩]

theorem intervals_of_returned (storable : Storable loop.state) (created : Stamped plan.createdAt)
    {suppressed answer : Bool}
    (returned : minimumIntervalSuppresses loop.state plan = some suppressed)
    (answered : minimumIntervalSuppressesTx (persist loop.state) plan = some (.ok answer)) :
    (∀ interval, plan.minimumIntervalMs = some interval →
      DateTime.minUtc ≤ plan.createdAt - intervalOf interval) ∧
    (∀ interval run, plan.minimumIntervalMs = some interval →
      loop.state.runs.entries.find? (recent plan interval) = some run →
      run.plan.createdAt + intervalOf interval ≤ DateTime.maxUtc) := by
  constructor
  · intro interval limited
    rw [minimumIntervalSuppressesTx_persist storable created limited] at answered
    by_contra outside
    rw [if_neg outside] at answered
    cases answered
  · intro interval run limited found
    rw [minimumIntervalSuppresses_eq (representable_of_storable storable)
      (representable_of_stamped created).2 limited, found] at returned
    by_contra outside
    dsimp only at returned
    rw [if_neg outside] at returned
    cases returned

/-- One round goes alike in both stores exactly when the plan has what it needs
at its turn. -/
theorem admitPlanTx_persist (storable : Storable loop.state) (received : Stamped receivedAt)
    (stamped : PlanStamped plan) (cursor : Nat) :
    (Turn loop.state receivedAt (plan.withCursor cursor) →
      ∃ next, admitPlan cursor receivedAt loop plan = some next ∧
        admitPlanTx cursor receivedAt (persistLoop loop) plan = some (.ok (persistLoop next)) ∧
        Storable next.state) ∧
    (∀ next answer, admitPlan cursor receivedAt loop plan = some next →
      admitPlanTx cursor receivedAt (persistLoop loop) plan = some (.ok answer) →
      Turn loop.state receivedAt (plan.withCursor cursor)) := by
  obtain ⟨succeeds, needs⟩ := @considerPlanTx_persist receivedAt loop (plan.withCursor cursor)
    storable received stamped
  have created : Stamped (plan.withCursor cursor).createdAt := stamped.1
  constructor
  · intro turn
    obtain ⟨suppressed, returned, answered⟩ :=
      suppresses_alike storable created turn.earliest turn.limit
    have queried : minimumIntervalSuppressesTx (persistLoop loop).tables
        (plan.withCursor cursor) = some (.ok suppressed) := answered
    simp only [admitPlan, admitPlanTx, returned, queried, Option.map_some]
    cases suppressed with
    | true => exact ⟨_, rfl, rfl, storable⟩
    | false =>
      obtain ⟨decided, stays⟩ := succeeds (turn.accommodates returned)
      exact ⟨_, rfl, decided, stays⟩
  · intro next answer admitted answered
    obtain ⟨suppressed, returned, _⟩ := Option.map_eq_some_iff.mp admitted
    obtain ⟨alike, queried, decided⟩ := Transaction.bind_eq_ok.mp answered
    obtain ⟨earliest, limit⟩ := intervals_of_returned storable created returned queried
    refine ⟨earliest, limit, fun passes => ?_⟩
    obtain ⟨same, sameReturned, sameQueried⟩ := suppresses_alike storable created earliest limit
    rw [passes] at sameReturned
    cases sameReturned
    have unsuppressed := sameQueried.symm.trans queried
    cases unsuppressed
    exact needs answer decided

end Consider

/-- Every plan of a list has what it needs at its turn. -/
def Turns (cursor : Nat) (receivedAt : DateTime) : Memory.Admission → List PlannedRun → Prop
  | _, [] => True
  | loop, plan :: rest =>
    Turn loop.state receivedAt (plan.withCursor cursor) ∧
      ∀ next, admitPlan cursor receivedAt loop plan = some next → Turns cursor receivedAt next rest

/-- The loops over the plans go alike exactly when every plan has what it needs
at its turn. -/
theorem admitPlansTx_persist {cursor : Nat}
    {plans : List PlannedRun} (storable : Storable loop.state) (received : Stamped receivedAt)
    (stamped : ∀ plan ∈ plans, PlanStamped plan) :
    (Turns cursor receivedAt loop plans →
      ∃ last, admitPlans cursor receivedAt loop plans = some last ∧
        plans.foldlM (admitPlanTx cursor receivedAt) (persistLoop loop) =
          some (.ok (persistLoop last)) ∧ Storable last.state) ∧
    (∀ last answer, admitPlans cursor receivedAt loop plans = some last →
      plans.foldlM (admitPlanTx cursor receivedAt) (persistLoop loop) = some (.ok answer) →
      Turns cursor receivedAt loop plans) := by
  induction plans generalizing loop with
  | nil => exact ⟨fun _ => ⟨loop, rfl, rfl, storable⟩, fun _ _ _ _ => trivial⟩
  | cons plan rest ih =>
    obtain ⟨succeeds, needs⟩ := @admitPlanTx_persist receivedAt loop plan storable received
      (stamped plan List.mem_cons_self) cursor
    have restStamped : ∀ other ∈ rest, PlanStamped other :=
      fun other member => stamped other (List.mem_cons_of_mem _ member)
    rw [admitPlans, List.foldlM_cons, List.foldlM_cons, Turns]
    constructor
    · rintro ⟨turn, later⟩
      obtain ⟨next, first, firstTx, nextStorable⟩ := succeeds turn
      obtain ⟨last, onward, onwardTx, stays⟩ := (ih nextStorable restStamped).1 (later next first)
      refine ⟨last, ?_, ?_, stays⟩
      · rw [first]
        exact onward
      · rw [firstTx]
        exact onwardTx
    · intro last answer admitted answered
      obtain ⟨next, first, onward⟩ := Option.bind_eq_some_iff.mp admitted
      obtain ⟨middle, firstTx, onwardTx⟩ := Transaction.bind_eq_ok.mp answered
      have turn := needs next middle first firstTx
      refine ⟨turn, fun other same => ?_⟩
      obtain ⟨reached, reachedFirst, reachedTx, reachedStorable⟩ := succeeds turn
      obtain rfl : reached = next := Option.some.inj (reachedFirst.symm.trans first)
      obtain rfl : reached = other := Option.some.inj (reachedFirst.symm.trans same)
      have alike := reachedTx.symm.trans firstTx
      cases alike
      exact (ih reachedStorable restStamped).2 last answer onward onwardTx

/-- The instants of an event and of its plans are stored exactly. -/
structure EventStamped (event : PreparedEvent) : Prop where
  received : Stamped event.receivedAt
  plans : ∀ plan ∈ event.runs, PlanStamped plan

/-- Both stores admit the event with one outcome and reach states that again
correspond. -/
def AdmitsAlike (state : MemoryState) (event : PreparedEvent) : Prop :=
  ∃ next outcome, admit_ state event = some (next, outcome) ∧
    admitTx (persist state) event = some (.ok (persist next, outcome)) ∧ Storable next

theorem dedup_persist (state : MemoryState) (key : String ×ₗ String) :
    (persist state).eventDedup.get? key = (state.eventIndex.get? key).map dedupRow := by
  have keys : ∀ entry, (dedupRow entry).key = entry.1 := fun _ => rfl
  exact Table.get?_image state.eventIndex keys key

/-- Journalling a new event commutes with the tables as long as a cursor is
left. -/
theorem insertEvent_persist (storable : Storable state) {event : PreparedEvent}
    (unseen : state.eventIndex.get? (toLex (event.sourceRuntime, event.eventId)) = none) :
    insertEvent (persist state) event =
      if state.nextCursor = i64Max then some (.error (.store "database or disk is full"))
      else some (.ok (persist (journal state event), ((state.nextCursor + 1 : Nat) : Int))) := by
  have absent : ((persist state).events.any fun row =>
      row.sourceRuntime = event.sourceRuntime ∧ row.eventId = event.eventId) = false := by
    rw [List.any_eq_false]
    intro row member
    obtain ⟨entry, stored, rfl⟩ := List.mem_map.mp member
    simp only [decide_eq_true_eq]
    rintro ⟨source, id⟩
    have indexed := storable.journal entry stored
    have same : toLex (entry.sourceRuntime, entry.eventId) =
        toLex (event.sourceRuntime, event.eventId) := by
      rw [← source, ← id]
      rfl
    rw [same, unseen] at indexed
    cases indexed
  have full : (persist state).sequence = i64Max ↔ state.nextCursor = i64Max := Int.natCast_inj
  rw [insertEvent, absent]
  simp only [Bool.false_eq_true, if_false, full]
  split
  next => rfl
  have tables : persist (journal state event) =
      { persist state with
        sequence := (persist state).sequence + 1
        events := (persist state).events ++ [{
          cursor := (persist state).sequence + 1
          sourceRuntime := event.sourceRuntime
          eventId := event.eventId
          envelopeJson := event.envelope
          receivedAt := timestamp event.receivedAt }]
        eventDedup := (persist state).eventDedup.insert {
          sourceRuntime := event.sourceRuntime
          eventId := event.eventId
          cursor := (persist state).sequence + 1 } } := by
    refine Tables.ext_runs rfl ?_ ?_ fun id => ?_
    · exact List.map_append
    · ext1 key
      rw [dedup_persist, Table.get?_insert, dedup_persist, journal, Table.get?_insert]
      change Option.map dedupRow (if key = toLex (event.sourceRuntime, event.eventId) then _
        else _) = if key = toLex (event.sourceRuntime, event.eventId) then _ else _
      split
      next => rfl
      next => rfl
    · rw [persist_runs_get?, persist_runs_get?]
      rfl
  rw [tables]
  rfl

theorem Sqlite.Storable.journalled (storable : Storable state)
    (event : PreparedEvent) (left : state.nextCursor < i64Max) :
    Storable (Memory.journal state event) := by
  refine ⟨storable.instants, storable.createdAt, storable.revisions, storable.leases, left, ?_⟩
  intro entry member
  have looked : ∀ key, (Memory.journal state event).eventIndex.get? key =
      if key = toLex (event.sourceRuntime, event.eventId) then
        some (toLex (event.sourceRuntime, event.eventId), state.nextCursor + 1)
      else state.eventIndex.get? key := fun key => Table.get?_insert ..
  rw [looked]
  split
  next => rfl
  rename_i other
  rcases List.mem_append.mp member with member | member
  · exact storable.journal entry member
  · rw [List.mem_singleton.mp member] at other
    exact absurd rfl other

/-- The two stores admit an event alike exactly when it is a duplicate, or a
cursor is left and every plan has what it needs at its turn. -/
theorem admissions_agree_iff {state : MemoryState} {event : PreparedEvent}
    (storable : Storable state) (stamped : EventStamped event) :
    AdmitsAlike state event ↔
      (state.eventIndex.get? (toLex (event.sourceRuntime, event.eventId)) = none →
        state.nextCursor < i64Max ∧
        Turns (state.nextCursor + 1) event.receivedAt ⟨journal state event, [], [], []⟩
          event.runs) := by
  cases seen : state.eventIndex.get? (toLex (event.sourceRuntime, event.eventId)) with
  | some entry =>
    constructor
    · intro _ unseen
      cases unseen
    · intro _
      refine ⟨state, _, by rw [admit_, seen], ?_, storable⟩
      rw [admitTx, dedup_persist, seen]
      rfl
  | none =>
    have inserted := insertEvent_persist storable seen
    constructor
    · rintro ⟨next, outcome, admitted, answered, _⟩ _
      rw [admitTx, dedup_persist, seen] at answered
      obtain ⟨⟨tables, rowid⟩, insertedTo, answered⟩ := Transaction.bind_eq_ok.mp answered
      obtain ⟨cursor, column, answered⟩ := Transaction.bind_eq_ok.mp answered
      obtain ⟨answer, loops, _⟩ := Transaction.bind_eq_ok.mp answered
      rw [inserted] at insertedTo
      split at insertedTo
      next => cases insertedTo
      rename_i notFull
      have left : state.nextCursor < i64Max := lt_of_le_of_ne storable.cursor notFull
      cases insertedTo
      cases column
      simp only [admit_, seen] at admitted
      obtain ⟨last, rounds, _⟩ := Option.map_eq_some_iff.mp admitted
      exact ⟨left, (admitPlansTx_persist (storable.journalled event left) stamped.received
        stamped.plans).2 last answer rounds loops⟩
    · intro needs
      obtain ⟨left, turns⟩ := needs rfl
      obtain ⟨last, rounds, loops, stays⟩ := (admitPlansTx_persist
        (storable.journalled event left) stamped.received stamped.plans).1 turns
      rw [if_neg left.ne] at inserted
      let outcome : AdmitOutcome := {
        cursor := state.nextCursor + 1
        duplicate := false
        admittedRunIds := last.admitted
        skippedRunIds := last.skipped
        cancellationRequestedRunIds := sortDedup last.cancellationRequested }
      refine ⟨last.state, outcome, ?_, ?_, stays⟩
      · simp only [admit_, seen]
        exact Option.map_eq_some_iff.mpr ⟨last, rounds, rfl⟩
      · rw [admitTx, dedup_persist, seen]
        refine Transaction.bind_eq_ok.mpr ⟨_, inserted, ?_⟩
        refine Transaction.bind_eq_ok.mpr ⟨state.nextCursor + 1, rfl, ?_⟩
        exact Transaction.bind_eq_ok.mpr ⟨persistLoop last, loops, rfl⟩

theorem Sqlite.Storable.new : Storable .new := by
  constructor <;> simp [MemoryState.new]

/-- A plan that is suppressed by younger runs of its trigger. -/
def limitedPlan (interval : Nat) : PlannedRun :=
  { samplePlan "r" "k" "g" .queue 0 with minimumIntervalMs := some interval }

theorem admissions_agree_within_interval :
    AdmitsAlike .new (sampleEvent "e" 0 [limitedPlan 60000]) := by
  refine (admissions_agree_iff Storable.new ⟨by decide, ?_⟩).mpr fun _ => ⟨by decide, ⟨?_, ?_⟩⟩
  · intro plan member
    rw [sampleEvent, List.mem_singleton] at member
    rw [member]
    exact ⟨by decide, by decide⟩
  · constructor
    · intro interval same
      cases same
      decide +kernel
    · intro interval run _ found
      cases found
    · intro _
      exact ⟨fun _ => rfl, fun _ replaces => by cases replaces⟩
  · exact fun _ _ => trivial

/-- An interval of 300 thousand years: the in-memory store admits the plan, the
SQLite store panics. -/
theorem admissions_differ_on_long_interval :
    Storable .new ∧ EventStamped (sampleEvent "e" 0 [limitedPlan 9500000000000000]) ∧
    (admit_ .new (sampleEvent "e" 0 [limitedPlan 9500000000000000])).isSome = true ∧
    admitTx (persist .new) (sampleEvent "e" 0 [limitedPlan 9500000000000000]) = none ∧
    ¬ AdmitsAlike .new (sampleEvent "e" 0 [limitedPlan 9500000000000000]) := by
  have panics : admitTx (persist .new) (sampleEvent "e" 0 [limitedPlan 9500000000000000]) =
      none := by
    rw [← Option.isNone_iff_eq_none]
    decide +kernel
  refine ⟨Storable.new, ⟨by decide, ?_⟩, by decide +kernel, panics, ?_⟩
  · intro plan member
    rw [sampleEvent, List.mem_singleton] at member
    rw [member]
    exact ⟨by decide, by decide⟩
  · rintro ⟨next, outcome, _, answered, _⟩
    rw [panics] at answered
    cases answered

end Mdbase.Runtime
