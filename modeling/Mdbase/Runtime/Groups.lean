import Mdbase.Runtime.History

/-!
# Concurrency groups

Runs of one group take turns. A change of the stored runs is quiet (runs end or
are removed from the queue), stores a queued run under the newest cursor, or
starts a run that its group lets through. `Grouped` is preserved by the three
kinds, and says in every reached store that at most one run of a group that does
not allow company is running, that it is ahead of every queued run of the group,
and that the runs a replacement displaced stay in the store.
-/

namespace Mdbase.Runtime

open Library Relation Memory

/-- A later version of a run that was not started in between. -/
structure Settled (old run : RunRecord) : Prop where
  plan : run.plan = old.plan
  startedAt : run.startedAt = old.startedAt
  status : run.status = old.status ∨ (old.status.terminal = false ∧ run.status.terminal = true)

namespace Settled

theorem refl (run : RunRecord) : Settled run run := ⟨rfl, rfl, .inl rfl⟩

theorem status_eq {old run : RunRecord} (settled : Settled old run)
    (active : run.status.terminal = false) : run.status = old.status := by
  rcases settled.status with same | ⟨_, terminal⟩
  · exact same
  · rw [active] at terminal
    cases terminal

theorem status_of_terminal {old run : RunRecord} (settled : Settled old run)
    (terminal : old.status.terminal = true) : run.status = old.status := by
  rcases settled.status with same | ⟨active, _⟩
  · exact same
  · rw [terminal] at active
    cases active

end Settled

/-- A change that stores no run and starts none; only queued runs disappear. -/
structure Quiet (store next : MemoryState) : Prop where
  cursor : store.nextCursor ≤ next.nextCursor
  back : ∀ run ∈ next.runs, ∃ old ∈ store.runs, Settled old run
  forth : ∀ old ∈ store.runs, old.status ≠ .queued → ∃ run ∈ next.runs, Settled old run

namespace Quiet

theorem of_runs_eq {store next : MemoryState} (cursor : store.nextCursor ≤ next.nextCursor)
    (same : next.runs = store.runs) : Quiet store next where
  cursor := cursor
  back run stored := ⟨run, same ▸ stored, .refl run⟩
  forth old stored _ := ⟨old, same ▸ stored, .refl old⟩

theorem insert {store : MemoryState} {old run : RunRecord} (leases : Leases)
    (stored : old ∈ store.runs) (settled : Settled old run) :
    Quiet store { store with runs := store.runs.insert run, runLeases := leases } where
  cursor := le_refl _
  back other otherStored := by
    rcases Table.mem_insert.mp otherStored with rfl | ⟨otherStored, _⟩
    · exact ⟨old, stored, settled⟩
    · exact ⟨other, otherStored, .refl other⟩
  forth other otherStored _ := by
    by_cases here : other.plan.id = run.plan.id
    · have same : other = old :=
        Runs.eq_of_id otherStored stored (here.trans (congrArg PlannedRun.id settled.plan))
      exact ⟨run, Table.mem_insert.mpr (.inl rfl), same ▸ settled⟩
    · exact ⟨other, Table.mem_insert.mpr (.inr ⟨otherStored, here⟩), .refl other⟩

/-- A recorded cancellation is quiet: it stores no run and starts none. -/
theorem cancel {store : MemoryState} {run cancelled : RunRecord} {now : DateTime}
    (stored : run ∈ store.runs) (accepted : run.requestCancel now = some cancelled) :
    Quiet store (recordCancellation store cancelled) := by
  have effect := RunRecord.requestCancel_cancellation accepted
  refine insert _ stored ⟨effect.plan, effect.startedAt, ?_⟩
  dsimp only
  rw [effect.status]
  by_cases running : run.status = .running
  · exact .inl (by simp [running])
  · exact .inr ⟨effect.active, by simp [running, RunStatus.terminal]⟩

theorem remove {store : MemoryState} {id : String} (leases : Leases)
    (queued : ∀ run, store.runs.get? id = some run → run.status = .queued) :
    Quiet store { store with runs := store.runs.erase id, runLeases := leases } where
  cursor := le_refl _
  back run stored := ⟨run, (Table.mem_erase.mp stored).1, .refl run⟩
  forth old stored started := by
    refine ⟨old, Table.mem_erase.mpr ⟨stored, ?_⟩, .refl old⟩
    rintro rfl
    exact started (queued old (Runs.get?_id stored))

theorem commit {store : MemoryState} {held run : RunRecord} (stored : held ∈ store.runs)
    (commit : EngineCommit held run) : Quiet store (installRun store run) := by
  refine insert _ stored ⟨commit.plan, commit.startedAt, ?_⟩
  rcases commit.status with running | terminal
  · exact .inl (running.trans commit.running.symm)
  · exact .inr ⟨by rw [commit.running]; rfl, terminal⟩

end Quiet

/-- A run that does not allow company is let through when no other run of its
group keeps it back and none of the runs it replaces is indeterminate. -/
theorem groupIsRunnable_iff {store : MemoryState} {run : RunRecord} :
    groupIsRunnable store run = true ↔ run.plan.concurrencyPolicy = .allow ∨
      ((∀ other ∈ store.runs, blocks other run = false) ∧
        ∀ id ∈ run.plan.replacementBlockers, isIndeterminate store id = false) := by
  unfold groupIsRunnable
  split
  next allows => simp [allows]
  next alone => simp [alone, Table.mem_def]

theorem blocks_of_running {other run : RunRecord} (different : other.plan.id ≠ run.plan.id)
    (sameGroup : other.plan.concurrencyGroup = run.plan.concurrencyGroup)
    (running : other.status = .running) : blocks other run = true := by
  simp [blocks, different, sameGroup, running]

theorem queueKey_lt_of_not_blocks {other run : RunRecord} (different : other.plan.id ≠ run.plan.id)
    (sameGroup : other.plan.concurrencyGroup = run.plan.concurrencyGroup)
    (queued : other.status = .queued) (free : blocks other run = false) :
    queueKey run < queueKey other := by
  have behind : ¬ queueKey other < queueKey run := by
    intro ahead
    simp [blocks, different, sameGroup, queued, ahead] at free
  have apart : queueKey run ≠ queueKey other := by
    intro same
    exact different (congrArg (fun key => (ofLex key).2) same).symm
  exact lt_of_le_of_ne (not_lt.mp behind) apart

/-- A stored run is over and its outcome is known. -/
def Resolved (store : MemoryState) (id : String) : Prop :=
  ∃ other ∈ store.runs, other.plan.id = id ∧ other.status.terminal = true ∧
    other.status ≠ .indeterminate

theorem Resolved.quiet {store next : MemoryState} {id : String} (resolved : Resolved store id)
    (quiet : Quiet store next) : Resolved next id := by
  obtain ⟨other, stored, rfl, terminal, known⟩ := resolved
  obtain ⟨later, laterStored, settled⟩ := quiet.forth other stored
    (fun queued => by rw [queued] at terminal; cases terminal)
  have same := settled.status_of_terminal terminal
  exact ⟨later, laterStored, by rw [settled.plan], by rw [same]; exact terminal,
    by rw [same]; exact known⟩

/-- The stored runs are in order, group by group. -/
structure Grouped (store : MemoryState) : Prop where
  cursors : ∀ run ∈ store.runs, run.plan.eventCursor ≤ store.nextCursor
  moving : ∀ run ∈ store.runs, run.status ≠ .waiting
  started : ∀ run ∈ store.runs, run.status = .running → run.startedAt.isSome = true
  exclusive : ∀ left ∈ store.runs, ∀ right ∈ store.runs,
    left.plan.concurrencyPolicy ≠ .allow → right.plan.concurrencyPolicy ≠ .allow →
    left.status = .running → right.status = .running →
    left.plan.concurrencyGroup = right.plan.concurrencyGroup → left.plan.id = right.plan.id
  first : ∀ run ∈ store.runs, ∀ other ∈ store.runs, run.plan.concurrencyPolicy ≠ .allow →
    run.status = .running → other.status = .queued →
    other.plan.concurrencyGroup = run.plan.concurrencyGroup → queueKey run < queueKey other
  displaced : ∀ run ∈ store.runs, run.plan.concurrencyPolicy = .replace →
    ∀ id ∈ run.plan.replacementBlockers, id ≠ run.plan.id ∧ ∃ other ∈ store.runs,
      other.plan.id = id ∧ other.plan.concurrencyGroup = run.plan.concurrencyGroup ∧
      other.status ≠ .queued
  clear : ∀ run ∈ store.runs, run.plan.concurrencyPolicy = .replace → run.status = .running →
    ∀ id ∈ run.plan.replacementBlockers, Resolved store id

namespace Grouped

variable {store next : MemoryState}

theorem new : Grouped .new := by
  constructor <;> intro run stored <;> cases stored

/-- Quiet changes of the runs keep the groups in order. -/
theorem quiet (grouped : Grouped store) (quiet : Quiet store next) : Grouped next where
  cursors run stored := by
    obtain ⟨old, oldStored, settled⟩ := quiet.back run stored
    rw [settled.plan]
    exact (grouped.cursors old oldStored).trans quiet.cursor
  moving run stored waiting := by
    obtain ⟨old, oldStored, settled⟩ := quiet.back run stored
    have before := settled.status_eq (by rw [waiting]; rfl)
    exact grouped.moving old oldStored (before.symm.trans waiting)
  started run stored running := by
    obtain ⟨old, oldStored, settled⟩ := quiet.back run stored
    have before := settled.status_eq (by rw [running]; rfl)
    rw [settled.startedAt]
    exact grouped.started old oldStored (before.symm.trans running)
  exclusive left leftStored right rightStored := by
    obtain ⟨oldLeft, oldLeftStored, leftSettled⟩ := quiet.back left leftStored
    obtain ⟨oldRight, oldRightStored, rightSettled⟩ := quiet.back right rightStored
    rw [leftSettled.plan, rightSettled.plan]
    intro leftAlone rightAlone leftRunning rightRunning sameGroup
    have leftBefore := leftSettled.status_eq (by rw [leftRunning]; rfl)
    have rightBefore := rightSettled.status_eq (by rw [rightRunning]; rfl)
    exact grouped.exclusive oldLeft oldLeftStored oldRight oldRightStored leftAlone rightAlone
      (leftBefore.symm.trans leftRunning) (rightBefore.symm.trans rightRunning) sameGroup
  first run stored other otherStored := by
    obtain ⟨old, oldStored, settled⟩ := quiet.back run stored
    obtain ⟨oldOther, oldOtherStored, otherSettled⟩ := quiet.back other otherStored
    unfold queueKey
    rw [settled.plan, otherSettled.plan]
    intro alone running queued sameGroup
    have before := settled.status_eq (by rw [running]; rfl)
    have otherBefore := otherSettled.status_eq (by rw [queued]; rfl)
    exact grouped.first old oldStored oldOther oldOtherStored alone
      (before.symm.trans running) (otherBefore.symm.trans queued) sameGroup
  displaced run stored replaces id listed := by
    obtain ⟨old, oldStored, settled⟩ := quiet.back run stored
    rw [settled.plan] at replaces listed ⊢
    obtain ⟨different, blocker, blockerStored, rfl, sameGroup, left⟩ :=
      grouped.displaced old oldStored replaces id listed
    obtain ⟨later, laterStored, laterSettled⟩ := quiet.forth blocker blockerStored left
    refine ⟨different, later, laterStored, by rw [laterSettled.plan],
      by rw [laterSettled.plan, sameGroup], fun queued => ?_⟩
    exact left ((laterSettled.status_eq (by rw [queued]; rfl)).symm.trans queued)
  clear run stored replaces running id listed := by
    obtain ⟨old, oldStored, settled⟩ := quiet.back run stored
    have before := settled.status_eq (by rw [running]; rfl)
    rw [settled.plan] at replaces listed
    exact (grouped.clear old oldStored replaces (before.symm.trans running) id listed).quiet quiet

theorem admitted {plan : PlannedRun} (grouped : Grouped store)
    (earlier : ∀ run ∈ store.runs, run.status = .running → run.plan.eventCursor < store.nextCursor)
    (cursor : plan.eventCursor = store.nextCursor) (absent : store.runs.get? plan.id = none)
    (displacement : plan.concurrencyPolicy = .replace → Displacement store plan) :
    Grouped { store with runs := store.runs.insert (RunRecord.admitted plan) } := by
  have apart : ∀ run ∈ store.runs, run.plan.id ≠ plan.id := Table.get?_eq_none_iff.mp absent
  have keeps : ∀ run ∈ store.runs, run ∈ store.runs.insert (RunRecord.admitted plan) :=
    fun run stored => Table.mem_insert.mpr (.inr ⟨stored, apart run stored⟩)
  constructor
  · intro run stored
    rcases Table.mem_insert.mp stored with rfl | ⟨stored, _⟩
    · exact cursor.le
    · exact grouped.cursors run stored
  · intro run stored
    rcases Table.mem_insert.mp stored with rfl | ⟨stored, _⟩
    · simp
    · exact grouped.moving run stored
  · intro run stored running
    rcases Table.mem_insert.mp stored with rfl | ⟨stored, _⟩
    · cases running
    · exact grouped.started run stored running
  · intro left leftStored right rightStored leftAlone rightAlone leftRunning rightRunning
    rcases Table.mem_insert.mp leftStored with rfl | ⟨leftStored, _⟩
    · cases leftRunning
    rcases Table.mem_insert.mp rightStored with rfl | ⟨rightStored, _⟩
    · cases rightRunning
    exact grouped.exclusive left leftStored right rightStored leftAlone rightAlone
      leftRunning rightRunning
  · intro run stored other otherStored alone running queued sameGroup
    rcases Table.mem_insert.mp stored with rfl | ⟨stored, _⟩
    · cases running
    rcases Table.mem_insert.mp otherStored with rfl | ⟨otherStored, _⟩
    · have ahead := earlier run stored running
      rw [← cursor] at ahead
      exact Prod.Lex.toLex_lt_toLex.mpr (.inl ahead)
    · exact grouped.first run stored other otherStored alone running queued sameGroup
  · intro run stored replaces id listed
    rcases Table.mem_insert.mp stored with rfl | ⟨stored, _⟩
    · obtain ⟨blocker, blockerStored, rfl, sameGroup, settled⟩ :=
        (displacement replaces).settled id listed
      refine ⟨apart blocker blockerStored, blocker, keeps blocker blockerStored, rfl, sameGroup, ?_⟩
      rcases settled with status | status <;> simp [status]
    · obtain ⟨different, blocker, blockerStored, rest⟩ :=
        grouped.displaced run stored replaces id listed
      exact ⟨different, blocker, keeps blocker blockerStored, rest⟩
  · intro run stored replaces running id listed
    rcases Table.mem_insert.mp stored with rfl | ⟨stored, _⟩
    · cases running
    · obtain ⟨blocker, blockerStored, rest⟩ := grouped.clear run stored replaces running id listed
      exact ⟨blocker, keeps blocker blockerStored, rest⟩

/-- The runs displaced by a replacement that its group lets through are over and
their outcome is known. -/
theorem resolved_of_runnable {run : RunRecord} (grouped : Grouped store) (stored : run ∈ store.runs)
    (replaces : run.plan.concurrencyPolicy = .replace) (runnable : groupIsRunnable store run = true)
    {id : String} (listed : id ∈ run.plan.replacementBlockers) : Resolved store id := by
  obtain ⟨different, blocker, blockerStored, rfl, sameGroup, left⟩ :=
    grouped.displaced run stored replaces id listed
  rcases groupIsRunnable_iff.mp runnable with allows | ⟨unblocked, known⟩
  · rw [replaces] at allows
    cases allows
  have idle : blocker.status ≠ .running := by
    intro running
    have blocked := blocks_of_running different sameGroup running
    rw [unblocked blocker blockerStored] at blocked
    cases blocked
  have determined : blocker.status ≠ .indeterminate := by
    have unknown := known blocker.plan.id listed
    simpa [isIndeterminate, Runs.get?_id blockerStored] using unknown
  have moving := grouped.moving blocker blockerStored
  refine ⟨blocker, blockerStored, rfl, ?_, determined⟩
  cases status : blocker.status <;> simp_all [RunStatus.terminal]

/-- Starting a runnable run keeps its group exclusive and in order. -/
theorem start {run : RunRecord} {now : DateTime} {leases : Leases} (grouped : Grouped store)
    (stored : run ∈ store.runs) (queued : run.status = .queued)
    (runnable : groupIsRunnable store run = true) :
    Grouped { store with runs := store.runs.insert (startRun run now), runLeases := leases } := by
  have plan : (startRun run now).plan = run.plan := startRun_plan run now
  have status : (startRun run now).status = .running := by simp [startRun, queued]
  have startedAt : (startRun run now).startedAt.isSome = true := by simp [startRun, queued]
  have free : run.plan.concurrencyPolicy ≠ .allow →
      (∀ other ∈ store.runs, blocks other run = false) ∧
        ∀ id ∈ run.plan.replacementBlockers, isIndeterminate store id = false := by
    intro alone
    rcases groupIsRunnable_iff.mp runnable with allows | free
    · exact absurd allows alone
    · exact free
  have keeps : ∀ other ∈ store.runs, other.status ≠ .queued →
      other ∈ store.runs.insert (startRun run now) := by
    intro other otherStored left
    refine Table.mem_insert.mpr (.inr ⟨otherStored, fun same => left ?_⟩)
    rw [plan] at same
    rw [Runs.eq_of_id otherStored stored same]
    exact queued
  have settled : ∀ id, Resolved store id → Resolved
      { store with runs := store.runs.insert (startRun run now), runLeases := leases } id := by
    rintro id ⟨other, otherStored, same, terminal, known⟩
    refine ⟨other, keeps other otherStored fun queued => ?_, same, terminal, known⟩
    rw [queued] at terminal
    cases terminal
  generalize startRun run now = started at plan status startedAt keeps settled
  constructor
  · intro other otherStored
    rcases Table.mem_insert.mp otherStored with rfl | ⟨otherStored, _⟩
    · rw [plan]
      exact grouped.cursors run stored
    · exact grouped.cursors other otherStored
  · intro other otherStored
    rcases Table.mem_insert.mp otherStored with rfl | ⟨otherStored, _⟩
    · simp [status]
    · exact grouped.moving other otherStored
  · intro other otherStored running
    rcases Table.mem_insert.mp otherStored with rfl | ⟨otherStored, _⟩
    · exact startedAt
    · exact grouped.started other otherStored running
  · intro left leftStored right rightStored leftAlone rightAlone leftRunning rightRunning sameGroup
    rcases Table.mem_insert.mp leftStored with rfl | ⟨leftOld, leftApart⟩ <;>
      rcases Table.mem_insert.mp rightStored with rfl | ⟨rightOld, rightApart⟩
    · rfl
    · rw [plan] at leftAlone sameGroup rightApart
      have blocked := blocks_of_running rightApart sameGroup.symm rightRunning
      rw [(free leftAlone).1 right rightOld] at blocked
      cases blocked
    · rw [plan] at rightAlone sameGroup leftApart
      have blocked := blocks_of_running leftApart sameGroup leftRunning
      rw [(free rightAlone).1 left leftOld] at blocked
      cases blocked
    · exact grouped.exclusive left leftOld right rightOld leftAlone rightAlone
        leftRunning rightRunning sameGroup
  · intro first firstStored other otherStored alone running otherQueued sameGroup
    rcases Table.mem_insert.mp otherStored with rfl | ⟨otherOld, apart⟩
    · rw [status] at otherQueued
      cases otherQueued
    rcases Table.mem_insert.mp firstStored with rfl | ⟨firstOld, _⟩
    · rw [plan] at apart sameGroup alone
      have ahead : queueKey run < queueKey other :=
        queueKey_lt_of_not_blocks apart sameGroup otherQueued ((free alone).1 other otherOld)
      unfold queueKey at ahead ⊢
      rwa [plan]
    · exact grouped.first first firstOld other otherOld alone running otherQueued sameGroup
  · intro other otherStored replaces id listed
    rcases Table.mem_insert.mp otherStored with rfl | ⟨otherStored, _⟩
    · rw [plan] at replaces listed ⊢
      obtain ⟨different, blocker, blockerStored, same, sameGroup, left⟩ :=
        grouped.displaced run stored replaces id listed
      exact ⟨different, blocker, keeps blocker blockerStored left, same, sameGroup, left⟩
    · obtain ⟨different, blocker, blockerStored, same, sameGroup, left⟩ :=
        grouped.displaced other otherStored replaces id listed
      exact ⟨different, blocker, keeps blocker blockerStored left, same, sameGroup, left⟩
  · intro other otherStored replaces running id listed
    rcases Table.mem_insert.mp otherStored with rfl | ⟨otherStored, _⟩
    · rw [plan] at replaces listed
      exact settled id (grouped.resolved_of_runnable stored replaces runnable listed)
    · exact settled id (grouped.clear other otherStored replaces running id listed)

/-- The elementary changes of an admission keep the groups in order. No run that
is running was stored under the cursor of the event. -/
theorem change {event : PreparedEvent} (agree : IdsAgree store event)
    (change : Change event store.nextCursor store next)
    (before : Grouped store ∧ ∀ run ∈ store.runs, run.status = .running →
      run.plan.eventCursor < store.nextCursor) :
    Grouped next ∧ ∀ run ∈ next.runs, run.status = .running →
      run.plan.eventCursor < next.nextCursor := by
  obtain ⟨grouped, earlier⟩ := before
  have settles : Quiet store next → next.nextCursor = store.nextCursor →
      Grouped next ∧ ∀ run ∈ next.runs, run.status = .running →
        run.plan.eventCursor < next.nextCursor := by
    intro quiet cursor
    refine ⟨grouped.quiet quiet, fun run stored running => ?_⟩
    obtain ⟨old, oldStored, settled⟩ := quiet.back run stored
    have oldRunning := (settled.status_eq (by rw [running]; rfl)).symm.trans running
    rw [settled.plan, cursor]
    exact earlier old oldStored oldRunning
  cases change with
  | remove id queued => exact settles (.remove _ queued) rfl
  | cancel stored accepted => exact settles (.cancel stored accepted) rfl
  | release stored terminal => exact settles (.of_runs_eq le_rfl rfl) rfl
  | @store planned plan member same own displaced untaken =>
    have cursor : plan.eventCursor = store.nextCursor := by
      rw [same]
      rfl
    refine ⟨grouped.admitted earlier cursor (agree.absent member same untaken) displaced, ?_⟩
    intro run stored running
    rcases Table.mem_insert.mp stored with rfl | ⟨stored, _⟩
    · cases running
    · exact earlier run stored running

variable {admits : MemoryState → PreparedEvent → Prop}

theorem admission (rule : AdmissionRule admits)
    {event : PreparedEvent} {outcome : AdmitOutcome} (holds : admits store event)
    (result : admit_ store event = some (next, outcome)) (grouped : Grouped store) :
    Grouped next := by
  have entry : Grouped (journal store event) ∧ ∀ run ∈ (journal store event).runs,
      run.status = .running → run.plan.eventCursor < (journal store event).nextCursor := by
    refine ⟨grouped.quiet (.of_runs_eq (Nat.le_succ _) rfl), fun run stored _ => ?_⟩
    exact Nat.lt_succ_of_le (grouped.cursors run stored)
  rcases admit_induction rule result holds entry
    (fun holds change before => Grouped.change (rule.idsAgree holds) change before)
    with rfl | ⟨reached, _⟩
  · exact grouped
  · exact reached

theorem move (rule : AdmissionRule admits)
    (move : Move EngineCommit admits store next) (grouped : Grouped store) : Grouped next := by
  cases move with
  | admit_ holds result => exact grouped.admission rule holds result
  | leases _ => exact grouped.quiet (.of_runs_eq le_rfl rfl)
  | @start run now leases stored runnable status =>
    rcases status with queued | running
    · exact grouped.start stored queued runnable
    · have same : startRun run now = run := by simp [startRun, running]
      rw [same]
      exact grouped.quiet (.insert leases stored (.refl _))
  | cancel stored accepted => exact grouped.quiet (.cancel stored accepted)
  | commit stored submitted => exact grouped.quiet (.commit stored submitted)

theorem guardedRun (rule : AdmissionRule admits)
    {sys : Clients} (reached : GuardedRun EngineCommit admits .initial sys) :
    Grouped sys.store :=
  GuardedRun.invariant rule (fun _ _ commit => commit.submission)
    (fun step grouped => grouped.move rule step) Fenced.initial Grouped.new reached

end Grouped

/-- No stored run with a given id is running. -/
def Idle (id : String) (store : MemoryState) : Prop :=
  ∀ run ∈ store.runs, run.plan.id = id → run.status ≠ .running

namespace Idle

variable {id : String} {store next : MemoryState}

theorem quiet (idle : Idle id store) (quiet : Quiet store next) : Idle id next := by
  intro run stored here running
  obtain ⟨old, oldStored, settled⟩ := quiet.back run stored
  refine idle old oldStored (by rw [← settled.plan]; exact here) ?_
  exact (settled.status_eq (by rw [running]; rfl)).symm.trans running

theorem admission {admits : MemoryState → PreparedEvent → Prop} (rule : AdmissionRule admits)
    {event : PreparedEvent} {outcome : AdmitOutcome} (holds : admits store event)
    (result : admit_ store event = some (next, outcome)) (idle : Idle id store) :
    Idle id next := by
  have entry : Idle id (journal store event) := idle
  have change : ∀ {before after : MemoryState}, admits before event →
      Change event before.nextCursor before after → Idle id before → Idle id after := by
    intro before after _ change idle
    cases change with
    | remove _ queued => exact idle.quiet (.remove _ queued)
    | cancel stored accepted => exact idle.quiet (.cancel stored accepted)
    | release _ _ => exact idle
    | store _ _ _ _ _ =>
      intro run stored here
      rcases Table.mem_insert.mp stored with rfl | ⟨stored, _⟩
      · simp
      · exact idle run stored here
  rcases admit_induction rule result holds entry change with rfl | reached
  · exact idle
  · exact reached

end Idle

/-- A run starts only when its group lets it. -/
theorem Step.runnable_of_starts {admits : MemoryState → PreparedEvent → Prop}
    (rule : AdmissionRule admits) {sys next : Clients} {call : Call} {run after : RunRecord}
    (fenced : Fenced sys.store sys.held sys.issued) (meets : call.Meets admits sys.store)
    (step : Step EngineCommit sys call next) (stored : run ∈ sys.store.runs)
    (queued : run.status = .queued) (afterStored : after ∈ next.store.runs)
    (same : after.plan.id = run.plan.id) (running : after.status = .running) :
    groupIsRunnable sys.store run = true := by
  have idle : Idle run.plan.id sys.store := by
    intro other otherStored here
    rw [Runs.eq_of_id otherStored stored here, queued]
    simp
  by_contra held
  suffices Idle run.plan.id next.store from this after afterStored same running
  cases step with
  | admitEvent result => exact idle.admission rule meets result
  | claimed _ result =>
    obtain ⟨started, granted⟩ := claimRun_granted result
    rw [granted.next_eq, granted.run_eq]
    intro other otherStored here
    rcases Table.mem_insert.mp otherStored with rfl | ⟨otherStored, _⟩
    · rw [startRun_plan] at here
      have equal := Runs.eq_of_id granted.stored stored here
      exact absurd (equal ▸ granted.runnable) held
    · exact idle other otherStored here
  | unclaimed result empty =>
    rw [claimRun_not_granted result empty]
    exact idle
  | committed holds submitted result =>
    obtain ⟨entry, before, admitted, commit⟩ := commitRun_committed result
    obtain rfl := fenced.stored_eq_held holds submitted.submission commit
    have installed := idle.quiet (.commit (Table.mem_of_get? commit.found) submitted)
    have emits : Idle run.plan.id admitted := admitAll_induction commit.emits meets installed
      fun holds result before => before.admission rule holds result
    rw [commit.next_eq]
    unfold releaseTerminal
    split <;> exact emits
  | refused _ _ result =>
    rw [(commitRun_refused result).1]
    exact idle
  | @requestCancel id now =>
    cases found : sys.store.runs.get? id with
    | none => simpa [Memory.requestCancel, found] using idle
    | some other =>
      cases accepted : other.requestCancel now with
      | none => simpa [Memory.requestCancel, found, accepted] using idle
      | some cancelled =>
        simpa [Memory.requestCancel, found, accepted] using
          idle.quiet (.cancel (Table.mem_of_get? found) accepted)
  | crash => exact idle

/-- In every system that the engine's workers reach, at most one run of a group
that does not allow company is running; and whenever a run of the group is
started, no run of the group before it in the order of events is still queued. -/
theorem groups_are_exclusive_and_ordered {sys : Clients}
    (reached : GuardedRun EngineCommit IdsAgree .initial sys) :
    (∀ left ∈ sys.store.runs, ∀ right ∈ sys.store.runs,
      left.plan.concurrencyPolicy ≠ .allow → right.plan.concurrencyPolicy ≠ .allow →
      left.plan.concurrencyGroup = right.plan.concurrencyGroup →
      left.status = .running → right.status = .running → left = right) ∧
    (∀ next, GuardedStep EngineCommit IdsAgree sys next →
      ∀ early ∈ sys.store.runs, ∀ late ∈ sys.store.runs,
      early.plan.concurrencyPolicy ≠ .allow → late.plan.concurrencyPolicy ≠ .allow →
      early.plan.concurrencyGroup = late.plan.concurrencyGroup →
      queueKey early < queueKey late → late.status = .queued →
      (∃ after, next.store.runs.get? late.plan.id = some after ∧ after.status = .running) →
      early.status ≠ .queued) := by
  have fenced := Fenced.guardedRun IdsAgree.admissionRule reached
  have grouped := Grouped.guardedRun IdsAgree.admissionRule reached
  constructor
  · intro left leftStored right rightStored leftAlone rightAlone sameGroup leftRunning rightRunning
    exact Runs.eq_of_id leftStored rightStored (grouped.exclusive left leftStored right rightStored
      leftAlone rightAlone leftRunning rightRunning sameGroup)
  · rintro next ⟨call, meets, step⟩ early earlyStored late lateStored _ lateAlone sameGroup ahead
      lateQueued ⟨after, found, running⟩ earlyQueued
    have runnable := step.runnable_of_starts IdsAgree.admissionRule fenced meets lateStored
      lateQueued (Table.mem_of_get? found) (Runs.id_of_get? found) running
    rcases groupIsRunnable_iff.mp runnable with allows | ⟨free, _⟩
    · exact lateAlone allows
    · have different : early.plan.id ≠ late.plan.id := by
        intro same
        rw [Runs.eq_of_id earlyStored lateStored same] at ahead
        exact lt_irrefl _ ahead
      have behind := queueKey_lt_of_not_blocks different sameGroup earlyQueued
        (free early earlyStored)
      exact lt_asymm ahead behind

/-- Of two queued runs of a group the second waits while the first is running. -/
theorem groups_are_exclusive_and_ordered_after_claim :
    ∃ sys, GuardedRun EngineCommit IdsAgree .initial sys ∧
      (∃ run ∈ sys.store.runs, run.plan.id = "r1" ∧ run.status = .running) ∧
      ∃ late, sys.store.runs.get? "r2" = some late ∧ late.status ≠ .running := by
  obtain ⟨sys, reached, ⟨early, found, running, alone, group⟩, late, lateFound, lateAlone,
      lateGroup⟩ := exists_of_replay EngineCommit IdsAgree .initial
    [.admitEvent (sampleEvent "e1" 0 [samplePlan "r1" "k1" "g" .queue 5]),
      .admitEvent (sampleEvent "e2" 1 [samplePlan "r2" "k2" "g" .queue 1]),
      .claimRun 0 "runner" "w" 9 1000 "t"]
    (fun sys => (∃ run ∈ sys.store.runs.get? "r1", run.status = .running ∧
        run.plan.concurrencyPolicy ≠ .allow ∧ run.plan.concurrencyGroup = "g") ∧
      ∃ run ∈ sys.store.runs.get? "r2", run.plan.concurrencyPolicy ≠ .allow ∧
        run.plan.concurrencyGroup = "g") (by decide)
  refine ⟨sys, reached, ⟨early, Table.mem_of_get? found, Runs.id_of_get? found, running⟩, late,
    lateFound, fun lateRunning => ?_⟩
  have same := (groups_are_exclusive_and_ordered reached).1 early (Table.mem_of_get? found) late
    (Table.mem_of_get? lateFound) alone lateAlone (group.trans lateGroup.symm) running lateRunning
  have earlyId := Runs.id_of_get? found
  rw [same, Runs.id_of_get? lateFound] at earlyId
  exact absurd earlyId (by decide)

end Mdbase.Runtime
