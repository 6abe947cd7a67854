import Mdbase.Runtime.Groups

/-!
# No stuck group

With expired leases, a group whose active runs are not held up by an
indeterminate run always has a run that can be claimed: the one that is running,
or the first of the queue. The order of the queue excludes cyclic waiting.
-/

namespace Mdbase.Runtime

open Library Relation Memory

/-- What the planner guarantees about an event: run ids agree, and only
replacements carry blockers. -/
structure PlannerAdmits (store : MemoryState) (event : PreparedEvent) : Prop where
  idsAgree : IdsAgree store event
  blockers : ∀ plan ∈ event.runs, plan.concurrencyPolicy ≠ .replace → plan.replacementBlockers = []

theorem PlannerAdmits.admissionRule : AdmissionRule PlannerAdmits where
  idsAgree admits := admits.idsAgree
  journal admits := ⟨admits.idsAgree.journal, admits.blockers⟩
  change admits change := ⟨change.idsAgree admits.idsAgree, admits.blockers⟩

instance (store : MemoryState) (event : PreparedEvent) :
    Decidable (PlannerAdmits store event) :=
  decidable_of_iff (IdsAgree store event ∧ ∀ plan ∈ event.runs,
      plan.concurrencyPolicy ≠ .replace → plan.replacementBlockers = [])
    ⟨fun ⟨idsAgree, blockers⟩ => ⟨idsAgree, blockers⟩,
      fun ⟨idsAgree, blockers⟩ => ⟨idsAgree, blockers⟩⟩

/-- Only replacements carry blockers. -/
def BlockersOwned (store : MemoryState) : Prop :=
  ∀ run ∈ store.runs, run.plan.concurrencyPolicy ≠ .replace → run.plan.replacementBlockers = []

namespace BlockersOwned

variable {store next : MemoryState}

theorem quiet (owned : BlockersOwned store) (quiet : Quiet store next) : BlockersOwned next := by
  intro run stored
  obtain ⟨old, oldStored, settled⟩ := quiet.back run stored
  rw [settled.plan]
  exact owned old oldStored

theorem change {event : PreparedEvent} {cursor : Nat} (admits : PlannerAdmits store event)
    (change : Change event cursor store next) (owned : BlockersOwned store) :
    BlockersOwned next := by
  cases change with
  | remove _ queued => exact owned.quiet (.remove _ queued)
  | cancel stored accepted => exact owned.quiet (.cancel stored accepted)
  | release _ _ => exact owned
  | @store planned plan member same own _ _ =>
    intro run stored
    rcases Table.mem_insert.mp stored with rfl | ⟨stored, _⟩
    · intro keeps
      have plannedKeeps : planned.concurrencyPolicy ≠ .replace := by
        rw [RunRecord.admitted_plan, same] at keeps
        exact keeps
      exact (own keeps).trans (admits.blockers planned member plannedKeeps)
    · exact owned run stored

theorem move (move : Move EngineCommit PlannerAdmits store next) (owned : BlockersOwned store) :
    BlockersOwned next := by
  cases move with
  | @admit_ event _ _ holds result =>
    have entry : BlockersOwned (journal store event) := owned
    rcases admit_induction PlannerAdmits.admissionRule result holds entry
      (fun admits change before => before.change admits change) with rfl | reached
    · exact owned
    · exact reached
  | leases _ => exact owned
  | start now leases stored _ _ =>
    intro run runStored
    rcases Table.mem_insert.mp runStored with rfl | ⟨runStored, _⟩
    · rw [startRun_plan]
      exact owned _ stored
    · exact owned run runStored
  | cancel stored accepted => exact owned.quiet (.cancel stored accepted)
  | commit stored submitted => exact owned.quiet (.commit stored submitted)

end BlockersOwned

section Progress

variable {store : MemoryState} {run : RunRecord}

theorem Grouped.runnable_of_running (grouped : Grouped store) (owned : BlockersOwned store)
    (stored : run ∈ store.runs) (running : run.status = .running)
    (alone : run.plan.concurrencyPolicy ≠ .allow)
    (noCompany : ∀ other ∈ store.runs, other.plan.concurrencyGroup = run.plan.concurrencyGroup →
      other.status = .running → other.plan.concurrencyPolicy ≠ .allow) :
    groupIsRunnable store run = true := by
  refine groupIsRunnable_iff.mpr (.inr ⟨?_, ?_⟩)
  · intro other otherStored
    by_contra blocked
    simp only [blocks, decide_eq_true_eq, Bool.not_eq_false] at blocked
    obtain ⟨different, sameGroup, (otherRunning | waiting) | ⟨queued, ahead⟩⟩ := blocked
    · exact different (grouped.exclusive other otherStored run stored
        (noCompany other otherStored sameGroup otherRunning) alone otherRunning running sameGroup)
    · exact grouped.moving other otherStored waiting
    · exact lt_asymm ahead
        (grouped.first run stored other otherStored alone running queued sameGroup)
  · intro id listed
    by_cases replaces : run.plan.concurrencyPolicy = .replace
    · obtain ⟨blocker, blockerStored, rfl, _, determined⟩ :=
        grouped.clear run stored replaces running id listed
      simp [isIndeterminate, Runs.get?_id blockerStored, determined]
    · rw [owned run stored replaces] at listed
      cases listed

/-- A queued run that is the first of its group, with no run of the group
running, is let through unless it waits for an indeterminate run. -/
theorem Grouped.runnable_of_first (grouped : Grouped store)
    (idle : ∀ other ∈ store.runs, other.plan.concurrencyGroup = run.plan.concurrencyGroup →
      other.status ≠ .running)
    (first : ∀ other ∈ store.runs, other.plan.concurrencyGroup = run.plan.concurrencyGroup →
      other.status = .queued → queueKey run ≤ queueKey other)
    (determined : ∀ id ∈ run.plan.replacementBlockers, isIndeterminate store id = false) :
    groupIsRunnable store run = true := by
  refine groupIsRunnable_iff.mpr (.inr ⟨?_, determined⟩)
  intro other otherStored
  by_contra blocked
  simp only [blocks, decide_eq_true_eq, Bool.not_eq_false] at blocked
  obtain ⟨_, sameGroup, (otherRunning | waiting) | ⟨queued, ahead⟩⟩ := blocked
  · exact idle other otherStored sameGroup otherRunning
  · exact grouped.moving other otherStored waiting
  · exact absurd (first other otherStored sameGroup queued) (not_le.mpr ahead)

/-- A group with an active run that no indeterminate run holds up has a run that
is let through. -/
theorem Grouped.exists_runnable (grouped : Grouped store) (owned : BlockersOwned store)
    (stored : run ∈ store.runs) (active : run.status.terminal = false)
    (determined : ∀ id ∈ run.plan.replacementBlockers, isIndeterminate store id = false)
    (predecessors : ∀ other ∈ store.runs, other.status = .queued →
      other.plan.concurrencyGroup = run.plan.concurrencyGroup → queueKey other < queueKey run →
      ∀ id ∈ other.plan.replacementBlockers, isIndeterminate store id = false) :
    ∃ next ∈ store.runs, next.status.terminal = false ∧ groupIsRunnable store next = true := by
  by_cases busy : ∃ other ∈ store.runs,
      other.plan.concurrencyGroup = run.plan.concurrencyGroup ∧ other.status = .running
  · obtain ⟨current, currentStored, currentGroup, running⟩ := busy
    by_cases company : ∃ other ∈ store.runs,
        other.plan.concurrencyGroup = current.plan.concurrencyGroup ∧ other.status = .running ∧
          other.plan.concurrencyPolicy = .allow
    · obtain ⟨other, otherStored, _, otherRunning, allows⟩ := company
      exact ⟨other, otherStored, by rw [otherRunning]; rfl, groupIsRunnable_iff.mpr (.inl allows)⟩
    · have noCompany : ∀ other ∈ store.runs,
          other.plan.concurrencyGroup = current.plan.concurrencyGroup →
          other.status = .running → other.plan.concurrencyPolicy ≠ .allow :=
        fun other otherStored sameGroup otherRunning allows =>
          company ⟨other, otherStored, sameGroup, otherRunning, allows⟩
      exact ⟨current, currentStored, by rw [running]; rfl,
        grouped.runnable_of_running owned currentStored running
          (noCompany current currentStored rfl running) noCompany⟩
  · have idle : ∀ other ∈ store.runs,
        other.plan.concurrencyGroup = run.plan.concurrencyGroup → other.status ≠ .running :=
      fun other otherStored sameGroup running => busy ⟨other, otherStored, sameGroup, running⟩
    have queued : run.status = .queued := by
      have still := idle run stored rfl
      have moving := grouped.moving run stored
      cases status : run.status <;> simp_all [RunStatus.terminal]
    let waiting := store.runs.entries.filter fun other =>
      other.status = .queued ∧ other.plan.concurrencyGroup = run.plan.concurrencyGroup
    have member : run ∈ waiting := List.mem_filter.mpr ⟨stored, by simp [queued]⟩
    obtain ⟨head, selected⟩ : ∃ head, head ∈ waiting.argmin queueKey := by
      cases selected : waiting.argmin queueKey with
      | none =>
        rw [List.argmin_eq_none.mp selected] at member
        cases member
      | some head => exact ⟨head, rfl⟩
    obtain ⟨headStored, headWaits⟩ := List.mem_filter.mp (List.argmin_mem selected)
    obtain ⟨headQueued, headGroup⟩ : head.status = .queued ∧
        head.plan.concurrencyGroup = run.plan.concurrencyGroup := by simpa using headWaits
    have headDetermined : ∀ id ∈ head.plan.replacementBlockers,
        isIndeterminate store id = false := by
      by_cases same : head.plan.id = run.plan.id
      · rw [Runs.eq_of_id headStored stored same]
        exact determined
      · refine predecessors head headStored headQueued headGroup ?_
        refine lt_of_le_of_ne (List.le_of_mem_argmin member selected) fun equal => same ?_
        exact congrArg (fun key => (ofLex key).2) equal
    refine ⟨head, headStored, by rw [headQueued]; rfl, grouped.runnable_of_first ?_ ?_
      headDetermined⟩
    · rw [headGroup]
      exact idle
    · rw [headGroup]
      intro other otherStored sameGroup otherQueued
      exact List.le_of_mem_argmin
        (List.mem_filter.mpr ⟨otherStored, by simp [otherQueued, sameGroup]⟩) selected

theorem claimRun_of_due {executor worker token : String} {now expiresAt : DateTime}
    {leaseFor : Duration} (stored : run ∈ store.runs)
    (isDue : due (releaseExpired store now) executor now run = true)
    (runnable : groupIsRunnable store run = true)
    (lasts : addStdDuration now leaseFor = some (.ok expiresAt)) :
    ∃ next claim, claimRun store executor worker now leaseFor token =
      some (next, .ok (some claim)) := by
  cases selected : claimCandidate (releaseExpired store now) executor now with
  | none =>
    have candidate : run ∈ (releaseExpired store now).runs.entries.filter fun run =>
        due (releaseExpired store now) executor now run ∧
          groupIsRunnable (releaseExpired store now) run :=
      List.mem_filter.mpr ⟨stored, by simpa using ⟨isDue, runnable⟩⟩
    rw [List.argmin_eq_none.mp selected] at candidate
    cases candidate
  | some chosen =>
    simp only [claimRun, selected, lasts]
    exact ⟨_, _, rfl⟩

end Progress

/-- In every system that the engine's workers reach from events as the planner
makes them, no two runs of a group keep each other back. And when all leases
have expired and all active runs may start, a claim succeeds as soon as some
active run is held up neither by an indeterminate run it replaces nor by a
queued predecessor that is. -/
theorem no_group_is_stuck {sys : Clients}
    (reached : GuardedRun EngineCommit PlannerAdmits .initial sys) :
    (∀ left ∈ sys.store.runs, ∀ right ∈ sys.store.runs,
      left.plan.concurrencyPolicy ≠ .allow → right.plan.concurrencyPolicy ≠ .allow →
      ¬ (blocks left right = true ∧ blocks right left = true)) ∧
    ∀ (executor worker token : String) (now expiresAt : DateTime) (leaseFor : Duration),
      (∀ run ∈ sys.store.runs, run.plan.executor = executor) →
      (∀ id entry, sys.store.runLeases.get? id = some entry → entry.2.expiresAt ≤ now) →
      (∀ run ∈ sys.store.runs, run.status.terminal = false → run.plan.notBefore ≤ now) →
      addStdDuration now leaseFor = some (.ok expiresAt) →
      (∃ run ∈ sys.store.runs, run.status.terminal = false ∧
        (∀ id ∈ run.plan.replacementBlockers, isIndeterminate sys.store id = false) ∧
        ∀ other ∈ sys.store.runs, other.status = .queued →
          other.plan.concurrencyGroup = run.plan.concurrencyGroup →
          queueKey other < queueKey run →
          ∀ id ∈ other.plan.replacementBlockers, isIndeterminate sys.store id = false) →
      ∃ store claim, claimRun sys.store executor worker now leaseFor token =
        some (store, .ok (some claim)) := by
  have grouped := Grouped.guardedRun PlannerAdmits.admissionRule reached
  have owned : BlockersOwned sys.store :=
    GuardedRun.invariant PlannerAdmits.admissionRule (fun _ _ commit => commit.submission)
      BlockersOwned.move Fenced.initial (fun _ stored => by cases stored) reached
  constructor
  · intro left leftStored right rightStored leftAlone rightAlone each
    simp only [blocks, decide_eq_true_eq] at each
    obtain ⟨⟨different, sameGroup, leftHolds⟩, _, _, rightHolds⟩ := each
    rcases leftHolds with (leftRunning | leftWaiting) | ⟨leftQueued, leftAhead⟩
    · rcases rightHolds with (rightRunning | rightWaiting) | ⟨rightQueued, rightAhead⟩
      · exact different (grouped.exclusive left leftStored right rightStored leftAlone rightAlone
          leftRunning rightRunning sameGroup)
      · exact grouped.moving right rightStored rightWaiting
      · exact lt_asymm rightAhead (grouped.first left leftStored right rightStored leftAlone
          leftRunning rightQueued sameGroup.symm)
    · exact grouped.moving left leftStored leftWaiting
    · rcases rightHolds with (rightRunning | rightWaiting) | ⟨rightQueued, rightAhead⟩
      · exact lt_asymm leftAhead (grouped.first right rightStored left leftStored rightAlone
          rightRunning leftQueued sameGroup)
      · exact grouped.moving right rightStored rightWaiting
      · exact lt_asymm leftAhead rightAhead
  · rintro executor worker token now expiresAt leaseFor oneExecutor expired ready lasts
      ⟨run, stored, active, determined, predecessors⟩
    obtain ⟨next, nextStored, nextActive, runnable⟩ :=
      grouped.exists_runnable owned stored active determined predecessors
    have unleased : (releaseExpired sys.store now).runLeases.get? next.plan.id = none := by
      simp only [releaseExpired, Table.get?_filter, Option.filter_eq_none_iff]
      intro entry found
      simpa using expired next.plan.id entry found
    refine claimRun_of_due nextStored ?_ runnable lasts
    simp [due, oneExecutor next nextStored, nextActive, grouped.moving next nextStored,
      ready next nextStored nextActive, unleased]

/-- A run whose worker crashed is claimed again once its lease has expired,
although another run of the group is queued. -/
theorem no_group_is_stuck_after_crash :
    ∃ sys, GuardedRun EngineCommit PlannerAdmits .initial sys ∧
      ∃ store claim, claimRun sys.store "runner" "w" 5000 1000 "t2" =
        some (store, .ok (some claim)) := by
  obtain ⟨sys, reached, leases, runs, run, stored, active⟩ :=
    exists_of_replay EngineCommit PlannerAdmits .initial
    [.admitEvent (sampleEvent "e1" 0 [samplePlan "r1" "k1" "g" .queue 0]),
      .admitEvent (sampleEvent "e2" 1 [samplePlan "r2" "k2" "g" .queue 1]),
      .claimRun 0 "runner" "w" 2 1000 "t1",
      .crash 0]
    (fun sys => (∀ entry ∈ sys.store.runLeases.entries, entry.2.expiresAt ≤ 5000) ∧
      (∀ run ∈ sys.store.runs.entries, run.plan.executor = "runner" ∧ run.plan.notBefore ≤ 5000 ∧
        run.plan.replacementBlockers = []) ∧
      ∃ run ∈ sys.store.runs.entries, run.status.terminal = false) (by decide)
  refine ⟨sys, reached, (no_group_is_stuck reached).2 "runner" "w" "t2" 5000 _ 1000
    (fun run stored => (runs run stored).1)
    (fun _ entry found => leases entry (Table.mem_of_get? found))
    (fun run stored _ => (runs run stored).2.1) rfl ⟨run, stored, active, ?_, ?_⟩⟩
  · intro id listed
    rw [(runs run stored).2.2] at listed
    cases listed
  · intro other otherStored _ _ _ id listed
    rw [(runs other otherStored).2.2] at listed
    cases listed

/-- A plan under the id of a running run lets a second run of its group start;
the first worker then commits, and the two runs keep each other back for ever. -/
theorem group_is_stuck_on_reused_id :
    ∃ sys, GuardedRun EngineCommit
        (fun _ event => ∀ plan ∈ event.runs, plan.replacementBlockers = []) .initial sys ∧
      (∀ run ∈ sys.store.runs.entries, run.plan.executor = "runner" ∧
        run.plan.notBefore ≤ 5000 ∧ run.plan.replacementBlockers = []) ∧
      (∀ entry ∈ sys.store.runLeases.entries, entry.2.expiresAt ≤ 5000) ∧
      (∃ run ∈ sys.store.runs.entries, run.status.terminal = false) ∧
      (claimRun sys.store "runner" "w" 5000 1000 "t3").map Prod.snd = some (.ok none) := by
  obtain ⟨sys, reached, stuck⟩ := exists_of_replay EngineCommit
    (fun _ event => ∀ plan ∈ event.runs, plan.replacementBlockers = []) .initial
    [.admitEvent (sampleEvent "a" 0 [samplePlan "r" "b:c" "g" .queue 0]),
      .claimRun 0 "runner" "w1" 0 1000 "t1",
      .admitEvent (sampleEvent "a:b" 1 [samplePlan "r" "c" "h" .queue 1]),
      .admitEvent (sampleEvent "d" 2 [samplePlan "s" "d" "g" .queue 2]),
      .claimRun 1 "runner" "w2" 2 1000 "t2",
      .commitRun 0 (startRun (RunRecord.admitted
        ((samplePlan "r" "b:c" "g" .queue 0).withCursor 1)) 0) []]
    (fun sys => (∀ run ∈ sys.store.runs.entries, run.plan.executor = "runner" ∧
        run.plan.notBefore ≤ 5000 ∧ run.plan.replacementBlockers = []) ∧
      (∀ entry ∈ sys.store.runLeases.entries, entry.2.expiresAt ≤ 5000) ∧
      (∃ run ∈ sys.store.runs.entries, run.status.terminal = false) ∧
      (claimRun sys.store "runner" "w" 5000 1000 "t3").map Prod.snd = some (.ok none)) (by decide)
  exact ⟨sys, reached, stuck⟩

end Mdbase.Runtime
