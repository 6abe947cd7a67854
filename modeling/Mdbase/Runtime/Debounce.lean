import Mdbase.Runtime.Replay

/-!
# Debounced admission

A plan that starts later than its event was received removes the pending runs of
its workflow, trigger and executor before it is known whether the plan itself is
stored. `debounce_coalesces_iff` says exactly when no pending work is lost: every
plan that removes a run passes the checks that follow, and some plan from it on
for the same workflow, trigger and executor is stored and left alone by the rest
of the event.
-/

namespace Mdbase.Runtime

open Library Memory

/-- A condition that each step may set or reset: it holds in the end when it
held in the beginning and was never reset, or was set and not reset after. -/
theorem latch {holds sets resets : Nat → Prop} {first last : Nat} (le : first ≤ last)
    (step : ∀ index, first ≤ index → index < last →
      (holds (index + 1) ↔ (holds index ∧ ¬ resets index) ∨ sets index)) :
    holds last ↔
      (holds first ∧ ∀ index, first ≤ index → index < last → ¬ resets index) ∨
      ∃ index, first ≤ index ∧ index < last ∧ sets index ∧
        ∀ later, index < later → later < last → ¬ resets later := by
  induction last, le using Nat.le_induction with
  | base =>
    constructor
    · intro initially
      exact .inl ⟨initially, fun index ge lt => absurd ge (by omega)⟩
    · rintro (⟨initially, _⟩ | ⟨index, ge, lt, _⟩)
      · exact initially
      · omega
  | succ last le ih =>
    have before := ih fun index ge lt => step index ge (by omega)
    rw [step last le (by omega), before]
    constructor
    · rintro (⟨⟨initially, kept⟩ | ⟨index, ge, lt, set, kept⟩, still⟩ | set)
      · refine .inl ⟨initially, fun index ge lt => ?_⟩
        rcases Nat.lt_succ_iff_lt_or_eq.mp lt with earlier | rfl
        · exact kept index ge earlier
        · exact still
      · refine .inr ⟨index, ge, by omega, set, fun later gt lt' => ?_⟩
        rcases Nat.lt_succ_iff_lt_or_eq.mp lt' with earlier | rfl
        · exact kept later gt earlier
        · exact still
      · exact .inr ⟨last, le, by omega, set, fun later gt lt => absurd gt (by omega)⟩
    · rintro (⟨initially, kept⟩ | ⟨index, ge, lt, set, kept⟩)
      · exact .inl ⟨.inl ⟨initially, fun index ge lt => kept index ge (by omega)⟩,
          kept last le (by omega)⟩
      · rcases Nat.lt_succ_iff_lt_or_eq.mp lt with earlier | rfl
        · exact .inl ⟨.inr ⟨index, ge, earlier, set, fun later gt lt => kept later gt (by omega)⟩,
            kept last earlier (by omega)⟩
        · exact .inr set

/-- The plans of one workflow, trigger and executor coalesce. -/
def SameTarget (left right : PlannedRun) : Prop :=
  left.workflow = right.workflow ∧ left.trigger = right.trigger ∧ left.executor = right.executor

/-- The loop variables before the round with a given index. -/
def roundAt (state : MemoryState) (event : PreparedEvent) (index : Nat) : Option Admission :=
  admitPlans (state.nextCursor + 1) event.receivedAt ⟨journal state event, [], [], []⟩
    (event.runs.take index)

/-- The round with a given index of the admission of an event: its plan, under
the cursor of the event, and the loop variables it finds. -/
structure Round (state : MemoryState) (event : PreparedEvent) (index : Nat) (plan : PlannedRun)
    (loop : Admission) : Prop where
  fresh : state.eventIndex.get? (toLex (event.sourceRuntime, event.eventId)) = none
  plan : (event.runs[index]?).map (·.withCursor (state.nextCursor + 1)) = some plan
  loop : roundAt state event index = some loop

/-- The minimum interval lets the plan through. -/
def Considered (loop : Admission) (plan : PlannedRun) : Prop :=
  minimumIntervalSuppresses loop.state plan = some false

/-- The round of a plan removes a pending run. -/
def Removes (receivedAt : DateTime) (loop : Admission) (plan : PlannedRun) : Prop :=
  Considered loop plan ∧ plan.notBefore > receivedAt ∧
    ∃ run ∈ loop.state.runs, obsolete plan receivedAt run = true

/-- After the debounce of the plan no run holds its idempotency key, and it is
not a plan to skip with a group that is occupied. -/
def Accepts (receivedAt : DateTime) (loop : Admission) (plan : PlannedRun) : Prop :=
  Considered loop plan ∧ idempotencyTaken (debounce loop.state receivedAt plan) plan = false ∧
    ¬ (plan.concurrencyPolicy = .skip ∧
      activeGroupRuns (debounce loop.state receivedAt plan) plan.concurrencyGroup ≠ [])

instance (loop : Admission) (plan : PlannedRun) : Decidable (Considered loop plan) :=
  inferInstanceAs (Decidable (_ = _))

instance (receivedAt : DateTime) (loop : Admission) (plan : PlannedRun) :
    Decidable (Removes receivedAt loop plan) :=
  decidable_of_iff (Considered loop plan ∧ plan.notBefore > receivedAt ∧
    ∃ run ∈ loop.state.runs.entries, obsolete plan receivedAt run = true) Iff.rfl

instance (receivedAt : DateTime) (loop : Admission) (plan : PlannedRun) :
    Decidable (Accepts receivedAt loop plan) :=
  inferInstanceAs (Decidable (_ ∧ _ ∧ ¬ (_ ∧ _ ≠ _)))

/-- The round of a plan ends the pending run of an earlier plan: by debouncing
it, by replacing the runs of its group, or by taking its id. -/
def Disturbs (receivedAt : DateTime) (loop : Admission) (plan earlier : PlannedRun) : Prop :=
  (Considered loop plan ∧ plan.notBefore > receivedAt ∧ earlier.notBefore > receivedAt ∧
      SameTarget earlier plan) ∨
    (Accepts receivedAt loop plan ∧ plan.concurrencyPolicy = .replace ∧
      plan.concurrencyGroup = earlier.concurrencyGroup) ∨
    (Accepts receivedAt loop plan ∧ plan.id = earlier.id)

/-- Two plans agree up to the blockers, which admission sets. -/
def SamePlan (left right : PlannedRun) : Prop := left.withBlockers [] = right.withBlockers []

/-- A plan is stored as a queued run. -/
def StoredQueued (state : MemoryState) (plan : PlannedRun) : Prop :=
  ∃ run, state.runs.get? plan.id = some run ∧ run.status = .queued ∧ SamePlan run.plan plan

namespace SamePlan

variable {left right : PlannedRun}

theorem id (same : SamePlan left right) : left.id = right.id := by
  have equal : left.withBlockers [] = right.withBlockers [] := same
  simpa using congrArg PlannedRun.id equal

theorem notBefore (same : SamePlan left right) : left.notBefore = right.notBefore := by
  have equal : left.withBlockers [] = right.withBlockers [] := same
  simpa using congrArg PlannedRun.notBefore equal

theorem concurrencyGroup (same : SamePlan left right) :
    left.concurrencyGroup = right.concurrencyGroup := by
  have equal : left.withBlockers [] = right.withBlockers [] := same
  simpa using congrArg PlannedRun.concurrencyGroup equal

theorem target (same : SamePlan left right) : SameTarget left right := by
  have equal : left.withBlockers [] = right.withBlockers [] := same
  exact ⟨by simpa using congrArg PlannedRun.workflow equal,
    by simpa using congrArg PlannedRun.trigger equal,
    by simpa using congrArg PlannedRun.executor equal⟩

theorem disturbs_iff (same : SamePlan left right) (receivedAt : DateTime) (loop : Admission)
    (plan : PlannedRun) :
    Disturbs receivedAt loop plan left ↔ Disturbs receivedAt loop plan right := by
  obtain ⟨workflow, trigger, executor⟩ := same.target
  simp only [Disturbs, SameTarget, same.id, same.notBefore, same.concurrencyGroup, workflow,
    trigger, executor]

end SamePlan

section Rounds

variable {state : MemoryState} {receivedAt : DateTime} {loop : Admission}
  {plan target : PlannedRun}

theorem obsolete_iff {run : RunRecord} (queued : run.status = .queued)
    (same : SamePlan run.plan target) :
    obsolete plan receivedAt run = true ↔
      target.notBefore > receivedAt ∧ SameTarget target plan := by
  obtain ⟨workflow, trigger, executor⟩ := same.target
  simp only [obsolete, decide_eq_true_eq, SameTarget, queued, workflow, trigger, executor,
    same.notBefore, true_and]
  constructor
  · rintro ⟨workflow, trigger, executor, pending⟩
    exact ⟨pending, workflow, trigger, executor⟩
  · rintro ⟨pending, workflow, trigger, executor⟩
    exact ⟨workflow, trigger, executor, pending⟩

/-- A debounce leaves a stored plan alone unless it is of the same target and
still pending. -/
theorem storedQueued_debounce :
    StoredQueued (debounce state receivedAt plan) target ↔ StoredQueued state target ∧
      ¬ (plan.notBefore > receivedAt ∧ target.notBefore > receivedAt ∧ SameTarget target plan) := by
  constructor
  · rintro ⟨run, found, queued, same⟩
    obtain ⟨stored, kept⟩ := mem_debounce.mp (Table.mem_of_get? found)
    have here := Runs.id_of_get? found
    refine ⟨⟨run, here ▸ Runs.get?_id stored, queued, same⟩, fun pending => kept ?_⟩
    exact ⟨pending.1, (obsolete_iff queued same).mpr pending.2⟩
  · rintro ⟨⟨run, found, queued, same⟩, kept⟩
    have here := Runs.id_of_get? found
    refine ⟨run, here ▸ Runs.get?_id (mem_debounce.mpr ⟨Table.mem_of_get? found, ?_⟩), queued, same⟩
    exact fun both => kept ⟨both.1, (obsolete_iff queued same).mp both.2⟩

theorem storedQueued_displaceAll {group : String} {requested : List String} :
    StoredQueued ((activeGroupRuns state group).foldl (displace receivedAt)
        (state, requested)).1 target ↔
      StoredQueued state target ∧ group ≠ target.concurrencyGroup := by
  have nodup := activeGroupRuns_nodup state group
  unfold StoredQueued
  rw [displaceAll_runs_get? receivedAt nodup]
  split
  next listed =>
    obtain ⟨active, activeStored, here, inGroup, occupies⟩ := mem_activeGroupRuns.mp listed
    have found : state.runs.get? target.id = some active := here ▸ Runs.get?_id activeStored
    rw [found]
    constructor
    · rintro ⟨run, cancelled, queued, _⟩
      simp only [Option.map_some, Option.some.injEq] at cancelled
      have running : active.status.terminal = false := by
        cases status : active.status <;>
          simp_all [RunStatus.terminal, RunStatus.occupiesConcurrencyGroup]
      rw [← cancelled, cancelOnce_status running] at queued
      split at queued <;> cases queued
    · rintro ⟨⟨run, same, _, samePlan⟩, apart⟩
      cases same
      exact absurd (inGroup.symm.trans samePlan.concurrencyGroup) apart
  rename_i unlisted
  constructor
  · rintro ⟨run, found, queued, same⟩
    refine ⟨⟨run, found, queued, same⟩, fun inGroup => unlisted ?_⟩
    exact mem_activeGroupRuns.mpr ⟨run, Table.mem_of_get? found, Runs.id_of_get? found,
      same.concurrencyGroup.trans inGroup.symm, by rw [queued]; rfl⟩
  · rintro ⟨stored, _⟩
    exact stored

theorem storedQueued_storePlan :
    StoredQueued (storePlan loop plan).state target ↔
      (StoredQueued loop.state target ∧ plan.id ≠ target.id) ∨ SamePlan plan target := by
  unfold StoredQueued storePlan
  rw [Table.get?_insert, RunRecord.admitted_plan]
  by_cases here : target.id = plan.id
  · rw [if_pos here]
    constructor
    · rintro ⟨run, same, _, samePlan⟩
      cases same
      exact .inr samePlan
    · rintro (⟨_, apart⟩ | samePlan)
      · exact absurd here.symm apart
      · exact ⟨_, rfl, rfl, samePlan⟩
  · rw [if_neg here]
    constructor
    · exact fun stored => .inl ⟨stored, fun same => here same.symm⟩
    · rintro (⟨stored, _⟩ | samePlan)
      · exact stored
      · exact absurd samePlan.id.symm here

theorem storedQueued_replacePlan :
    StoredQueued (replacePlan receivedAt loop plan).state target ↔
      ((StoredQueued loop.state target ∧ plan.concurrencyGroup ≠ target.concurrencyGroup) ∧
        plan.id ≠ target.id) ∨ SamePlan plan target := by
  unfold replacePlan
  dsimp only
  rw [storedQueued_storePlan, storedQueued_displaceAll]
  rfl

/-- A plan is queued after its turn if it was before and is not disturbed, or is accepted now. -/
theorem storedQueued_considerPlan (considered : Considered loop plan) :
    StoredQueued (considerPlan receivedAt loop plan).state target ↔
      (StoredQueued loop.state target ∧ ¬ Disturbs receivedAt loop plan target) ∨
      (Accepts receivedAt loop plan ∧ SamePlan plan target) := by
  by_cases accepts : Accepts receivedAt loop plan
  · have untaken := accepts.2.1
    have free := accepts.2.2
    by_cases replaces : plan.concurrencyPolicy = .replace
    · have stored : considerPlan receivedAt loop plan = replacePlan receivedAt
          { loop with state := debounce loop.state receivedAt plan } plan := by
        unfold considerPlan
        dsimp only
        rw [untaken, if_neg (by simp), if_neg free, if_pos replaces]
      rw [stored, storedQueued_replacePlan, storedQueued_debounce]
      simp only [Disturbs, considered, accepts, replaces, true_and]
      tauto
    · have stored : considerPlan receivedAt loop plan =
          storePlan { loop with state := debounce loop.state receivedAt plan } plan := by
        unfold considerPlan
        dsimp only
        rw [untaken, if_neg (by simp), if_neg free, if_neg replaces]
      rw [stored, storedQueued_storePlan, storedQueued_debounce]
      simp only [Disturbs, considered, accepts, replaces, true_and, false_and, false_or]
      tauto
  · have skipped : (considerPlan receivedAt loop plan).state =
        debounce loop.state receivedAt plan := by
      unfold considerPlan
      dsimp only
      split
      next => rfl
      rename_i untaken
      rw [if_pos]
      · rfl
      · by_contra free
        exact accepts ⟨considered, by simpa using untaken, free⟩
    rw [skipped, storedQueued_debounce]
    simp only [Disturbs, considered, accepts, true_and, false_and, or_false]

theorem storedQueued_round {cursor : Nat} {next : Admission} {planned : PlannedRun}
    (round : admitPlan cursor receivedAt loop planned = some next) :
    StoredQueued next.state target ↔
      (StoredQueued loop.state target ∧
        ¬ Disturbs receivedAt loop (planned.withCursor cursor) target) ∨
      (Accepts receivedAt loop (planned.withCursor cursor) ∧
        SamePlan (planned.withCursor cursor) target) := by
  obtain ⟨suppressed, decided, rfl⟩ := Option.map_eq_some_iff.mp round
  cases suppressed with
  | true =>
    have unconsidered : ¬ Considered loop (planned.withCursor cursor) := by
      simp [Considered, decided]
    simp [Disturbs, Accepts, unconsidered, skipPlan]
  | false => exact storedQueued_considerPlan decided

end Rounds

/-- Whenever the round of a plan removes a pending run, the plan passes the
checks that follow, and it or a later plan of the event for the same workflow,
trigger and executor is stored by its round and queued when the admission
returns. -/
def Coalesces (state : MemoryState) (event : PreparedEvent) (next : MemoryState) : Prop :=
  ∀ index plan loop, Round state event index plan loop →
    Removes event.receivedAt loop plan →
    Accepts event.receivedAt loop plan ∧
    ∃ later laterPlan laterLoop, index ≤ later ∧ Round state event later laterPlan laterLoop ∧
      SameTarget laterPlan plan ∧ Accepts event.receivedAt laterLoop laterPlan ∧
      StoredQueued next laterPlan

/-- Whenever the round of a plan would remove a pending run, the plan passes the
checks that follow in the state it finds, and so does it or a later plan of the
event for the same workflow, trigger and executor that the rounds after do not
disturb. -/
def KeepsPending (state : MemoryState) (event : PreparedEvent) : Prop :=
  ∀ index plan loop, Round state event index plan loop →
    Removes event.receivedAt loop plan →
    Accepts event.receivedAt loop plan ∧
    ∃ later laterPlan laterLoop, index ≤ later ∧ Round state event later laterPlan laterLoop ∧
      SameTarget laterPlan plan ∧ Accepts event.receivedAt laterLoop laterPlan ∧
      ∀ other otherPlan otherLoop, later < other →
        Round state event other otherPlan otherLoop →
        ¬ Disturbs event.receivedAt otherLoop otherPlan laterPlan

section Coalescing

variable {state next : MemoryState} {event : PreparedEvent} {outcome : AdmitOutcome} {index : Nat}

theorem Round.unique {plan otherPlan : PlannedRun} {loop otherLoop : Admission}
    (round : Round state event index plan loop)
    (other : Round state event index otherPlan otherLoop) :
    plan = otherPlan ∧ loop = otherLoop :=
  ⟨Option.some.inj (round.plan.symm.trans other.plan),
    Option.some.inj (round.loop.symm.trans other.loop)⟩

variable {plan : PlannedRun} {loop : Admission}

theorem Round.lt_length
    (round : Round state event index plan loop) : index < event.runs.length := by
  by_contra beyond
  have out := round.plan
  rw [List.getElem?_eq_none (not_lt.mp beyond)] at out
  cases out

theorem Round.onward (round : Round state event index plan loop) :
    ∃ planned, event.runs[index]? = some planned ∧
      plan = planned.withCursor (state.nextCursor + 1) ∧
      roundAt state event (index + 1) =
        admitPlan (state.nextCursor + 1) event.receivedAt loop planned := by
  obtain ⟨planned, found, rfl⟩ := Option.map_eq_some_iff.mp round.plan
  refine ⟨planned, found, rfl, ?_⟩
  have reached : admitPlans (state.nextCursor + 1) event.receivedAt
      ⟨journal state event, [], [], []⟩ (event.runs.take index) = some loop := round.loop
  simp only [roundAt, admitPlans] at reached ⊢
  rw [List.take_add_one, found, List.foldlM_append, reached]
  simp

theorem exists_round (result : admit_ state event = some (next, outcome))
    (fresh : state.eventIndex.get? (toLex (event.sourceRuntime, event.eventId)) = none) :
    (∃ final, roundAt state event event.runs.length = some final ∧ final.state = next) ∧
    ∀ index < event.runs.length, ∃ plan loop, Round state event index plan loop := by
  simp only [admit_, fresh] at result
  obtain ⟨final, rounds, result⟩ := Option.map_eq_some_iff.mp result
  simp only [Prod.mk.injEq] at result
  refine ⟨⟨final, by rw [roundAt, List.take_length]; exact rounds, result.1⟩, fun index inside => ?_⟩
  have split : admitPlans (state.nextCursor + 1) event.receivedAt
      ⟨journal state event, [], [], []⟩ (event.runs.take index ++ event.runs.drop index) =
        some final := by
    rw [List.take_append_drop]
    exact rounds
  simp only [admitPlans, List.foldlM_append, Option.bind_eq_bind, Option.bind_eq_some_iff] at split
  obtain ⟨loop, reached, _⟩ := split
  exact ⟨_, loop, fresh, by rw [List.getElem?_eq_getElem inside]; rfl, reached⟩

/-- A stored plan at the end of an admission was stored by a round that no later
round disturbs. -/
theorem storedQueued_iff (result : admit_ state event = some (next, outcome)) {later : Nat}
    (round : Round state event later plan loop) (accepts : Accepts event.receivedAt loop plan) :
    StoredQueued next plan ↔
      ∃ index finalPlan finalLoop, later ≤ index ∧ Round state event index finalPlan finalLoop ∧
        Accepts event.receivedAt finalLoop finalPlan ∧ SamePlan finalPlan plan ∧
        ∀ other otherPlan otherLoop, index < other →
          Round state event other otherPlan otherLoop →
          ¬ Disturbs event.receivedAt otherLoop otherPlan finalPlan := by
  obtain ⟨⟨final, ends, rfl⟩, rounds⟩ := exists_round result round.fresh
  let holds (index : Nat) : Prop :=
    ∃ loop, roundAt state event index = some loop ∧ StoredQueued loop.state plan
  let sets (index : Nat) : Prop := ∃ other loop, Round state event index other loop ∧
    Accepts event.receivedAt loop other ∧ SamePlan other plan
  let resets (index : Nat) : Prop := ∃ other loop, Round state event index other loop ∧
    Disturbs event.receivedAt loop other plan
  have step : ∀ index, later ≤ index → index < event.runs.length →
      (holds (index + 1) ↔ (holds index ∧ ¬ resets index) ∨ sets index) := by
    intro index _ inside
    obtain ⟨here, found, current⟩ := rounds index inside
    obtain ⟨planned, _, rfl, onward⟩ := current.onward
    obtain ⟨after, reached⟩ : ∃ after, roundAt state event (index + 1) = some after := by
      rcases Nat.lt_or_ge (index + 1) event.runs.length with more | last
      · obtain ⟨_, after, following⟩ := rounds (index + 1) more
        exact ⟨after, following.loop⟩
      · exact ⟨final, by rw [← ends]; congr 1; omega⟩
    have taken := onward.symm.trans reached
    have holdsAfter : holds (index + 1) ↔ StoredQueued after.state plan := by
      simp [holds, reached]
    have holdsBefore : holds index ↔ StoredQueued found.state plan := by
      simp [holds, current.loop]
    have only (P : PlannedRun → Admission → Prop) :
        (∃ other loop, Round state event index other loop ∧ P other loop) ↔
          P (planned.withCursor (state.nextCursor + 1)) found := by
      constructor
      · rintro ⟨other, loop, otherRound, rest⟩
        obtain ⟨rfl, rfl⟩ := current.unique otherRound
        exact rest
      · exact fun rest => ⟨_, found, current, rest⟩
    have setsHere : sets index ↔ _ := only fun other loop =>
      Accepts event.receivedAt loop other ∧ SamePlan other plan
    have resetsHere : resets index ↔ _ := only fun other loop =>
      Disturbs event.receivedAt loop other plan
    rw [holdsAfter, holdsBefore, setsHere, resetsHere]
    exact storedQueued_round taken
  have atEnd : StoredQueued final.state plan ↔ holds event.runs.length := by
    simp [holds, ends]
  rw [atEnd, latch round.lt_length.le step]
  constructor
  · rintro (⟨_, kept⟩ | ⟨index, ge, inside, ⟨other, otherLoop, otherRound, otherAccepts, same⟩,
      kept⟩)
    · refine ⟨later, plan, loop, le_rfl, round, accepts, rfl, fun index other otherLoop after
        otherRound disturbs => ?_⟩
      exact kept index (by omega) otherRound.lt_length ⟨other, otherLoop, otherRound, disturbs⟩
    · refine ⟨index, other, otherLoop, ge, otherRound, otherAccepts, same, fun k following
        followingLoop after followingRound disturbs => ?_⟩
      exact kept k after followingRound.lt_length
        ⟨following, followingLoop, followingRound, (same.disturbs_iff _ _ _).mp disturbs⟩
  · rintro ⟨index, other, otherLoop, ge, otherRound, otherAccepts, same, kept⟩
    refine .inr ⟨index, ge, otherRound.lt_length, ⟨other, otherLoop, otherRound, otherAccepts,
      same⟩, ?_⟩
    rintro k after _ ⟨following, followingLoop, followingRound, disturbs⟩
    exact kept k following followingLoop after followingRound
      ((same.disturbs_iff _ _ _).mpr disturbs)

/-- Debouncing loses no pending work exactly when every plan that removes a
pending run is stored, or followed by one for the same target that is, and the
rest of the event leaves the stored run alone. -/
theorem debounce_coalesces_iff (result : admit_ state event = some (next, outcome)) :
    Coalesces state event next ↔ KeepsPending state event := by
  constructor
  · intro coalesces index plan loop round removes
    obtain ⟨accepts, later, laterPlan, laterLoop, ge, laterRound, target, laterAccepts, stored⟩ :=
      coalesces index plan loop round removes
    obtain ⟨final, finalPlan, finalLoop, after, finalRound, finalAccepts, same, kept⟩ :=
      (storedQueued_iff result laterRound laterAccepts).mp stored
    obtain ⟨workflow, trigger, executor⟩ := same.target
    obtain ⟨laterWorkflow, laterTrigger, laterExecutor⟩ := target
    exact ⟨accepts, final, finalPlan, finalLoop, ge.trans after, finalRound,
      ⟨workflow.trans laterWorkflow, trigger.trans laterTrigger, executor.trans laterExecutor⟩,
      finalAccepts, kept⟩
  · intro keeps index plan loop round removes
    obtain ⟨accepts, later, laterPlan, laterLoop, ge, laterRound, target, laterAccepts, kept⟩ :=
      keeps index plan loop round removes
    exact ⟨accepts, later, laterPlan, laterLoop, ge, laterRound, target, laterAccepts,
      (storedQueued_iff result laterRound laterAccepts).mpr
        ⟨later, laterPlan, laterLoop, le_rfl, laterRound, laterAccepts, rfl, kept⟩⟩

end Coalescing

/-- A plan that starts 100 ns after its event was received. -/
def samplePending (id key : String) (instant : DateTime) : PlannedRun :=
  { samplePlan id key "g" .queue instant with notBefore := instant + 100 }

/-- The second of two pending events coalesces with the first. -/
theorem debounce_coalesces_second_event :
    ∃ state next outcome, (∃ run ∈ state.runs, run.status = .queued ∧ run.plan.id = "y") ∧
      admit_ state (sampleEvent "e2" 20 [samplePending "z" "kz" 20]) = some (next, outcome) ∧
      Coalesces state (sampleEvent "e2" 20 [samplePending "z" "kz" 20]) next := by
  obtain ⟨sys, reached, fresh, ⟨run, found, queued⟩, admits, accepts⟩ :=
    exists_of_replay EngineCommit IdsAgree .initial
    [.admitEvent (sampleEvent "e1" 10 [samplePending "y" "ky" 10])]
    (fun sys => sys.store.eventIndex.get? (toLex ("local", "e2")) = none ∧
      (∃ run ∈ sys.store.runs.get? "y", run.status = .queued) ∧
      (admit_ sys.store (sampleEvent "e2" 20 [samplePending "z" "kz" 20])).isSome ∧
      Accepts 20 ⟨journal sys.store (sampleEvent "e2" 20 [samplePending "z" "kz" 20]), [], [], []⟩
        ((samplePending "z" "kz" 20).withCursor (sys.store.nextCursor + 1))) (by decide)
  obtain ⟨⟨next, outcome⟩, result⟩ := Option.isSome_iff_exists.mp admits
  refine ⟨sys.store, next, outcome, ⟨run, Table.mem_of_get? found, queued,
    Runs.id_of_get? found⟩, result, (debounce_coalesces_iff result).mpr ?_⟩
  intro index plan loop round _
  have single := round.lt_length
  obtain rfl : index = 0 := by simpa [sampleEvent] using single
  have only : Round sys.store (sampleEvent "e2" 20 [samplePending "z" "kz" 20]) 0
      ((samplePending "z" "kz" 20).withCursor (sys.store.nextCursor + 1))
      ⟨journal sys.store (sampleEvent "e2" 20 [samplePending "z" "kz" 20]), [], [], []⟩ :=
    ⟨fresh, rfl, rfl⟩
  obtain ⟨rfl, rfl⟩ := only.unique round
  refine ⟨accepts, 0, _, _, le_rfl, only, ⟨rfl, rfl, rfl⟩, accepts, ?_⟩
  intro other _ _ after otherRound
  have inside := otherRound.lt_length
  simp only [sampleEvent, List.length_singleton] at inside
  omega

/-- The pending run `y` is removed by the plan `z`, which is then skipped because
the finished run `x` holds its idempotency key: nothing is pending any more. -/
theorem debounce_loses_pending_run :
    ∃ sys next outcome, GuardedRun EngineCommit IdsAgree .initial sys ∧
      admit_ sys.store (sampleEvent "e3" 20 [samplePending "z" "k" 20]) = some (next, outcome) ∧
      (∃ run ∈ sys.store.runs, run.plan.id = "y" ∧ run.status = .queued) ∧
      (∀ run ∈ next.runs, run.status ≠ .queued) ∧ outcome.skippedRunIds = ["z"] ∧
      ¬ Coalesces sys.store (sampleEvent "e3" 20 [samplePending "z" "k" 20]) next := by
  obtain ⟨sys, reached, fresh, ⟨run, found, queued⟩, removes, ⟨next, outcome⟩, result, gone,
      skipped⟩ :=
    exists_of_replay EngineCommit IdsAgree .initial
    [.admitEvent (sampleEvent "e1" 0 [samplePlan "x" "k" "g" .queue 0]),
      .claimRun 0 "runner" "w" 0 1000 "t",
      .commitRun 0 { startRun (RunRecord.admitted
          ((samplePlan "x" "k" "g" .queue 0).withCursor 1)) 0 with
        status := .succeeded, finishedAt := some 0 } [],
      .admitEvent (sampleEvent "e2" 10 [samplePending "y" "ky" 10])]
    (fun sys => sys.store.eventIndex.get? (toLex ("local", "e3")) = none ∧
      (∃ run ∈ sys.store.runs.get? "y", run.status = .queued) ∧
      Removes 20 ⟨journal sys.store (sampleEvent "e3" 20 [samplePending "z" "k" 20]), [], [], []⟩
        ((samplePending "z" "k" 20).withCursor (sys.store.nextCursor + 1)) ∧
      ∃ result ∈ admit_ sys.store (sampleEvent "e3" 20 [samplePending "z" "k" 20]),
        (∀ run ∈ result.1.runs.entries, run.status ≠ .queued) ∧
        result.2.skippedRunIds = ["z"]) (by decide)
  refine ⟨sys, next, outcome, reached, result, ⟨run, Table.mem_of_get? found,
    Runs.id_of_get? found, queued⟩, gone, skipped, fun coalesces => ?_⟩
  obtain ⟨_, _, _, _, _, _, _, _, survivor, survives, survivorQueued, _⟩ :=
    coalesces 0 _ _ ⟨fresh, rfl, rfl⟩ removes
  exact gone survivor (Table.mem_of_get? survives) survivorQueued

end Mdbase.Runtime
