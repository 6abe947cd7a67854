import Mdbase.Runtime.Progress

/-!
# Replacements and ambiguity

A replacement waits while a run it displaced is indeterminate. The runs it
displaced through replacements that were themselves displaced before running are
not listed among its blockers; they are accounted for as long as no replacement
is admitted while a queued replacement of its group waits for an indeterminate
run. `Chained` is the invariant that carries the account through any number of
successive replacements.
-/

namespace Mdbase.Runtime

open Library Relation Memory

/-- The replacements whose displacements a replacement stands for: itself, and
the replacements displaced before running by one of them. -/
inductive Lineage (store : MemoryState) (run : RunRecord) : RunRecord → Prop where
  | self : Lineage store run run
  | displaced {holder middle : RunRecord} (lineage : Lineage store run holder)
      (stored : middle ∈ store.runs) (listed : middle.plan.id ∈ holder.plan.replacementBlockers)
      (replaces : middle.plan.concurrencyPolicy = .replace)
      (cancelled : middle.status = .cancelled) (unstarted : middle.startedAt = none) :
      Lineage store run middle

/-- The runs that a replacement displaced, directly or through a chain of
replacements that were displaced before running. -/
def Displaced (store : MemoryState) (run : RunRecord) (id : String) : Prop :=
  ∃ holder, Lineage store run holder ∧ id ∈ holder.plan.replacementBlockers

variable {store : MemoryState} {id : String}

theorem isIndeterminate_eq_false_iff :
    isIndeterminate store id = false ↔
      ∀ run ∈ store.runs, run.plan.id = id → run.status ≠ .indeterminate := by
  unfold isIndeterminate
  cases found : store.runs.get? id with
  | none =>
    have absent := Table.get?_eq_none_iff.mp found
    simpa using fun run stored same => absurd same (absent run stored)
  | some run =>
    have here := Runs.id_of_get? found
    simp only [Option.any_some, decide_eq_false_iff_not]
    constructor
    · intro determined other stored same
      rw [Runs.eq_of_id stored (Table.mem_of_get? found) (same.trans here.symm)]
      exact determined
    · intro determined
      exact determined run (Table.mem_of_get? found) here

theorem Resolved.determined (resolved : Resolved store id) : isIndeterminate store id = false := by
  obtain ⟨other, stored, rfl, _, known⟩ := resolved
  rw [isIndeterminate_eq_false_iff]
  intro run runStored same
  rw [Runs.eq_of_id runStored stored same]
  exact known

/-- No run becomes indeterminate. -/
def Certain (store next : MemoryState) : Prop :=
  ∀ run ∈ next.runs, run.status = .indeterminate →
    ∃ old ∈ store.runs, old.plan.id = run.plan.id ∧ old.status = .indeterminate

variable {store next : MemoryState}

theorem Certain.determined (certain : Certain store next)
    (determined : isIndeterminate store id = false) : isIndeterminate next id = false := by
  rw [isIndeterminate_eq_false_iff] at determined ⊢
  intro run stored here doubtful
  obtain ⟨old, oldStored, same, oldDoubtful⟩ := certain run stored doubtful
  exact determined old oldStored (same.trans here) oldDoubtful

theorem Certain.insert {run : RunRecord} {leases : Leases} (certain : run.status ≠ .indeterminate) :
    Certain store { store with runs := store.runs.insert run, runLeases := leases } := by
  intro other stored doubtful
  rcases Table.mem_insert.mp stored with rfl | ⟨stored, _⟩
  · exact absurd doubtful certain
  · exact ⟨other, stored, rfl, doubtful⟩

/-- Run ids agree, and no replacement of the event meets a queued replacement of
its group that waits for an indeterminate run. -/
structure ReplacementAdmits (store : MemoryState) (event : PreparedEvent) : Prop where
  idsAgree : IdsAgree store event
  determined : ∀ plan ∈ event.runs, plan.concurrencyPolicy = .replace →
    ∀ run ∈ store.runs, run.plan.concurrencyPolicy = .replace → run.status = .queued →
    run.plan.concurrencyGroup = plan.concurrencyGroup →
    ∀ id ∈ run.plan.replacementBlockers, isIndeterminate store id = false

instance (store : MemoryState) (event : PreparedEvent) :
    Decidable (ReplacementAdmits store event) :=
  decidable_of_iff (IdsAgree store event ∧
      ∀ plan ∈ event.runs, plan.concurrencyPolicy = .replace →
        ∀ run ∈ store.runs.entries, run.plan.concurrencyPolicy = .replace →
        run.status = .queued → run.plan.concurrencyGroup = plan.concurrencyGroup →
        ∀ id ∈ run.plan.replacementBlockers, isIndeterminate store id = false)
    ⟨fun ⟨idsAgree, determined⟩ => ⟨idsAgree, determined⟩,
      fun ⟨idsAgree, determined⟩ => ⟨idsAgree, determined⟩⟩

namespace ReplacementAdmits

variable {store next : MemoryState} {event : PreparedEvent}

theorem quiet (admits : ReplacementAdmits store event) (idsAgree : IdsAgree next event)
    (quiet : Quiet store next) (certain : Certain store next) :
    ReplacementAdmits next event where
  idsAgree := idsAgree
  determined plan member replaces run stored runReplaces queued sameGroup id listed := by
    obtain ⟨old, oldStored, settled⟩ := quiet.back run stored
    rw [settled.plan] at runReplaces sameGroup listed
    have oldQueued := (settled.status_eq (by rw [queued]; rfl)).symm.trans queued
    exact certain.determined (admits.determined plan member replaces old oldStored runReplaces
      oldQueued sameGroup id listed)

/-- An admission leaves the others of its event admissible. -/
theorem change {cursor : Nat} (admits : ReplacementAdmits store event)
    (change : Change event cursor store next) : ReplacementAdmits next event := by
  have idsAgree := change.idsAgree admits.idsAgree
  cases change with
  | remove id queued =>
    refine admits.quiet idsAgree (.remove _ queued) fun run stored doubtful => ?_
    exact ⟨run, (Table.mem_erase.mp stored).1, rfl, doubtful⟩
  | cancel stored accepted =>
    refine admits.quiet idsAgree (.cancel stored accepted) (Certain.insert ?_)
    dsimp only
    rw [(RunRecord.requestCancel_cancellation accepted).status]
    split <;> simp
  | release _ _ =>
    exact admits.quiet idsAgree (.of_runs_eq le_rfl rfl)
      fun run stored doubtful => ⟨run, stored, rfl, doubtful⟩
  | @store planned plan member same own displaced untaken =>
    have certain : Certain store
        { store with runs := store.runs.insert (RunRecord.admitted plan) } :=
      Certain.insert (by simp)
    refine ⟨idsAgree, fun other otherMember replaces run stored runReplaces queued sameGroup id
      listed => certain.determined ?_⟩
    rcases Table.mem_insert.mp stored with rfl | ⟨stored, _⟩
    · rw [isIndeterminate_eq_false_iff]
      obtain ⟨blocker, blockerStored, rfl, _, settled⟩ := (displaced runReplaces).settled id listed
      intro found foundStored here
      rw [Runs.eq_of_id foundStored blockerStored here]
      rcases settled with status | status <;> simp [status]
    · exact admits.determined other otherMember replaces run stored runReplaces queued sameGroup
        id listed

theorem admissionRule : AdmissionRule ReplacementAdmits where
  idsAgree admits := admits.idsAgree
  journal admits := ⟨admits.idsAgree.journal, admits.determined⟩
  change admits step := admits.change step

end ReplacementAdmits

/-- What a replacement displaced before running was waiting for is among the
blockers of the one that displaced it, or resolved. -/
def Chained (store : MemoryState) : Prop :=
  ∀ run ∈ store.runs, run.plan.concurrencyPolicy = .replace →
    ∀ middle ∈ store.runs, middle.plan.id ∈ run.plan.replacementBlockers →
    middle.plan.concurrencyPolicy = .replace → middle.status = .cancelled →
    middle.startedAt = none →
    ∀ id ∈ middle.plan.replacementBlockers, id ∈ run.plan.replacementBlockers ∨ Resolved store id

namespace Chained

variable {store next : MemoryState}

/-- A displaced run that was never started had been cancelled when its
replacement was stored: it cannot have been running. -/
theorem quiet (chained : Chained store) (grouped : Grouped store) (quiet : Quiet store next) :
    Chained next := by
  intro run stored replaces middle middleStored listed middleReplaces cancelled unstarted id
    idListed
  obtain ⟨old, oldStored, settled⟩ := quiet.back run stored
  obtain ⟨oldMiddle, oldMiddleStored, middleSettled⟩ := quiet.back middle middleStored
  rw [settled.plan] at replaces listed ⊢
  rw [middleSettled.plan] at listed middleReplaces idListed
  have oldUnstarted : oldMiddle.startedAt = none := by rw [← middleSettled.startedAt]; exact unstarted
  have oldCancelled : oldMiddle.status = .cancelled := by
    rcases middleSettled.status with same | ⟨active, _⟩
    · exact same.symm.trans cancelled
    · obtain ⟨_, other, otherStored, same, _, left⟩ :=
        grouped.displaced old oldStored replaces _ listed
      obtain rfl := Runs.eq_of_id otherStored oldMiddleStored same
      have moving := grouped.moving other otherStored
      have running : other.status = .running := by
        cases status : other.status <;> simp_all [RunStatus.terminal]
      have started := grouped.started other otherStored running
      rw [oldUnstarted] at started
      cases started
  rcases chained old oldStored replaces oldMiddle oldMiddleStored listed middleReplaces
    oldCancelled oldUnstarted id idListed with direct | resolved
  · exact .inl direct
  · exact .inr (resolved.quiet quiet)

theorem start {run : RunRecord} {now : DateTime} {leases : Leases} (chained : Chained store)
    (stored : run ∈ store.runs) (queued : run.status = .queued) :
    Chained { store with runs := store.runs.insert (startRun run now), runLeases := leases } := by
  intro holder holderStored
  obtain ⟨old, oldStored, samePlan⟩ : ∃ old ∈ store.runs, holder.plan = old.plan := by
    rcases Table.mem_insert.mp holderStored with rfl | ⟨holderStored, _⟩
    · exact ⟨run, stored, startRun_plan run now⟩
    · exact ⟨holder, holderStored, rfl⟩
  rw [samePlan]
  intro replaces middle middleStored listed middleReplaces cancelled unstarted id idListed
  rcases Table.mem_insert.mp middleStored with rfl | ⟨middleStored, _⟩
  · simp [startRun, queued] at cancelled
  rcases chained old oldStored replaces middle middleStored listed middleReplaces cancelled
    unstarted id idListed with direct | ⟨other, otherStored, same, terminal, known⟩
  · exact .inl direct
  · refine .inr ⟨other, Table.mem_insert.mpr (.inr ⟨otherStored, fun here => ?_⟩), same, terminal,
      known⟩
    rw [startRun_plan] at here
    rw [Runs.eq_of_id otherStored stored here, queued] at terminal
    cases terminal

theorem admitted {plan : PlannedRun} (chained : Chained store)
    (absent : store.runs.get? plan.id = none)
    (account : plan.concurrencyPolicy = .replace →
      ∀ middle ∈ store.runs, middle.plan.id ∈ plan.replacementBlockers →
      middle.plan.concurrencyPolicy = .replace → middle.status = .cancelled →
      middle.startedAt = none →
      ∀ id ∈ middle.plan.replacementBlockers, id ∈ plan.replacementBlockers ∨ Resolved store id) :
    Chained { store with runs := store.runs.insert (RunRecord.admitted plan) } := by
  have apart : ∀ run ∈ store.runs, run.plan.id ≠ plan.id := Table.get?_eq_none_iff.mp absent
  have keeps : ∀ id, Resolved store id →
      Resolved { store with runs := store.runs.insert (RunRecord.admitted plan) } id := by
    rintro id ⟨other, stored, rest⟩
    exact ⟨other, Table.mem_insert.mpr (.inr ⟨stored, apart other stored⟩), rest⟩
  intro run stored replaces middle middleStored listed middleReplaces cancelled unstarted id
    idListed
  rcases Table.mem_insert.mp middleStored with rfl | ⟨middleOld, _⟩
  · cases cancelled
  rcases Table.mem_insert.mp stored with rfl | ⟨runOld, _⟩
  · exact (account replaces middle middleOld listed middleReplaces cancelled unstarted id
      idListed).imp_right (keeps id)
  · exact (chained run runOld replaces middle middleOld listed middleReplaces cancelled unstarted
      id idListed).imp_right (keeps id)

theorem resolved_of_lineage (chained : Chained store) {run holder : RunRecord}
    (stored : run ∈ store.runs) (replaces : run.plan.concurrencyPolicy = .replace)
    (direct : ∀ id ∈ run.plan.replacementBlockers, Resolved store id)
    (lineage : Lineage store run holder) :
    holder ∈ store.runs ∧ holder.plan.concurrencyPolicy = .replace ∧
      ∀ id ∈ holder.plan.replacementBlockers, Resolved store id := by
  induction lineage with
  | self => exact ⟨stored, replaces, direct⟩
  | displaced _ middleStored listed middleReplaces cancelled unstarted ih =>
    obtain ⟨holderStored, holderReplaces, resolved⟩ := ih
    refine ⟨middleStored, middleReplaces, fun id idListed => ?_⟩
    rcases chained _ holderStored holderReplaces _ middleStored listed middleReplaces cancelled
      unstarted id idListed with shared | settled
    · exact resolved id shared
    · exact settled

end Chained

theorem settled_cancelOnce (now : DateTime) (run : RunRecord) :
    Settled run (cancelOnce now run) := by
  unfold cancelOnce
  split
  next accepted =>
    have effect := RunRecord.requestCancel_cancellation accepted
    refine ⟨effect.plan, effect.startedAt, ?_⟩
    dsimp only
    rw [effect.status]
    by_cases running : run.status = .running
    · exact .inl (by simp [running])
    · exact .inr ⟨effect.active, by simp [running, RunStatus.terminal]⟩
  next => exact .refl run

theorem quiet_debounce (store : MemoryState) (now : DateTime) (plan : PlannedRun) :
    Quiet store (debounce store now plan) where
  cursor := by
    have changes : Changes (default : PreparedEvent) 0 store (debounce store now plan) :=
      debounce_changes store now plan
    exact changes.nextCursor.ge
  back run stored := ⟨run, (mem_debounce.mp stored).1, .refl run⟩
  forth old stored started := by
    refine ⟨old, mem_debounce.mpr ⟨stored, fun both => started ?_⟩, .refl old⟩
    have obsolete := both.2
    simp only [Memory.obsolete, decide_eq_true_eq] at obsolete
    exact obsolete.1

section Displacing

variable {store : MemoryState} {now : DateTime} {requested ids : List String}

theorem mem_displaceAll (nodup : ids.Nodup) {run : RunRecord}
    (stored : run ∈ (ids.foldl (displace now) (store, requested)).1.runs) :
    ∃ old ∈ store.runs, old.plan.id = run.plan.id ∧
      run = if run.plan.id ∈ ids then cancelOnce now old else old := by
  have found := Runs.get?_id stored
  rw [displaceAll_runs_get? _ nodup] at found
  split at found
  next listed =>
    obtain ⟨old, oldFound, same⟩ := Option.map_eq_some_iff.mp found
    exact ⟨old, Table.mem_of_get? oldFound, Runs.id_of_get? oldFound, by rw [if_pos listed, same]⟩
  next unlisted => exact ⟨run, Table.mem_of_get? found, rfl, by rw [if_neg unlisted]⟩

theorem displaceAll_mem (nodup : ids.Nodup) {old : RunRecord} (stored : old ∈ store.runs) :
    (if old.plan.id ∈ ids then cancelOnce now old else old) ∈
      (ids.foldl (displace now) (store, requested)).1.runs := by
  rw [Table.mem_iff_get?]
  split
  next listed =>
    rw [cancelOnce_plan, displaceAll_runs_get? _ nodup, if_pos listed, Runs.get?_id stored]
    rfl
  next unlisted => rw [displaceAll_runs_get? _ nodup, if_neg unlisted, Runs.get?_id stored]

theorem quiet_displaceAll (nodup : ids.Nodup) :
    Quiet store (ids.foldl (displace now) (store, requested)).1 where
  cursor := by
    have changes : Changes (default : PreparedEvent) 0 store _ :=
      displaceAll_changes now ids (store, requested)
    exact changes.nextCursor.ge
  back run stored := by
    obtain ⟨old, oldStored, _, same⟩ := mem_displaceAll nodup stored
    refine ⟨old, oldStored, ?_⟩
    rw [same]
    split
    next => exact settled_cancelOnce now old
    next => exact .refl old
  forth old stored _ := by
    refine ⟨_, displaceAll_mem nodup stored, ?_⟩
    split
    next => exact settled_cancelOnce now old
    next => exact .refl old

end Displacing

/-- What holds between the rounds of an admission. -/
structure Steady (event : PreparedEvent) (store : MemoryState) : Prop where
  admits : ReplacementAdmits store event
  grouped : Grouped store
  earlier : ∀ run ∈ store.runs, run.status = .running → run.plan.eventCursor < store.nextCursor
  chained : Chained store

namespace Steady

variable {event : PreparedEvent} {store next : MemoryState}

theorem quiet (steady : Steady event store) (admits : ReplacementAdmits next event)
    (cursor : next.nextCursor = store.nextCursor) (quiet : Quiet store next) :
    Steady event next where
  admits := admits
  grouped := steady.grouped.quiet quiet
  earlier run stored running := by
    obtain ⟨old, oldStored, settled⟩ := quiet.back run stored
    have oldRunning := (settled.status_eq (by rw [running]; rfl)).symm.trans running
    rw [settled.plan, cursor]
    exact steady.earlier old oldStored oldRunning
  chained := steady.chained.quiet steady.grouped quiet

theorem changes {cursor : Nat} (steady : Steady event store)
    (changes : Changes event cursor store next) (quiet : Quiet store next) :
    Steady event next := by
  refine steady.quiet ?_ changes.nextCursor quiet
  clear quiet
  induction changes with
  | refl => exact steady.admits
  | tail _ last ih => exact ih.change last

theorem admitted {planned plan : PlannedRun} (steady : Steady event store)
    (member : planned ∈ event.runs)
    (same : plan = (planned.withCursor store.nextCursor).withBlockers plan.replacementBlockers)
    (own : plan.concurrencyPolicy ≠ .replace →
      plan.replacementBlockers = planned.replacementBlockers)
    (displaced : plan.concurrencyPolicy = .replace → Displacement store plan)
    (untaken : ∀ run ∈ store.runs, run.plan.idempotency ≠ plan.idempotency)
    (account : plan.concurrencyPolicy = .replace →
      ∀ middle ∈ store.runs, middle.plan.id ∈ plan.replacementBlockers →
      middle.plan.concurrencyPolicy = .replace → middle.status = .cancelled →
      middle.startedAt = none →
      ∀ id ∈ middle.plan.replacementBlockers, id ∈ plan.replacementBlockers ∨ Resolved store id) :
    Steady event { store with runs := store.runs.insert (RunRecord.admitted plan) } := by
  have change : Change event store.nextCursor store
      { store with runs := store.runs.insert (RunRecord.admitted plan) } :=
    .store member same own displaced untaken
  obtain ⟨grouped, earlier⟩ := Grouped.change steady.admits.idsAgree change
    ⟨steady.grouped, steady.earlier⟩
  exact ⟨steady.admits.change change, grouped, earlier,
    steady.chained.admitted (steady.admits.idsAgree.absent member same untaken) account⟩

variable {plan : PlannedRun}

/-- The account of a replacement: what a queued replacement it displaces was
waiting for is still running, and then displaced as well, or resolved. -/
theorem account (steady : Steady event store) (member : plan ∈ event.runs)
    (replaces : plan.concurrencyPolicy = .replace) (now : DateTime) (requested : List String)
    {middle : RunRecord}
    (stored : middle ∈ ((activeGroupRuns store plan.concurrencyGroup).foldl (displace now)
      (store, requested)).1.runs)
    (listed : middle.plan.id ∈ activeGroupRuns store plan.concurrencyGroup)
    (middleReplaces : middle.plan.concurrencyPolicy = .replace)
    (unstarted : middle.startedAt = none) {id : String}
    (idListed : id ∈ middle.plan.replacementBlockers) :
    id ∈ activeGroupRuns store plan.concurrencyGroup ∨
      Resolved ((activeGroupRuns store plan.concurrencyGroup).foldl (displace now)
        (store, requested)).1 id := by
  have nodup := activeGroupRuns_nodup store plan.concurrencyGroup
  obtain ⟨old, oldStored, sameId, samePlan⟩ := mem_displaceAll nodup stored
  rw [if_pos listed] at samePlan
  have settled : Settled old middle := samePlan ▸ settled_cancelOnce now old
  rw [settled.plan] at middleReplaces idListed
  obtain ⟨active, activeStored, activeId, inGroup, occupies⟩ := mem_activeGroupRuns.mp listed
  obtain rfl := Runs.eq_of_id activeStored oldStored (activeId.trans sameId.symm)
  have queued : active.status = .queued := by
    have moving := steady.grouped.moving active activeStored
    have started := steady.grouped.started active activeStored
    rw [← settled.startedAt, unstarted] at started
    cases status : active.status <;> simp_all [RunStatus.occupiesConcurrencyGroup]
  have determined := steady.admits.determined plan member replaces active activeStored
    middleReplaces queued inGroup id idListed
  obtain ⟨_, blocker, blockerStored, rfl, blockerGroup, left⟩ :=
    steady.grouped.displaced active activeStored middleReplaces id idListed
  by_cases ended : blocker.status.terminal = true
  · right
    have known := isIndeterminate_eq_false_iff.mp determined blocker blockerStored rfl
    exact Resolved.quiet ⟨blocker, blockerStored, rfl, ended, known⟩ (quiet_displaceAll nodup)
  · left
    refine mem_activeGroupRuns.mpr ⟨blocker, blockerStored, rfl, blockerGroup.trans inGroup, ?_⟩
    cases status : blocker.status <;>
      simp_all [RunStatus.terminal, RunStatus.occupiesConcurrencyGroup]

theorem replaced {loop : Admission} (steady : Steady event loop.state) (member : plan ∈ event.runs)
    (replaces : plan.concurrencyPolicy = .replace)
    (untaken : ∀ run ∈ loop.state.runs, run.plan.idempotency ≠ plan.idempotency) (now : DateTime) :
    Steady event (replacePlan now loop (plan.withCursor loop.state.nextCursor)).state := by
  have nodup := activeGroupRuns_nodup loop.state plan.concurrencyGroup
  have changes : Changes event 0 loop.state ((activeGroupRuns loop.state
      plan.concurrencyGroup).foldl (displace now) (loop.state, loop.cancellationRequested)).1 :=
    displaceAll_changes now _ (loop.state, loop.cancellationRequested)
  have displaced := steady.changes changes (quiet_displaceAll nodup)
  refine displaced.admitted member ?_ (fun keeps => absurd replaces keeps)
    (fun _ => displaceAll_displacement loop.state now _ (plan.withCursor loop.state.nextCursor))
    ?_ ?_
  · rw [changes.nextCursor]
    rfl
  · intro run stored
    obtain ⟨old, oldStored, samePlan⟩ := displaceAll_mem_plan nodup stored
    simpa [samePlan] using untaken old oldStored
  · intro _ middle stored listed middleReplaces _ unstarted id idListed
    exact steady.account member replaces now loop.cancellationRequested stored listed
      middleReplaces unstarted idListed

theorem round {loop after : Admission} (member : plan ∈ event.runs)
    (round : admitPlan loop.state.nextCursor event.receivedAt loop plan = some after)
    (steady : Steady event loop.state) : Steady event after.state := by
  obtain ⟨suppressed, _, rfl⟩ := Option.map_eq_some_iff.mp round
  cases suppressed with
  | true => exact steady
  | false =>
    simp only [Bool.false_eq_true, if_false]
    have changes : Changes event 0 loop.state (debounce loop.state event.receivedAt
        (plan.withCursor loop.state.nextCursor)) := debounce_changes _ _ _
    have debounced := steady.changes changes (quiet_debounce _ _ _)
    rcases considerPlan_cases event.receivedAt loop (plan.withCursor loop.state.nextCursor) with
      skipped | ⟨untaken, ⟨keeps, stored⟩ | ⟨replaces, stored⟩⟩
    · rw [skipped]
      exact debounced
    · rw [stored]
      exact debounced.admitted member (by rw [changes.nextCursor]; rfl) (fun _ => rfl)
        (fun replaces => absurd replaces keeps) untaken (fun replaces => absurd replaces keeps)
    · rw [stored]
      let reached : Admission := { loop with
        state := debounce loop.state event.receivedAt (plan.withCursor loop.state.nextCursor) }
      have here : Steady event reached.state := debounced
      have replaced := here.replaced member replaces untaken event.receivedAt
      have cursor : reached.state.nextCursor = loop.state.nextCursor := changes.nextCursor
      rw [cursor] at replaced
      exact replaced

end Steady

/-- The invariant of the stores that workers reach. -/
structure Replacing (store : MemoryState) : Prop where
  grouped : Grouped store
  chained : Chained store

theorem Replacing.move
    (move : Move EngineCommit ReplacementAdmits store next) (replacing : Replacing store) :
    Replacing next := by
  obtain ⟨grouped, chained⟩ := replacing
  refine ⟨grouped.move ReplacementAdmits.admissionRule move, ?_⟩
  cases move with
  | @admit_ event _ _ holds result =>
    have entry : Steady event (journal store event) := by
      have quiet : Quiet store (journal store event) := .of_runs_eq (Nat.le_succ _) rfl
      exact ⟨ReplacementAdmits.admissionRule.journal holds, grouped.quiet quiet,
        fun run stored _ => Nat.lt_succ_of_le (grouped.cursors run stored),
        chained.quiet grouped quiet⟩
    rcases admit_rounds result entry Steady.round with rfl | reached
    · exact chained
    · exact reached.chained
  | leases _ => exact chained
  | @start run now leases stored _ status =>
    rcases status with queued | running
    · exact chained.start stored queued
    · have same : startRun run now = run := by simp [startRun, running]
      rw [same]
      exact chained.quiet grouped (.insert leases stored (.refl run))
  | cancel stored accepted => exact chained.quiet grouped (.cancel stored accepted)
  | commit stored submitted => exact chained.quiet grouped (.commit stored submitted)

/-- In every run of the engine's workers in which no replacement is admitted
while a queued replacement of its group waits for an indeterminate run: when a
replacement is started, no run that it displaced, directly or through
replacements displaced before running, is indeterminate. -/
theorem replacements_start_without_ambiguity {sys next : Clients}
    (reached : GuardedRun EngineCommit ReplacementAdmits .initial sys)
    (step : GuardedStep EngineCommit ReplacementAdmits sys next) {run after : RunRecord}
    (stored : run ∈ sys.store.runs) (replaces : run.plan.concurrencyPolicy = .replace)
    (queued : run.status = .queued) (found : next.store.runs.get? run.plan.id = some after)
    (running : after.status = .running) :
    ∀ id, Displaced sys.store run id → isIndeterminate sys.store id = false := by
  have replacing : Replacing sys.store :=
    GuardedRun.invariant ReplacementAdmits.admissionRule (fun _ _ commit => commit.submission)
      Replacing.move Fenced.initial ⟨Grouped.new, fun _ stored => by cases stored⟩ reached
  obtain ⟨call, meets, step⟩ := step
  have runnable := step.runnable_of_starts ReplacementAdmits.admissionRule
    (Fenced.guardedRun ReplacementAdmits.admissionRule reached) meets stored queued
    (Table.mem_of_get? found) (Runs.id_of_get? found) running
  have direct : ∀ id ∈ run.plan.replacementBlockers, Resolved sys.store id :=
    fun id listed => replacing.grouped.resolved_of_runnable stored replaces runnable listed
  rintro id ⟨holder, lineage, listed⟩
  exact ((replacing.chained.resolved_of_lineage stored replaces direct lineage).2.2 id
    listed).determined

/-- The record of a running run `a` whose cancellation a replacement requested
at 1, as the worker that claims it again receives it. -/
def sampleDisplaced : RunRecord :=
  { startRun (RunRecord.admitted ((samplePlan "a" "ka" "g" .queue 0).withCursor 1)) 0 with
    revision := 1
    cancelRequestedAt := some 1
    updatedAt := 1 }

/-- A replacement is started after the run it displaced was cancelled. -/
theorem replacements_start_without_ambiguity_after_cancellation :
    ∃ sys run, GuardedRun EngineCommit ReplacementAdmits .initial sys ∧
      run ∈ sys.store.runs ∧ Displaced sys.store run "a" ∧
      isIndeterminate sys.store "a" = false := by
  obtain ⟨sys, reached, run, found, replaces, queued, listed, next, performed, after, afterFound,
      running⟩ := exists_of_replay EngineCommit ReplacementAdmits .initial
    [.admitEvent (sampleEvent "e1" 0 [samplePlan "a" "ka" "g" .queue 0]),
      .claimRun 0 "runner" "w" 0 10 "t1",
      .admitEvent (sampleEvent "e2" 1 [samplePlan "b" "kb" "g" .replace 1]),
      .claimRun 1 "runner" "w" 100 10 "t2",
      .commitRun 1 { sampleDisplaced with status := .cancelled, finishedAt := some 100 } []]
    (fun sys => ∃ run ∈ sys.store.runs.get? "b", run.plan.concurrencyPolicy = .replace ∧
      run.status = .queued ∧ "a" ∈ run.plan.replacementBlockers ∧
      ∃ next ∈ sys.perform EngineCommit (.claimRun 2 "runner" "w" 200 10 "t3"),
        ∃ after ∈ next.store.runs.get? "b", after.status = .running) (by decide)
  have stored := Table.mem_of_get? found
  have displaced : Displaced sys.store run "a" := ⟨run, .self, listed⟩
  have step : GuardedStep EngineCommit ReplacementAdmits sys next :=
    ⟨.claimRun 2 "runner" "w" 200 10 "t3", trivial, Clients.perform_step EngineCommit performed⟩
  rw [← Runs.id_of_get? found] at afterFound
  exact ⟨sys, run, reached, stored, displaced, replacements_start_without_ambiguity reached step
    stored replaces queued afterFound running "a" displaced⟩

/-- While `b` waits because the run `a` it displaced is indeterminate, a further
replacement `c` displaces `b` and is started. -/
theorem replacement_starts_past_ambiguity :
    ∃ sys next run after, GuardedRun EngineCommit IdsAgree .initial sys ∧
      GuardedStep EngineCommit IdsAgree sys next ∧ run ∈ sys.store.runs ∧
      run.plan.concurrencyPolicy = .replace ∧ run.status = .queued ∧
      next.store.runs.get? run.plan.id = some after ∧ after.status = .running ∧
      Displaced sys.store run "a" ∧ isIndeterminate sys.store "a" = true := by
  obtain ⟨sys, reached, run, found, replaces, queued, listed, middle, middleFound, middleReplaces,
      cancelled, unstarted, middleListed, doubtful, next, performed, after, afterFound, running⟩ :=
    exists_of_replay EngineCommit IdsAgree .initial
    [.admitEvent (sampleEvent "e1" 0 [samplePlan "a" "ka" "g" .queue 0]),
      .claimRun 0 "runner" "w" 0 10 "t1",
      .admitEvent (sampleEvent "e2" 1 [samplePlan "b" "kb" "g" .replace 1]),
      .claimRun 1 "runner" "w" 100 10 "t2",
      .commitRun 1 { sampleDisplaced with status := .indeterminate, finishedAt := some 100 } [],
      .admitEvent (sampleEvent "e3" 101 [samplePlan "c" "kc" "g" .replace 101])]
    (fun sys => ∃ run ∈ sys.store.runs.get? "c", run.plan.concurrencyPolicy = .replace ∧
      run.status = .queued ∧ "b" ∈ run.plan.replacementBlockers ∧
      ∃ middle ∈ sys.store.runs.get? "b", middle.plan.concurrencyPolicy = .replace ∧
        middle.status = .cancelled ∧ middle.startedAt = none ∧
        "a" ∈ middle.plan.replacementBlockers ∧ isIndeterminate sys.store "a" = true ∧
        ∃ next ∈ sys.perform EngineCommit (.claimRun 2 "runner" "w" 200 10 "t3"),
          ∃ after ∈ next.store.runs.get? "c", after.status = .running) (by decide)
  have stored := Table.mem_of_get? found
  refine ⟨sys, next, run, after, reached,
    ⟨.claimRun 2 "runner" "w" 200 10 "t3", trivial, Clients.perform_step EngineCommit performed⟩,
    stored, replaces, queued, ?_, running, ⟨middle, ?_, middleListed⟩, doubtful⟩
  · rw [Runs.id_of_get? found]
    exact afterFound
  · refine .displaced .self (Table.mem_of_get? middleFound) ?_ middleReplaces cancelled unstarted
    rw [Runs.id_of_get? middleFound]
    exact listed

end Mdbase.Runtime
