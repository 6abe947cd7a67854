import Mdbase.Runtime.Engine.Consistency

/-!
# The versions of a run

Every record that was ever stored or handed out is a version of its run, and a run
is its plan, which carries the cursor of its event. `Chronicle` says that the
versions of one run form a chain under a relation that commits, claims and
cancellations respect, and that the stored record and the record of the worker
under lease are above all of them. Ids may be reused: a run whose record was
replaced by that of another plan is only lost.
-/

namespace Mdbase.Runtime

open Library Relation Memory

/-- Every token in use was issued, and a token belongs to one worker. -/
structure Owned (trace : Trace) : Prop where
  leaseIssued : ∀ id entry, trace.store.runLeases.get? id = some entry →
    entry.2.token ∈ trace.issued
  claimIssued : ∀ slot position, trace.positions slot = some position →
    position.claim.token ∈ trace.issued
  owner : ∀ left right leftPosition rightPosition, trace.positions left = some leftPosition →
    trace.positions right = some rightPosition →
    leftPosition.claim.token = rightPosition.claim.token → left = right

/-- No lease is new. -/
def LeasesKept (store next : MemoryState) : Prop :=
  ∀ id entry, next.runLeases.get? id = some entry → store.runLeases.get? id = some entry

namespace LeasesKept

variable {store next : MemoryState}

theorem erase (store : MemoryState) (released : String) (runs : Runs) :
    LeasesKept store { store with runs := runs, runLeases := store.runLeases.erase released } := by
  intro id entry leased
  rw [Table.get?_erase] at leased
  split at leased
  next => cases leased
  next => exact leased

theorem recordCancellation (store : MemoryState) (cancelled : RunRecord) :
    LeasesKept store (Memory.recordCancellation store cancelled) := by
  intro id entry leased
  unfold Memory.recordCancellation at leased
  dsimp only at leased
  split at leased
  next => exact erase store _ store.runs id entry leased
  next => exact leased

theorem change {event : PreparedEvent} {cursor : Nat} (change : Change event cursor store next) :
    LeasesKept store next := by
  cases change with
  | remove removed _ => exact erase store removed _
  | cancel _ _ => exact recordCancellation store _
  | release _ _ => exact erase store _ store.runs
  | store _ _ _ _ _ => exact fun _ _ leased => leased

theorem admit_ {event : PreparedEvent} {outcome : AdmitOutcome}
    (result : Memory.admit_ store event = some (next, outcome)) : LeasesKept store next := by
  rcases admit_changes result with ⟨rfl, _⟩ | ⟨_, _, _, changes⟩
  · exact fun _ _ leased => leased
  · have entry : LeasesKept store (journal store event) := fun _ _ leased => leased
    clear result
    induction changes with
    | refl => exact entry
    | tail _ last ih => exact fun id lease leased => ih id lease (change last id lease leased)

theorem requestCancel (store : MemoryState) (id : String) (now : DateTime) :
    LeasesKept store (Memory.requestCancel store id now).1 := by
  unfold Memory.requestCancel
  split
  next => exact fun _ _ leased => leased
  split
  next => exact fun _ _ leased => leased
  next => exact recordCancellation store _

theorem releaseExpired (store : MemoryState) (now : DateTime) :
    LeasesKept store (Memory.releaseExpired store now) := by
  intro id entry leased
  unfold Memory.releaseExpired at leased
  dsimp only at leased
  rw [Table.get?_filter] at leased
  exact (Option.filter_eq_some_iff.mp leased).1

theorem install (store : MemoryState) (run : RunRecord) :
    LeasesKept store (releaseTerminal (installRun store run) run) := by
  unfold releaseTerminal
  split
  next => exact erase store _ _
  next => exact fun _ _ leased => leased

end LeasesKept

namespace Owned

variable {ext : Externals} {conditions : Conditions} {trace later : Trace}

theorem rewrite (owned : Owned trace) {slot : Nat} {position moved : Position} {store : MemoryState}
    {sent : List Sent} {recorded : List Recorded} (at_ : trace.positions slot = some position)
    (leaseIssued : ∀ id entry, store.runLeases.get? id = some entry → entry.2.token ∈ trace.issued)
    (token : moved.claim.token = position.claim.token) :
    Owned ⟨store, Function.update trace.positions slot (some moved), trace.issued, sent,
      recorded⟩ := by
  have former : ∀ other found,
      Function.update trace.positions slot (some moved) other = some found →
      ∃ before, trace.positions other = some before ∧ before.claim.token = found.claim.token := by
    intro other found holds
    rcases updated_cases holds with ⟨rfl, same⟩ | ⟨_, kept⟩
    · cases same
      exact ⟨position, at_, token.symm⟩
    · exact ⟨found, kept, rfl⟩
  refine ⟨leaseIssued, ?_, ?_⟩
  · intro other found holds
    obtain ⟨before, held, same⟩ := former other found holds
    rw [← same]
    exact owned.claimIssued other before held
  · intro left right leftFound rightFound leftHolds rightHolds same
    obtain ⟨leftBefore, leftHeld, leftSame⟩ := former left leftFound leftHolds
    obtain ⟨rightBefore, rightHeld, rightSame⟩ := former right rightFound rightHolds
    exact owned.owner left right leftBefore rightBefore leftHeld rightHeld
      (leftSame.trans (same.trans rightSame.symm))

/-- Every step keeps the positions of the workers apart. -/
theorem step (owned : Owned trace) (step : TraceStep ext conditions trace later) : Owned later := by
  cases step with
  | admitEvent _ result =>
    exact ⟨fun id entry leased => owned.leaseIssued id entry
      (LeasesKept.admit_ result id entry leased), owned.claimIssued, owned.owner⟩
  | @claimed slot config _ _ token now _ _ claim fresh _ result =>
    obtain ⟨run, granted⟩ := claimRun_granted result
    constructor
    · intro id entry leased
      rw [granted.next_eq, Table.get?_insert] at leased
      split at leased
      next =>
        cases leased
        exact List.mem_cons_self
      exact List.mem_cons_of_mem _ (owned.leaseIssued id entry
        (LeasesKept.releaseExpired trace.store now id entry leased))
    · intro other position holds
      rcases updated_cases holds with ⟨_, same⟩ | ⟨_, kept⟩
      · cases same
        rw [granted.token_eq]
        exact List.mem_cons_self
      · exact List.mem_cons_of_mem _ (owned.claimIssued other position kept)
    · intro left right leftPosition rightPosition leftHolds rightHolds same
      rcases updated_cases leftHolds with ⟨rfl, leftSame⟩ | ⟨_, leftKept⟩ <;>
        rcases updated_cases rightHolds with ⟨rfl, rightSame⟩ | ⟨_, rightKept⟩
      · rfl
      · cases leftSame
        rw [granted.token_eq] at same
        exact absurd (same ▸ owned.claimIssued right rightPosition rightKept) fresh
      · cases rightSame
        rw [granted.token_eq] at same
        exact absurd (same ▸ owned.claimIssued left leftPosition leftKept) fresh
      · exact owned.owner left right leftPosition rightPosition leftKept rightKept same
  | released now =>
    exact ⟨fun id entry leased => owned.leaseIssued id entry
      (LeasesKept.releaseExpired trace.store now id entry leased), owned.claimIssued,
      owned.owner⟩
  | requestCancel id now =>
    exact ⟨fun other entry leased => owned.leaseIssued other entry
      (LeasesKept.requestCancel trace.store id now other entry leased), owned.claimIssued,
      owned.owner⟩
  | crash slot =>
    have kept : ∀ other position, Function.update trace.positions slot none other = some position →
        trace.positions other = some position := by
      intro other position holds
      rcases updated_cases holds with ⟨_, same⟩ | ⟨_, kept⟩
      · cases same
      · exact kept
    exact ⟨owned.leaseIssued, fun other position holds => owned.claimIssued other position
      (kept other position holds), fun left right leftPosition rightPosition leftHolds
      rightHolds => owned.owner left right leftPosition rightPosition
        (kept left leftPosition leftHolds) (kept right rightPosition rightHolds)⟩
  | @send slot position invocation result at_ _ _ => exact owned.rewrite at_ owned.leaseIssued rfl
  | @commit slot position site run store next at_ _ _ result =>
    obtain ⟨rfl, rfl, _⟩ := commitRun_stores result
    refine owned.rewrite at_ (fun id entry leased => ?_) rfl
    exact owned.leaseIssued id entry (LeasesKept.install trace.store run id entry leased)

theorem run (reached : TraceRun ext conditions .initial trace) : Owned trace := by
  induction reached with
  | refl => constructor <;> simp [Trace.initial, MemoryState.new]
  | tail _ last ih => exact ih.step last

end Owned

/-- A stored record and its cancellation. -/
def Cancels (run next : RunRecord) : Prop :=
  ∃ now cancelled, run.requestCancel now = some cancelled ∧
    next = { cancelled with revision := cancelled.revision + 1 }

/-- The runs of a store after one of its own operations: each belongs to the event
just admitted or is a former one, possibly cancelled. -/
structure Tended (store next : MemoryState) : Prop where
  leases : LeasesKept store next
  cursor : store.nextCursor ≤ next.nextCursor
  origin : ∀ run ∈ next.runs,
    run.plan.eventCursor = next.nextCursor ∧ store.nextCursor < next.nextCursor ∨
      ∃ base ∈ store.runs, ReflTransGen Cancels base run

namespace Tended

variable {store next : MemoryState}

theorem releaseExpired (store : MemoryState) (now : DateTime) :
    Tended store (Memory.releaseExpired store now) :=
  ⟨LeasesKept.releaseExpired store now, le_refl _, fun run stored => .inr ⟨run, stored, .refl⟩⟩

theorem requestCancel (store : MemoryState) (id : String) (now : DateTime) :
    Tended store (Memory.requestCancel store id now).1 := by
  refine ⟨LeasesKept.requestCancel store id now, ?_, ?_⟩
  · unfold Memory.requestCancel
    split
    next => exact le_refl _
    split
    next => exact le_refl _
    next => exact le_refl _
  · intro run stored
    unfold Memory.requestCancel at stored
    split at stored
    next => exact .inr ⟨run, stored, .refl⟩
    rename_i old found
    split at stored
    next => exact .inr ⟨run, stored, .refl⟩
    rename_i cancelled accepted
    rw [recordCancellation_runs] at stored
    rcases Table.mem_insert.mp stored with rfl | ⟨kept, _⟩
    · exact .inr ⟨old, Table.mem_of_get? found, .single ⟨now, cancelled, accepted, rfl⟩⟩
    · exact .inr ⟨run, kept, .refl⟩

/-- An admission leaves the runs tended. -/
theorem admit_ {event : PreparedEvent} {outcome : AdmitOutcome}
    (result : Memory.admit_ store event = some (next, outcome)) : Tended store next := by
  have leases := LeasesKept.admit_ result
  rcases admit_changes result with ⟨rfl, _⟩ | ⟨_, _, _, changes⟩
  · exact ⟨leases, le_refl _, fun run stored => .inr ⟨run, stored, .refl⟩⟩
  · have cursor : next.nextCursor = store.nextCursor + 1 := Changes.nextCursor changes
    refine ⟨leases, by omega, fun run stored => ?_⟩
    rw [cursor]
    have origin : run.plan.eventCursor = store.nextCursor + 1 ∨
        ∃ base ∈ store.runs, ReflTransGen Cancels base run := by
      clear result leases cursor
      induction changes generalizing run with
      | refl => exact .inr ⟨run, stored, .refl⟩
      | tail _ last ih =>
        cases last with
        | remove id _ => exact ih run (Table.mem_erase.mp stored).1
        | @cancel old cancelled now oldStored accepted =>
          rw [recordCancellation_runs] at stored
          rcases Table.mem_insert.mp stored with rfl | ⟨kept, _⟩
          · rcases ih old oldStored with fresh | ⟨base, baseStored, cancels⟩
            · refine .inl ?_
              rw [← fresh]
              exact congrArg (fun plan => plan.eventCursor)
                (RunRecord.requestCancel_cancellation accepted).plan
            · exact .inr ⟨base, baseStored, cancels.tail ⟨now, cancelled, accepted, rfl⟩⟩
          · exact ih run kept
        | release _ _ => exact ih run stored
        | store _ same _ _ _ =>
          rcases Table.mem_insert.mp stored with rfl | ⟨kept, _⟩
          · refine .inl ?_
            rw [RunRecord.admitted_plan, same]
            rfl
          · exact ih run kept
    rcases origin with fresh | former
    · exact .inl ⟨fresh, by omega⟩
    · exact .inr former

end Tended

/-- A relation between the versions of a run that every operation respects, where
the workers satisfy `extra`. A cancellation that leaves its run running is
respected in both directions, because the worker may go on from the record before
it. -/
structure LineageRule (ext : Externals) (conditions : Conditions) (extra : Position → Prop)
    (Later : RunRecord → RunRecord → Prop) : Prop where
  refl : ∀ run, Later run run
  trans : ∀ {first second third}, Later first second → Later second third → Later first third
  cancels : ∀ {run next}, Sound run → Cancels run next →
    Later run next ∧ (next.status.terminal = false → Later next run)
  started : ∀ {run : RunRecord} (now : DateTime), Sound run → Later run (startRun run now)
  committed : ∀ {position : Position} {site : CommitSite} {run : RunRecord}, position.Busy →
    extra position → Commit ext conditions position site run →
    Later position.claim.run { run with revision := run.revision + 1 }

/-- The versions of the runs of a trace, the latest first. -/
structure Chronicle (Later : RunRecord → RunRecord → Prop) (trace : Trace)
    (versions : List RunRecord) : Prop where
  stored : ∀ run ∈ trace.store.runs, run ∈ versions
  held : ∀ slot position, trace.positions slot = some position → position.claim.run ∈ versions
  sent : ∀ sent ∈ trace.sent, sent.run ∈ versions
  chain : versions.Pairwise fun newer older => older.plan = newer.plan → Later older newer
  storedLast : ∀ run ∈ trace.store.runs, ∀ old ∈ versions, old.plan = run.plan → Later old run
  heldLast : ∀ slot position entry, trace.positions slot = some position →
    trace.store.runLeases.get? position.claim.run.plan.id = some entry →
    entry.2.token = position.claim.token →
    ∀ old ∈ versions, old.plan = position.claim.run.plan → Later old position.claim.run
  cursor : ∀ old ∈ versions, old.plan.eventCursor ≤ trace.store.nextCursor

namespace LineageRule

variable {ext : Externals} {conditions : Conditions} {extra : Position → Prop}
  {Later : RunRecord → RunRecord → Prop} {trace : Trace} {versions : List RunRecord}

theorem recancels (rule : LineageRule ext conditions extra Later) {base run : RunRecord}
    (sound : Sound base) (cancels : ReflTransGen Cancels base run) :
    Sound run ∧ run.plan = base.plan ∧ Later base run ∧
      (run.status.terminal = false → Later run base) := by
  induction cancels with
  | refl => exact ⟨sound, rfl, rule.refl base, fun _ => rule.refl base⟩
  | @tail middle final _ last ih =>
    obtain ⟨middleSound, middlePlan, onward, back⟩ := ih
    obtain ⟨forward, backward⟩ := rule.cancels middleSound last
    obtain ⟨now, cancelled, accepted, rfl⟩ := last
    have effect := RunRecord.requestCancel_cancellation accepted
    refine ⟨(middleSound.cancelled accepted).bump _, effect.plan.trans middlePlan,
      rule.trans onward forward, fun active => rule.trans (backward active) (back effect.active)⟩

theorem tend (rule : LineageRule ext conditions extra Later)
    (chronicle : Chronicle Later trace versions) (sound : trace.Sound) {next : MemoryState}
    (tended : Tended trace.store next) (active : LeasedActive next) :
    Chronicle Later { trace with store := next } (next.runs.entries ++ versions) := by
  -- a version with the plan of a stored run is that run's, or older than it
  have storedLast : ∀ run ∈ next.runs, ∀ old ∈ next.runs.entries ++ versions,
      old.plan = run.plan → Later old run := by
    intro run stored old member same
    rcases List.mem_append.mp member with here | before
    · have equal : old = run := Runs.eq_of_id here stored (by rw [same])
      rw [equal]
      exact rule.refl run
    · rcases tended.origin run stored with ⟨fresh, later⟩ | ⟨base, baseStored, cancels⟩
      · have bound := chronicle.cursor old before
        rw [same, fresh] at bound
        omega
      · obtain ⟨_, plan, onward, _⟩ := rule.recancels (sound.stored base baseStored) cancels
        exact rule.trans (chronicle.storedLast base baseStored old before (same.trans plan)) onward
  refine ⟨fun run stored => List.mem_append_left _ stored,
    fun slot position holds => List.mem_append_right _ (chronicle.held slot position holds),
    fun sent member => List.mem_append_right _ (chronicle.sent sent member), ?_, storedLast, ?_,
    ?_⟩
  · refine List.pairwise_append.mpr ⟨?_, chronicle.chain, ?_⟩
    · refine List.pairwise_of_forall_mem_list fun newer newerStored older olderStored same => ?_
      exact storedLast newer newerStored older (List.mem_append_left _ olderStored) same
    · intro newer newerStored older olderMember same
      exact storedLast newer newerStored older (List.mem_append_right _ olderMember) same
  · intro slot position entry holds leased mine old member same
    have before := tended.leases _ entry leased
    rcases List.mem_append.mp member with here | older
    · rcases tended.origin old here with ⟨fresh, later⟩ | ⟨base, baseStored, cancels⟩
      · have bound := chronicle.cursor _ (chronicle.held slot position holds)
        rw [← same, fresh] at bound
        omega
      · obtain ⟨_, plan, _, back⟩ := rule.recancels (sound.stored base baseStored) cancels
        have found : next.runs.get? position.claim.run.plan.id = some old := by
          rw [← same]
          exact Runs.get?_id here
        refine rule.trans (back (active _ entry old leased found)) ?_
        exact chronicle.heldLast slot position entry holds before mine base
          (chronicle.stored base baseStored) (plan.symm.trans same)
    · exact chronicle.heldLast slot position entry holds before mine old older same
  · intro old member
    rcases List.mem_append.mp member with here | older
    · rcases tended.origin old here with ⟨fresh, _⟩ | ⟨base, baseStored, cancels⟩
      · exact le_of_eq fresh
      · obtain ⟨_, plan, _⟩ := rule.recancels (sound.stored base baseStored) cancels
        rw [plan]
        exact (chronicle.cursor base (chronicle.stored base baseStored)).trans tended.cursor
    · exact (chronicle.cursor old older).trans tended.cursor

theorem grant (rule : LineageRule ext conditions extra Later)
    (chronicle : Chronicle Later trace versions) (sound : trace.Sound) (owned : Owned trace)
    {slot : Nat} {config : RuntimeConfig} {worker token : String} {now : DateTime}
    {next : MemoryState} {claim : Claim} {run : RunRecord} (fresh : token ∉ trace.issued)
    (granted : Granted trace.store worker token now next claim run) :
    Chronicle Later { trace with
        store := next
        positions := Function.update trace.positions slot (some ⟨config, claim, .evaluating⟩)
        issued := token :: trace.issued }
      (claim.run :: versions) := by
  have plan : claim.run.plan = run.plan := by
    rw [granted.run_eq, startRun_plan]
  have onward : Later run claim.run := by
    rw [granted.run_eq]
    exact rule.started now (sound.stored run granted.stored)
  have last : ∀ old ∈ claim.run :: versions, old.plan = claim.run.plan → Later old claim.run := by
    intro old member same
    rcases List.mem_cons.mp member with rfl | before
    · exact rule.refl _
    · exact rule.trans (chronicle.storedLast run granted.stored old before (same.trans plan)) onward
  refine ⟨?_, ?_, fun sent member => List.mem_cons_of_mem _ (chronicle.sent sent member), ?_, ?_,
    ?_, ?_⟩
  · intro other member
    rw [granted.next_eq] at member
    rcases Table.mem_insert.mp member with rfl | ⟨kept, _⟩
    · exact List.mem_cons_self
    · exact List.mem_cons_of_mem _ (chronicle.stored other kept)
  · intro other position holds
    rcases updated_cases holds with ⟨_, same⟩ | ⟨_, kept⟩
    · cases same
      exact List.mem_cons_self
    · exact List.mem_cons_of_mem _ (chronicle.held other position kept)
  · exact List.pairwise_cons.mpr
      ⟨fun old before same => last old (List.mem_cons_of_mem _ before) same, chronicle.chain⟩
  · intro other member old before same
    rw [granted.next_eq] at member
    rcases Table.mem_insert.mp member with rfl | ⟨kept, different⟩
    · exact last old before same
    · rcases List.mem_cons.mp before with rfl | before
      · exact absurd (congrArg PlannedRun.id same).symm different
      · exact chronicle.storedLast other kept old before same
  · intro other position entry holds leased mine old before same
    rcases updated_cases holds with ⟨_, here⟩ | ⟨_, kept⟩
    · cases here
      exact last old before same
    · have known := owned.claimIssued other position kept
      rw [granted.next_eq, Table.get?_insert] at leased
      split at leased
      next =>
        cases leased
        rw [← mine] at known
        exact absurd known fresh
      rename_i different
      rcases List.mem_cons.mp before with rfl | before
      · exact absurd (congrArg PlannedRun.id same).symm different
      · exact chronicle.heldLast other position entry kept
          (LeasesKept.releaseExpired trace.store now _ entry leased) mine old before same
  · intro old before
    have cursors : next.nextCursor = trace.store.nextCursor := by rw [granted.next_eq]
    rw [cursors]
    rcases List.mem_cons.mp before with rfl | before
    · rw [plan]
      exact chronicle.cursor run (chronicle.stored run granted.stored)
    · exact chronicle.cursor old before

theorem commit (rule : LineageRule ext conditions extra Later)
    (chronicle : Chronicle Later trace versions) (sound : trace.Sound) (owned : Owned trace)
    {slot : Nat} {position : Position} {site : CommitSite} {run : RunRecord}
    {store : MemoryState} {next : Claim} {recorded : List Recorded}
    (at_ : trace.positions slot = some position) (fits : extra position)
    (running : position.claim.run.status = .running)
    (commit : Commit ext conditions position site run)
    (result : commitRun trace.store { position.claim with run := run } [] =
      some (store, .ok next)) :
    Chronicle Later
      { trace with
        store := store
        positions := Function.update trace.positions slot (some
          { position with claim := next, stage := position.stage.after site })
        recorded := recorded }
      (next.run :: versions) := by
  obtain ⟨rfl, rfl, entry, stored, leased, _, mine, _, _⟩ := commitRun_stores result
  have samePlan : run.plan = position.claim.run.plan := commit.kept.plan
  have onward := rule.committed ((sound.held slot position at_).2 running) fits commit
  have leasedHere : trace.store.runLeases.get? position.claim.run.plan.id = some entry := by
    rw [← samePlan]
    exact leased
  have last : ∀ old ∈ versions, old.plan = run.plan →
      Later old { run with revision := run.revision + 1 } := fun old before same =>
    rule.trans (chronicle.heldLast slot position entry at_ leasedHere mine old before
      (same.trans samePlan)) onward
  refine ⟨?_, ?_, fun sent member => List.mem_cons_of_mem _ (chronicle.sent sent member), ?_, ?_,
    ?_, ?_⟩
  · intro other member
    rw [releaseTerminal_runs] at member
    rcases Table.mem_insert.mp member with rfl | ⟨kept, _⟩
    · exact List.mem_cons_self
    · exact List.mem_cons_of_mem _ (chronicle.stored other kept)
  · intro other place holds
    rcases updated_cases holds with ⟨_, same⟩ | ⟨_, kept⟩
    · cases same
      exact List.mem_cons_self
    · exact List.mem_cons_of_mem _ (chronicle.held other place kept)
  · exact List.pairwise_cons.mpr ⟨fun old before same => last old before same, chronicle.chain⟩
  · intro other member old before same
    rw [releaseTerminal_runs] at member
    rcases Table.mem_insert.mp member with rfl | ⟨kept, different⟩
    · rcases List.mem_cons.mp before with rfl | before
      · exact rule.refl _
      · exact last old before same
    · rcases List.mem_cons.mp before with rfl | before
      · exact absurd (congrArg PlannedRun.id same).symm different
      · exact chronicle.storedLast other kept old before same
  · intro other place lease holds placeLeased theirs old before same
    have former := LeasesKept.install trace.store run _ lease placeLeased
    rcases updated_cases holds with ⟨_, here⟩ | ⟨elsewhere, kept⟩
    · cases here
      rcases List.mem_cons.mp before with rfl | before
      · exact rule.refl _
      · exact last old before same
    · rcases List.mem_cons.mp before with rfl | before
      · -- the lease of the run carries the token of this worker, so nobody else has it
        have id : run.plan.id = place.claim.run.plan.id := congrArg PlannedRun.id same
        have sameEntry : some lease = some entry := by
          rw [← former, ← id]
          exact leased
        cases sameEntry
        exact absurd (owned.owner other slot place position kept at_ (theirs.symm.trans mine))
          elsewhere
      · exact chronicle.heldLast other place lease kept former theirs old before same
  · intro old before
    have cursors : (releaseTerminal (installRun trace.store run) run).nextCursor =
        trace.store.nextCursor := by
      unfold releaseTerminal
      split <;> rfl
    have bound : old.plan.eventCursor ≤ trace.store.nextCursor := by
      rcases List.mem_cons.mp before with rfl | before
      · have held := chronicle.cursor _ (chronicle.held slot position at_)
        rw [← samePlan] at held
        exact held
      · exact chronicle.cursor old before
    exact bound.trans (le_of_eq cursors.symm)

/-- Every step of the fleet extends the chronicle by the versions that it writes. -/
theorem step (rule : LineageRule ext conditions extra Later)
    (chronicle : Chronicle Later trace versions) (sound : trace.Sound) (owned : Owned trace)
    (active : LeasedActive trace.store)
    (fits : ∀ slot position, trace.positions slot = some position → extra position)
    {later : Trace} (step : TraceStep ext conditions trace later) :
    ∃ newer, Chronicle Later later (newer ++ versions) := by
  have laterActive := active.step sound step
  cases step with
  | admitEvent _ result => exact ⟨_, rule.tend chronicle sound (Tended.admit_ result) laterActive⟩
  | claimed slot fresh _ result =>
    obtain ⟨run, granted⟩ := claimRun_granted result
    exact ⟨[_], rule.grant chronicle sound owned fresh granted⟩
  | released now =>
    exact ⟨_, rule.tend chronicle sound (Tended.releaseExpired trace.store now) laterActive⟩
  | requestCancel id now =>
    exact ⟨_, rule.tend chronicle sound (Tended.requestCancel trace.store id now) laterActive⟩
  | crash slot =>
    refine ⟨[], chronicle.stored, ?_, chronicle.sent, chronicle.chain, chronicle.storedLast, ?_,
      chronicle.cursor⟩
    · intro other position holds
      rcases updated_cases holds with ⟨_, same⟩ | ⟨_, kept⟩
      · cases same
      · exact chronicle.held other position kept
    · intro other position entry holds
      rcases updated_cases holds with ⟨_, same⟩ | ⟨_, kept⟩
      · cases same
      · exact chronicle.heldLast other position entry kept
  | @send slot position invocation result at_ _ _ =>
    refine ⟨[], chronicle.stored, ?_, ?_, chronicle.chain, chronicle.storedLast, ?_,
      chronicle.cursor⟩
    · intro other place holds
      rcases updated_cases holds with ⟨_, same⟩ | ⟨_, kept⟩
      · cases same
        exact chronicle.held slot position at_
      · exact chronicle.held other place kept
    · intro sent member
      rcases List.mem_cons.mp member with rfl | before
      · exact chronicle.held slot position at_
      · exact chronicle.sent sent before
    · intro other place entry holds
      rcases updated_cases holds with ⟨_, same⟩ | ⟨_, kept⟩
      · cases same
        exact chronicle.heldLast slot position entry at_
      · exact chronicle.heldLast other place entry kept
  | @commit slot position site run store next at_ running commits result =>
    exact ⟨[_], rule.commit chronicle sound owned at_ (fits slot position at_) running commits
      result⟩

theorem onward (rule : LineageRule ext conditions extra Later)
    (fits : ∀ {trace}, TraceRun ext conditions .initial trace →
      ∀ slot position, trace.positions slot = some position → extra position)
    (reached : TraceRun ext conditions .initial trace)
    (chronicle : Chronicle Later trace versions) {later : Trace}
    (steps : TraceRun ext conditions trace later) :
    ∃ newer, Chronicle Later later (newer ++ versions) := by
  induction steps with
  | refl => exact ⟨[], chronicle⟩
  | tail before last ih =>
    obtain ⟨newer, chronicle⟩ := ih
    have middle := reached.trans before
    obtain ⟨newest, chronicle⟩ := rule.step chronicle (Trace.Sound.run middle)
      (Owned.run middle) (LeasedActive.run middle) (fits middle) last
    exact ⟨newest ++ newer, by rw [List.append_assoc]; exact chronicle⟩

theorem run (rule : LineageRule ext conditions extra Later)
    (fits : ∀ {trace}, TraceRun ext conditions .initial trace →
      ∀ slot position, trace.positions slot = some position → extra position)
    (reached : TraceRun ext conditions .initial trace) :
    ∃ versions, Chronicle Later trace versions := by
  have start : Chronicle Later .initial [] := by
    constructor <;> simp [Trace.initial, MemoryState.new]
  obtain ⟨versions, chronicle⟩ := rule.onward fits .refl start reached
  exact ⟨_, chronicle⟩

end LineageRule

end Mdbase.Runtime
