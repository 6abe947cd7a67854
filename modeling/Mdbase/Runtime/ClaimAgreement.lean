import Mdbase.Library.Selection
import Mdbase.Runtime.Replay
import Mdbase.Runtime.Sqlite.Persistence

/-!
# The stores agree on claiming

Both stores release the expired leases and look at the due runs in the order of
creation. The in-memory store takes the first one that its group lets run; the
SQLite store looks at the oldest hundred only, and at the blockers of a run only
inside its group. They select the same run exactly when neither difference
matters.
-/

namespace Mdbase.Runtime

open Library Memory Sqlite

/-- The due runs of an executor, in the order in which they are handed out. -/
def dueRuns (state : MemoryState) (executor : String) (now : DateTime) : List RunRecord :=
  (state.runs.entries.filter (due state executor now)).insertionSort
    fun left right => claimKey left ≤ claimKey right

/-- The group of a run lets it run, but a run of another group that it waits for
is indeterminate. -/
def heldFromOutside (state : MemoryState) (run : RunRecord) : Bool :=
  run.plan.concurrencyPolicy ≠ .allow ∧
    ¬ (state.runs.entries.any fun other => blocks other run) ∧
    (¬ ∃ other ∈ state.runs.entries, other.plan.concurrencyGroup = run.plan.concurrencyGroup ∧
      other.plan.id ≠ run.plan.id ∧ other.plan.id ∈ run.plan.replacementBlockers ∧
      other.status = .indeterminate) ∧
    run.plan.replacementBlockers.any (isIndeterminate state)

variable {state : MemoryState}

theorem claimKey_injective {left right : RunRecord} (leftStored : left ∈ state.runs)
    (rightStored : right ∈ state.runs) (same : claimKey left = claimKey right) : left = right := by
  have ids := congrArg (fun key => (ofLex key).2) same
  exact Runs.eq_of_id leftStored rightStored ids

variable {now : DateTime}

theorem mem_dueRuns {executor : String} {run : RunRecord} :
    run ∈ dueRuns state executor now ↔ run ∈ state.runs ∧ due state executor now run = true := by
  rw [dueRuns, List.mem_insertionSort, List.mem_filter, Table.mem_def]

theorem dueRuns_sorted (executor : String) (now : DateTime) :
    (dueRuns state executor now).Pairwise fun left right => claimKey left < claimKey right := by
  have total : Std.Total fun left right : RunRecord => claimKey left ≤ claimKey right :=
    ⟨fun left right => le_total _ _⟩
  have transitive : IsTrans RunRecord fun left right => claimKey left ≤ claimKey right :=
    ⟨fun _ _ _ => le_trans⟩
  have sorted := List.pairwise_insertionSort
    (fun left right : RunRecord => claimKey left ≤ claimKey right)
    (state.runs.entries.filter (due state executor now))
  have nodup : (dueRuns state executor now).Nodup := by
    rw [dueRuns, (List.perm_insertionSort _ _).nodup_iff]
    exact (state.runs.sorted.imp fun {_ _} below equal =>
      absurd (congrArg (fun run : RunRecord => run.plan.id) equal) below.ne).filter _
  refine (sorted.and nodup).imp_of_mem fun leftMember rightMember both => ?_
  refine lt_of_le_of_ne both.1 fun same => both.2 ?_
  exact claimKey_injective (mem_dueRuns.mp leftMember).1 (mem_dueRuns.mp rightMember).1 same

theorem claimCandidate_eq (executor : String) (now : DateTime) :
    claimCandidate state executor now =
      (dueRuns state executor now).find? (groupIsRunnable state) := by
  rw [find?_eq_argmin (dueRuns_sorted executor now), claimCandidate]
  have perm : ((state.runs.entries.filter fun run =>
      due state executor now run ∧ groupIsRunnable state run)).Perm
        ((dueRuns state executor now).filter (groupIsRunnable state)) := by
    have filtered := (List.perm_insertionSort
      (fun left right : RunRecord => claimKey left ≤ claimKey right)
      (state.runs.entries.filter (due state executor now))).filter (groupIsRunnable state)
    rw [List.filter_filter] at filtered
    refine (List.Perm.of_eq ?_).trans filtered.symm
    refine List.filter_congr fun run _ => ?_
    rw [Bool.decide_and, Bool.decide_eq_true, Bool.decide_eq_true, Bool.and_comm]
  refine argmin_eq_of_perm perm fun one oneMember other otherMember => ?_
  exact claimKey_injective (List.mem_filter.mp oneMember).1 (List.mem_filter.mp otherMember).1

theorem Sqlite.Storable.releaseExpired (storable : Storable state) (now : DateTime) :
    Storable (Memory.releaseExpired state now) := by
  refine ⟨storable.instants, storable.createdAt, storable.revisions, ?_, storable.cursor,
    storable.journal⟩
  intro entry member
  exact storable.leases entry (Table.mem_filter.mp member).1

theorem releaseExpired_persist (storable : Storable state) (stamped : Stamped now) :
    Sqlite.releaseExpired (persist state) now = persist (Memory.releaseExpired state now) := by
  refine Tables.ext_runs rfl rfl rfl fun id => ?_
  have released : (Sqlite.releaseExpired (persist state) now).runs.get? id =
      ((persist state).runs.get? id).map (RunRow.releaseExpired now) :=
    Table.get?_image (persist state).runs (RunRow.releaseExpired_id now) id
  rw [released, persist_runs_get?, persist_runs_get?, Option.map_map]
  have lease : leaseOf (Memory.releaseExpired state now) id =
      (leaseOf state id).filter fun lease => lease.expiresAt > now := by
    rw [leaseOf, leaseOf, Memory.releaseExpired, Table.get?_filter]
    cases state.runLeases.get? id with
    | none => rfl
    | some entry =>
      rw [Option.map_some, Option.filter, Option.filter]
      split <;> rfl
  have runs : (Memory.releaseExpired state now).runs = state.runs := rfl
  rw [runs, lease]
  cases found : state.runs.get? id with
  | none => rfl
  | some run =>
    rw [Option.map_some, Option.map_some, Function.comp_apply]
    cases held : state.runLeases.get? id with
    | none => simp [leaseOf, held, RunRow.releaseExpired, runRow]
    | some entry =>
      have expires := (storable.leases entry (Table.mem_of_get? held)).2
      have order := expires.timestamp_le_iff stamped
      by_cases expired : entry.2.expiresAt ≤ now
      · simp [leaseOf, held, RunRow.releaseExpired, runRow, order.mpr expired, expired]
      · have kept : ¬ timestamp entry.2.expiresAt ≤ timestamp now :=
          fun early => expired (order.mp early)
        have later : now < entry.2.expiresAt := not_le.mp expired
        simp [leaseOf, held, RunRow.releaseExpired, runRow, kept, later]

/-- The rows that `claim_run` looks at are those of the oldest hundred due
runs. -/
theorem candidateRows_persist (storable : Storable state) (stamped : Stamped now)
    (executor : String) :
    (candidateRows (persist state) executor now).map RunRow.recordJson =
      (dueRuns state executor now).take 100 := by
  have selected : ((persist state).runs.entries.filter fun row =>
      row.executor = executor ∧ row.status ∈ ["queued", "running"] ∧
        row.notBefore ≤ timestamp now ∧ row.leaseToken.isNone) =
      (state.runs.entries.filter (due state executor now)).map
        fun run => runRow (leaseOf state run.plan.id) run := by
    simp only [persist, Table.image, List.filter_map]
    congr 1
    refine List.filter_congr fun run stored => ?_
    have begins := (storable.instants run stored).2.timestamp_le_iff stamped
    have status : runStatus run.status ∈ ["queued", "running"] ↔
        (!run.status.terminal) = true ∧ run.status ≠ .waiting := by
      cases run.status <;> decide
    have unleased : (runRow (leaseOf state run.plan.id) run).leaseToken.isNone =
        (state.runLeases.get? run.plan.id).isNone := by
      simp [runRow, leaseOf]
    rw [Bool.eq_iff_iff, Function.comp_apply, decide_eq_true_iff, unleased]
    simp only [due, decide_eq_true_eq]
    change run.plan.executor = executor ∧ runStatus run.status ∈ ["queued", "running"] ∧
      timestamp run.plan.notBefore ≤ timestamp now ∧ _ ↔ _
    rw [status, begins]
    tauto
  rw [candidateRows, selected, dueRuns, ← List.map_insertionSort
    (fun left right : RunRecord => claimKey left ≤ claimKey right)]
  · rw [← List.map_take, List.map_map]
    exact List.map_id _
  · intro left leftMember right rightMember
    have leftStored := (List.mem_filter.mp leftMember).1
    have rightStored := (List.mem_filter.mp rightMember).1
    have leftCreated := (storable.instants left leftStored).1
    have rightCreated := (storable.instants right rightStored).1
    simp only [claimKey, runRow, insertedRow, Prod.Lex.toLex_le_toLex,
      storable.createdAt left leftStored, storable.createdAt right rightStored,
      leftCreated.timestamp_inj rightCreated,
      timestamp_lt_iff leftCreated.whole leftCreated.last rightCreated]

/-- A run of the group of another one that is indeterminate and that it waits
for. -/
def heldInGroup (state : MemoryState) (run : RunRecord) : Prop :=
  ∃ other ∈ state.runs.entries, other.plan.concurrencyGroup = run.plan.concurrencyGroup ∧
    other.plan.id ≠ run.plan.id ∧ other.plan.id ∈ run.plan.replacementBlockers ∧
    other.status = .indeterminate

theorem any_others_persist (state : MemoryState) (run : RunRecord) (test : RunRecord → Bool) :
    ((((persist state).runs.entries.filter fun row =>
      row.concurrencyGroup = run.plan.concurrencyGroup ∧ row.id ≠ run.plan.id).map
        RunRow.recordJson).any test) = true ↔
      ∃ other ∈ state.runs.entries, other.plan.concurrencyGroup = run.plan.concurrencyGroup ∧
        other.plan.id ≠ run.plan.id ∧ test other = true := by
  simp only [persist, Table.image, List.filter_map, List.map_map, List.any_map, List.any_eq_true,
    List.mem_filter, Function.comp_apply, decide_eq_true_eq]
  constructor
  · rintro ⟨other, ⟨stored, group, different⟩, holds⟩
    exact ⟨other, stored, group, different, holds⟩
  · rintro ⟨other, stored, group, different, holds⟩
    exact ⟨other, ⟨stored, group, different⟩, holds⟩

/-- The SQL check of the group lets a run through when the in-memory check does,
and when it is only held from outside of its group. -/
theorem groupIsRunnableTx_persist (run : RunRecord) :
    groupIsRunnableTx (persist state) run = true ↔
      groupIsRunnable state run = true ∨ heldFromOutside state run = true := by
  unfold groupIsRunnableTx groupIsRunnable heldFromOutside
  by_cases allowed : run.plan.concurrencyPolicy = .allow
  · simp [allowed]
  · have blocked := any_others_persist state run fun other =>
      (other.status = .running ∨ other.status = .waiting) ∨
        (other.status = .queued ∧ queueKey other < queueKey run)
    have held := any_others_persist state run fun other =>
      run.plan.replacementBlockers.contains other.plan.id ∧ other.status = .indeterminate
    have blocks_iff : (state.runs.entries.any fun other => blocks other run) = true ↔
        ∃ other ∈ state.runs.entries, other.plan.concurrencyGroup = run.plan.concurrencyGroup ∧
          other.plan.id ≠ run.plan.id ∧
          decide ((other.status = .running ∨ other.status = .waiting) ∨
            (other.status = .queued ∧ queueKey other < queueKey run)) = true := by
      rw [List.any_eq_true]
      refine exists_congr fun other => and_congr_right fun _ => ?_
      simp only [blocks, decide_eq_true_eq]
      tauto
    have inGroup : heldInGroup state run →
        run.plan.replacementBlockers.any (isIndeterminate state) = true := by
      rintro ⟨other, stored, _, _, waited, status⟩
      rw [List.any_eq_true]
      refine ⟨other.plan.id, waited, ?_⟩
      rw [isIndeterminate, Runs.get?_id stored]
      simp [status]
    have held_iff : heldInGroup state run ↔
        ∃ other ∈ state.runs.entries, other.plan.concurrencyGroup = run.plan.concurrencyGroup ∧
          other.plan.id ≠ run.plan.id ∧
          decide (run.plan.replacementBlockers.contains other.plan.id = true ∧
            other.status = .indeterminate) = true := by
      refine exists_congr fun other => and_congr_right fun _ => ?_
      simp only [List.contains_iff_mem, decide_eq_true_eq]
    rw [← blocks_iff, ← Bool.eq_iff_iff] at blocked
    rw [← held_iff] at held
    rw [if_neg allowed, if_neg allowed]
    simp only [blocked]
    cases free : state.runs.entries.any fun other => blocks other run with
    | true => simp
    | false =>
      by_cases waits : heldInGroup state run
      · have waited := inGroup waits
        have refused := held.mpr waits
        simp only [refused, waited]
        unfold heldInGroup at waits
        simp [waits]
      · have passes := Bool.eq_false_iff.mpr fun waited => waits (held.mp waited)
        simp only [passes]
        unfold heldInGroup at waits
        cases run.plan.replacementBlockers.any (isIndeterminate state) with
        | true => simp [allowed, waits]
        | false => simp

theorem selectedRun_persist (storable : Storable state) (stamped : Stamped now)
    (executor : String) :
    selectedRun (persist state) executor now =
      ((dueRuns state executor now).take 100).find? fun run =>
        groupIsRunnable state run || heldFromOutside state run := by
  rw [selectedRun, candidateRows_persist storable stamped]
  congr 1
  funext run
  rw [Bool.eq_iff_iff, groupIsRunnableTx_persist, Bool.or_eq_true]

/-- The hundred oldest due runs contain the first one that may run, and a run
that is only held from outside of its group comes after one that may run. -/
structure Served (state : MemoryState) (executor : String) (now : DateTime) : Prop where
  within : ∀ run, (dueRuns state executor now).find? (groupIsRunnable state) = some run →
    run ∈ (dueRuns state executor now).take 100
  unheld : ∀ run ∈ (dueRuns state executor now).take 100, heldFromOutside state run = true →
    ∃ other ∈ dueRuns state executor now, claimKey other < claimKey run ∧
      groupIsRunnable state other = true

theorem not_heldFromOutside {run : RunRecord} (runnable : groupIsRunnable state run = true) :
    heldFromOutside state run = false := by
  unfold groupIsRunnable at runnable
  unfold heldFromOutside
  split at runnable
  next allowed => simp [allowed]
  next => simp_all

theorem selected_alike_iff (storable : Storable state) (stamped : Stamped now) (executor : String) :
    claimCandidate state executor now = selectedRun (persist state) executor now ↔
      Served state executor now := by
  rw [claimCandidate_eq, selectedRun_persist storable stamped,
    find?_eq_find?_take_iff (dueRuns_sorted executor now) fun _ _ runnable => by simp [runnable]]
  constructor
  · rintro ⟨within, first⟩
    refine ⟨within, fun run member held => ?_⟩
    rcases first run member (by simp [held]) with runnable | earlier
    · rw [not_heldFromOutside runnable] at held
      cases held
    · exact earlier
  · rintro ⟨within, unheld⟩
    refine ⟨within, fun run member passes => ?_⟩
    rcases Bool.or_eq_true_iff.mp passes with runnable | held
    · exact .inl runnable
    · exact .inr (unheld run member held)

/-- What a claim call answers when it has selected a run, or none. -/
def claimReply (candidate : Option RunRecord) (worker : String) (now : DateTime)
    (leaseFor : Duration) (token : String) : Option (Except RuntimeError (Option Claim)) :=
  match candidate with
  | none => some (.ok none)
  | some run => (addStdDuration now leaseFor).map (Except.map fun expiresAt =>
    some { run := startRun run now, worker := worker, token := token, expiresAt := expiresAt })

theorem startRun_plan (run : RunRecord) (now : DateTime) : (startRun run now).plan = run.plan := by
  unfold startRun
  split <;> rfl

theorem startRun_revision (run : RunRecord) (now : DateTime) :
    (startRun run now).revision = run.revision := by
  unfold startRun
  split <;> rfl

theorem memory_claimReply (executor worker : String) (now : DateTime) (leaseFor : Duration)
    (token : String) :
    (Memory.claimRun state executor worker now leaseFor token).map Prod.snd =
      claimReply (claimCandidate (Memory.releaseExpired state now) executor now) worker now leaseFor
        token := by
  unfold Memory.claimRun claimReply
  dsimp only
  cases claimCandidate (Memory.releaseExpired state now) executor now with
  | none => rfl
  | some run =>
    cases addStdDuration now leaseFor with
    | none => rfl
    | some ended => cases ended <;> rfl

/-- The database answers a claim by the run that its query selects. -/
theorem sqlite_claimReply (storable : Storable state) (stamped : Stamped now)
    (executor worker : String) (leaseFor : Duration) (token : String) :
    Option.map (Except.map Prod.snd)
        (Sqlite.claimRun (persist state) executor worker now leaseFor token) =
      claimReply (selectedRun (persist (Memory.releaseExpired state now)) executor now) worker now
        leaseFor token := by
  have released := storable.releaseExpired now
  unfold Sqlite.claimRun claimReply
  dsimp only
  rw [releaseExpired_persist storable stamped]
  cases selected : selectedRun (persist (Memory.releaseExpired state now)) executor now with
  | none => rfl
  | some run =>
    cases ends : addStdDuration now leaseFor with
    | none => rfl
    | some ended =>
      cases ended with
      | error error => rfl
      | ok expiresAt =>
        rw [selectedRun_persist released stamped] at selected
        have queued := List.mem_of_mem_take (List.mem_of_find?_eq_some selected)
        obtain ⟨stored, isDue⟩ := mem_dueRuns.mp queued
        have found := Runs.get?_id stored
        have bound : run.revision ≤ i64Max := released.revisions run stored
        have unleased : (Memory.releaseExpired state now).runLeases.get? run.plan.id = none := by
          simp only [due, decide_eq_true_eq] at isDue
          exact Option.isNone_iff_eq_none.mp isDue.2.2.2.2
        have row : (persist (Memory.releaseExpired state now)).runs.get?
            (startRun run now).plan.id = some (runRow none run) := by
          rw [startRun_plan, persist_runs_get?, found, leaseOf, unleased]
          rfl
        have param : revisionParam (startRun run now).revision =
            some (.ok (run.revision : Int)) := by
          rw [startRun_revision, revisionParam, if_pos bound]
          rfl
        simp only [param, row]
        change Option.map (Except.map Prod.snd) (if _ then _ else _ : Transaction _) = _
        rw [if_pos ⟨rfl, rfl⟩]
        rfl

theorem addStdDuration_zero (stamped : Stamped now) : addStdDuration now 0 = some (.ok now) := by
  have first := stamped.first
  have last := stamped.last
  have inRange : DateTime.minUtc ≤ now ∧ now ≤ DateTime.maxUtc := by
    simp only [DateTime.minUtc, DateTime.maxUtc, yearZero, yearTenThousand, dateTime_le_iff,
      dateTime_lt_iff] at *
    omega
  unfold addStdDuration
  split
  next long => exact absurd long (Nat.not_lt_zero _)
  have sum : now + ((0 : Nat) : Int) = now := Int.add_zero now
  have ends : DateTime.checkedAdd now ((0 : Nat) : Int) = some now := by
    rw [DateTime.checkedAdd_eq_some_iff, sum]
    exact ⟨rfl, inRange⟩
  rw [ends]
  rfl

theorem claimReply_injective {now : DateTime} (stamped : Stamped now)
    {left right : Option RunRecord} (leftStored : ∀ run, left = some run → run ∈ state.runs)
    (rightStored : ∀ run, right = some run → run ∈ state.runs)
    (same : claimReply left "" now 0 "" = claimReply right "" now 0 "") : left = right := by
  cases left with
  | none =>
    cases right with
    | none => rfl
    | some run => simp [claimReply, addStdDuration_zero stamped, Except.map] at same
  | some run =>
    cases right with
    | none => simp [claimReply, addStdDuration_zero stamped, Except.map] at same
    | some other =>
      simp only [claimReply, addStdDuration_zero stamped, Option.map_some, Except.map,
        Option.some.injEq, Except.ok.injEq, Claim.mk.injEq, and_true] at same
      have plans := congrArg RunRecord.plan same
      rw [startRun_plan, startRun_plan] at plans
      rw [Runs.eq_of_id (leftStored run rfl) (rightStored other rfl) (congrArg PlannedRun.id plans)]

/-- The two stores select alike, whatever the worker asks for, exactly when the
due runs are served alike. -/
theorem claims_agree_iff (storable : Storable state) {now : DateTime} (stamped : Stamped now)
    (executor : String) :
    (∀ worker leaseFor token,
      Option.map (Except.map Prod.snd)
          (Sqlite.claimRun (persist state) executor worker now leaseFor token) =
        (Memory.claimRun state executor worker now leaseFor token).map Prod.snd) ↔
      Served (Memory.releaseExpired state now) executor now := by
  rw [← selected_alike_iff (storable.releaseExpired now) stamped executor]
  constructor
  · intro alike
    have replies := alike "" 0 ""
    rw [sqlite_claimReply storable stamped, memory_claimReply] at replies
    refine (@claimReply_injective state now stamped _ _ ?_ ?_ replies).symm
    · intro run selected
      rw [selectedRun_persist (storable.releaseExpired now) stamped] at selected
      have queued := List.mem_of_mem_take (List.mem_of_find?_eq_some selected)
      exact (mem_dueRuns.mp queued).1
    · intro run selected
      rw [claimCandidate_eq] at selected
      exact (mem_dueRuns.mp (List.mem_of_find?_eq_some selected)).1
  · intro same worker leaseFor token
    rw [sqlite_claimReply storable stamped, memory_claimReply, same]

/-- A store whose group `g` has a running run under lease and a queued run that it holds, which is
due before the queued run of the group `h`. -/
def heldAhead : MemoryState :=
  (do
    let (state, _) ← admit_ .new (sampleEvent "e" 0 [samplePlan "a" "k" "g" .queue 0])
    let (state, _) ← Memory.claimRun state "runner" "w" 0 60000000000 "t"
    let (state, _) ← admit_ state
      (sampleEvent "f" 0 [samplePlan "b" "l" "g" .queue 0, samplePlan "c" "m" "h" .queue 0])
    pure state).getD .new

/-- Both stores pass over the held run and hand out that of the other group. -/
theorem claims_agree_on_held_run :
    Option.map (Except.map Prod.snd)
        (Sqlite.claimRun (persist heldAhead) "runner" "v" 1000000 60000000000 "u") =
      (Memory.claimRun heldAhead "runner" "v" 1000000 60000000000 "u").map Prod.snd ∧
    (dueRuns (Memory.releaseExpired heldAhead 1000000) "runner" 1000000).map (·.plan.id) =
      ["b", "c"] ∧
    (claimCandidate (Memory.releaseExpired heldAhead 1000000) "runner" 1000000).map (·.plan.id) =
      some "c" := by
  refine ⟨(claims_agree_iff (by decide +kernel) (by decide +kernel) "runner").mpr ⟨?_, ?_⟩ _ _ _,
    by decide +kernel, by decide +kernel⟩
  · intro run found
    rw [List.take_of_length_le (by decide +kernel)]
    exact List.mem_of_find?_eq_some found
  · intro run member held
    have unheld : ∀ run ∈ (dueRuns (Memory.releaseExpired heldAhead 1000000) "runner" 1000000).take 100,
        heldFromOutside (Memory.releaseExpired heldAhead 1000000) run = false := by
      decide +kernel
    rw [unheld run member] at held
    cases held

/-- Queued runs of one group, more than a claim looks at. -/
def crowd : List PlannedRun :=
  (List.range 101).map fun index =>
    samplePlan (String.singleton (Char.ofNat (200 + index)))
      (String.singleton (Char.ofNat (200 + index))) "g" .queue 0

/-- A store whose group `g` has a running run under lease and the crowd behind
it, and a group `h` with one queued run that was admitted last. -/
def crowded : Option MemoryState := do
  let (state, _) ← admit_ .new (sampleEvent "e" 0 [samplePlan "a" "k" "g" .queue 0])
  let (state, _) ← Memory.claimRun state "runner" "w" 0 60000000000 "t"
  let (state, _) ← admit_ state (sampleEvent "f" 0
    (crowd ++ [samplePlan (String.singleton (Char.ofNat 400)) "c" "h" .queue 0]))
  pure state

/-- The in-memory store hands the run of the group `h` out, the SQLite store
answers that there is none. -/
theorem claims_differ_behind_crowd : ∃ state, crowded = some state ∧ Storable state ∧
    (∃ run, claimCandidate (Memory.releaseExpired state 1000000) "runner" 1000000 = some run) ∧
    Option.map (Except.map Prod.snd)
      (Sqlite.claimRun (persist state) "runner" "w" 1000000 0 "t") = some (.ok none) ∧
    ¬ ∀ worker leaseFor token,
      Option.map (Except.map Prod.snd)
          (Sqlite.claimRun (persist state) "runner" worker 1000000 leaseFor token) =
        (Memory.claimRun state "runner" worker 1000000 leaseFor token).map Prod.snd := by
  have passes : crowded.any (fun state => decide (Storable state ∧
      (claimCandidate (Memory.releaseExpired state 1000000) "runner" 1000000).isSome = true ∧
      (((dueRuns (Memory.releaseExpired state 1000000) "runner" 1000000).take 100).find? fun run =>
        groupIsRunnable (Memory.releaseExpired state 1000000) run ||
          heldFromOutside (Memory.releaseExpired state 1000000) run).isNone = true)) = true := by
    decide +kernel
  obtain ⟨state, same, holds⟩ := (Option.any_eq_true _ _).mp passes
  obtain ⟨storable, selects, overlooks⟩ := of_decide_eq_true holds
  have stamped : Stamped 1000000 := by decide +kernel
  obtain ⟨run, selected⟩ := Option.isSome_iff_exists.mp selects
  have sqlite : Option.map (Except.map Prod.snd)
      (Sqlite.claimRun (persist state) "runner" "w" 1000000 0 "t") = some (.ok none) := by
    rw [sqlite_claimReply storable stamped,
      selectedRun_persist (storable.releaseExpired _) stamped, Option.isNone_iff_eq_none.mp overlooks]
    rfl
  refine ⟨state, same, storable, ⟨run, selected⟩, sqlite, fun alike => ?_⟩
  have replies := alike "w" 0 "t"
  rw [sqlite, memory_claimReply, selected, claimReply, addStdDuration_zero stamped] at replies
  simp [Except.map] at replies

end Mdbase.Runtime
