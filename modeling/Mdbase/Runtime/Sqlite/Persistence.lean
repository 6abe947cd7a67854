import Mdbase.Runtime.Operations
import Mdbase.Runtime.Sqlite.Statements

/-!
# The tables of an in-memory state

`persist` is the abstraction between the two stores, read backwards: the tables
that hold the runs with their leases, the event index and the next cursor of an
in-memory state. `Storable` states are those that no column truncates. The parts
of an admission commute with `persist`, one lemma for each statement.
-/

namespace Mdbase.Runtime.Sqlite

open Library Memory

/-- The lease of a run. -/
def leaseOf (state : MemoryState) (id : String) : Option Lease :=
  (state.runLeases.get? id).map Prod.snd

/-- The row of a run and its lease. -/
def runRow (lease : Option Lease) (run : RunRecord) : RunRow :=
  { insertedRow run with
    status := runStatus run.status
    leaseWorker := lease.map Lease.worker
    leaseToken := lease.map Lease.token
    leaseExpiresAt := lease.map fun lease => timestamp lease.expiresAt
    revision := run.revision }

def eventRow (entry : EventJournalEntry) : EventRow where
  cursor := entry.cursor
  sourceRuntime := entry.sourceRuntime
  eventId := entry.eventId
  envelopeJson := entry.envelope
  receivedAt := timestamp entry.receivedAt

def dedupRow (entry : (String ×ₗ String) × Nat) : DedupRow where
  sourceRuntime := (ofLex entry.1).1
  eventId := (ofLex entry.1).2
  cursor := entry.2

/-- The tables that hold an in-memory state. -/
def persist (state : MemoryState) : Tables where
  sequence := state.nextCursor
  events := state.events.map eventRow
  eventDedup := state.eventIndex.image dedupRow fun _ => rfl
  runs := state.runs.image (fun run => runRow (leaseOf state run.plan.id) run) fun _ => rfl

/-- A state whose tables lose nothing: instants are whole milliseconds of the
years 0 to 9999, revisions and cursors are below `2^63`, every lease is the lease
of a stored run and every journalled event is in the index. -/
structure Storable (state : MemoryState) : Prop where
  instants : ∀ run ∈ state.runs, Stamped run.plan.createdAt ∧ Stamped run.plan.notBefore
  createdAt : ∀ run ∈ state.runs, run.createdAt = run.plan.createdAt
  revisions : ∀ run ∈ state.runs, run.revision ≤ i64Max
  leases : ∀ entry ∈ state.runLeases, (state.runs.get? entry.1).isSome = true ∧
    Stamped entry.2.expiresAt
  cursor : state.nextCursor ≤ i64Max
  journal : ∀ entry ∈ state.events,
    (state.eventIndex.get? (toLex (entry.sourceRuntime, entry.eventId))).isSome = true

instance (state : MemoryState) : Decidable (Storable state) :=
  decidable_of_iff
    ((∀ run ∈ state.runs.entries, Stamped run.plan.createdAt ∧ Stamped run.plan.notBefore) ∧
      (∀ run ∈ state.runs.entries, run.createdAt = run.plan.createdAt) ∧
      (∀ run ∈ state.runs.entries, run.revision ≤ i64Max) ∧
      (∀ entry ∈ state.runLeases.entries, (state.runs.get? entry.1).isSome = true ∧
        Stamped entry.2.expiresAt) ∧
      state.nextCursor ≤ i64Max ∧
      ∀ entry ∈ state.events,
        (state.eventIndex.get? (toLex (entry.sourceRuntime, entry.eventId))).isSome = true)
    ⟨fun ⟨instants, createdAt, revisions, leases, cursor, journal⟩ =>
      ⟨instants, createdAt, revisions, leases, cursor, journal⟩,
      fun storable => ⟨storable.instants, storable.createdAt, storable.revisions, storable.leases,
        storable.cursor, storable.journal⟩⟩

/-- The instants of a planned run are stored exactly. -/
def PlanStamped (plan : PlannedRun) : Prop := Stamped plan.createdAt ∧ Stamped plan.notBefore

/-- The row of a run is read back as the run was persisted. -/
theorem persist_runs_get? (state : MemoryState) (id : String) :
    (persist state).runs.get? id = (state.runs.get? id).map (runRow (leaseOf state id)) := by
  have rows : ∀ run, (runRow (leaseOf state run.plan.id) run).id = run.plan.id := fun _ => rfl
  have looked : (persist state).runs.get? id =
      (state.runs.get? id).map fun run => runRow (leaseOf state run.plan.id) run :=
    Table.get?_image state.runs rows id
  rw [looked]
  cases found : state.runs.get? id with
  | none => rfl
  | some run => rw [Option.map_some, Option.map_some, Runs.id_of_get? found]

theorem Tables.ext_runs {left right : Tables} (sequence : left.sequence = right.sequence)
    (events : left.events = right.events) (eventDedup : left.eventDedup = right.eventDedup)
    (runs : ∀ id, left.runs.get? id = right.runs.get? id) : left = right := by
  cases left
  cases right
  cases sequence
  cases events
  cases eventDedup
  exact congrArg _ (Table.ext runs)

theorem runStatus_eq_queued {status : RunStatus} : runStatus status = "queued" ↔ status = .queued := by
  cases status <;> decide

theorem duplicateRun_persist (state : MemoryState) (plan : PlannedRun) :
    duplicateRun (persist state) plan = idempotencyTaken state plan := by
  simp only [duplicateRun, persist, Table.image, List.any_map]
  rfl

theorem activeGroupRunsTx_persist (state : MemoryState) (group : String) :
    activeGroupRunsTx (persist state) group = activeGroupRuns state group := by
  have active : ∀ status : RunStatus,
      runStatus status ∈ ["queued", "running", "waiting"] ↔
        status.occupiesConcurrencyGroup = true := by
    intro status
    cases status <;> decide
  simp only [activeGroupRunsTx, activeGroupRuns, persist, Table.image, List.filter_map,
    List.map_map, Function.comp_def, runRow, active]
  rfl

theorem debounce_runs_get? (state : MemoryState) (receivedAt : DateTime) (plan : PlannedRun)
    (id : String) :
    (debounce state receivedAt plan).runs.get? id = (state.runs.get? id).filter fun run =>
      ¬ (plan.notBefore > receivedAt ∧ obsolete plan receivedAt run) := by
  cases found : state.runs.get? id with
  | none =>
    rw [Option.filter_none, Table.get?_eq_none_iff]
    intro run member
    exact Table.get?_eq_none_iff.mp found run (mem_debounce.mp member).1
  | some run =>
    have stored := Table.mem_of_get? found
    have here := Runs.id_of_get? found
    by_cases kept : plan.notBefore > receivedAt ∧ obsolete plan receivedAt run
    · rw [Option.filter_some_neg (by simp [kept]), Table.get?_eq_none_iff]
      intro other member same
      obtain ⟨otherStored, otherKept⟩ := mem_debounce.mp member
      rw [Runs.eq_of_id otherStored stored (same.trans here.symm)] at otherKept
      exact otherKept kept
    · rw [Option.filter_some_pos (by exact decide_eq_true kept), ← here]
      exact Runs.get?_id (mem_debounce.mpr ⟨stored, kept⟩)

variable {state : MemoryState}

theorem debounce_runLeases_get? {receivedAt : DateTime} {plan : PlannedRun}
    {run : RunRecord} (kept : run ∈ (debounce state receivedAt plan).runs) :
    (debounce state receivedAt plan).runLeases.get? run.plan.id =
      state.runLeases.get? run.plan.id := by
  obtain ⟨stored, notObsolete⟩ := mem_debounce.mp kept
  unfold debounce
  split
  next delayed =>
    rw [removeRuns_runLeases_get?, if_neg]
    intro listed
    obtain ⟨other, selected, same⟩ := List.mem_map.mp listed
    obtain ⟨otherStored, otherObsolete⟩ := List.mem_filter.mp selected
    rw [Runs.eq_of_id otherStored stored same] at otherObsolete
    exact notObsolete ⟨delayed, otherObsolete⟩
  next => rfl

theorem debounce_journal (state : MemoryState) (receivedAt : DateTime) (plan : PlannedRun) :
    SameJournal state (debounce state receivedAt plan) := by
  let event : PreparedEvent := default
  have changes : Changes event 0 state (debounce state receivedAt plan) := debounce_changes ..
  exact .changes changes

theorem Storable.debounce (storable : Storable state) (receivedAt : DateTime)
    (plan : PlannedRun) : Storable (debounce state receivedAt plan) := by
  have journal := debounce_journal state receivedAt plan
  refine ⟨?_, ?_, ?_, ?_, ?_, ?_⟩
  · intro run member
    exact storable.instants run (mem_debounce.mp member).1
  · intro run member
    exact storable.createdAt run (mem_debounce.mp member).1
  · intro run member
    exact storable.revisions run (mem_debounce.mp member).1
  · intro entry member
    unfold Memory.debounce at member ⊢
    split at member
    next delayed =>
      rw [if_pos delayed]
      have found := Table.get?_key member
      rw [removeRuns_runLeases_get?] at found
      split at found
      next => cases found
      next unlisted =>
        rw [removeRuns_runs_get?, if_neg unlisted]
        exact storable.leases entry (Table.mem_of_get? found)
    next immediate =>
      rw [if_neg immediate]
      exact storable.leases entry member
  · rw [journal.nextCursor]
    exact storable.cursor
  · rw [journal.events, journal.eventIndex]
    exact storable.journal

/-- Both stores debounce alike. -/
theorem deleteObsolete_persist (storable : Storable state)
    {receivedAt : DateTime} (received : Stamped receivedAt) (plan : PlannedRun) :
    deleteObsolete (persist state) receivedAt plan = persist (debounce state receivedAt plan) := by
  have journal := debounce_journal state receivedAt plan
  unfold deleteObsolete
  split
  next delayed =>
    apply Tables.ext_runs
    · simp only [persist, journal.nextCursor]
    · simp only [persist, journal.events]
    · simp only [persist, journal.eventIndex]
    · intro id
      rw [Table.get?_filter, persist_runs_get?, persist_runs_get?, debounce_runs_get?]
      cases found : state.runs.get? id with
      | none => rfl
      | some run =>
        have stored := Table.mem_of_get? found
        have here := Runs.id_of_get? found
        have later := timestamp_lt_iff received.whole received.last (storable.instants run stored).2
        have same : (¬ (run.plan.workflow = plan.workflow ∧ run.plan.trigger = plan.trigger ∧
            run.plan.executor = plan.executor ∧ runStatus run.status = "queued" ∧
            timestamp receivedAt < timestamp run.plan.notBefore)) ↔
            ¬ (plan.notBefore > receivedAt ∧ obsolete plan receivedAt run = true) := by
          rw [runStatus_eq_queued, later]
          simp only [obsolete, decide_eq_true_eq, delayed, true_and, gt_iff_lt]
          tauto
        by_cases kept : plan.notBefore > receivedAt ∧ obsolete plan receivedAt run = true
        · rw [Option.map_some, Option.filter_some_neg, Option.filter_some_neg, Option.map_none]
          · exact decide_eq_false (not_not.mpr kept)
          · exact decide_eq_false ((not_congr same).mpr (not_not.mpr kept))
        · have survives : run ∈ (debounce state receivedAt plan).runs :=
            mem_debounce.mpr ⟨stored, kept⟩
          have lease := debounce_runLeases_get? survives
          rw [here] at lease
          rw [Option.map_some, Option.filter_some_pos, Option.filter_some_pos, Option.map_some]
          · simp only [leaseOf, lease]
          · exact decide_eq_true kept
          · exact decide_eq_true (same.mpr kept)
  next immediate => rw [Memory.debounce, if_neg immediate]

end Mdbase.Runtime.Sqlite
