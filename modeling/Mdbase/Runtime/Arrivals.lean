import Mdbase.Runtime.Debounce
import Mdbase.Runtime.Deliveries

/-!
# Replacements that arrive one after the other

Events with one plan each, which replaces the runs of its group. A plan that was
stored stays queued until a later plan displaces it: by being of its group, or by
debouncing it while both are of one target and the earlier one is still pending.
Groups are independent of each other exactly when the second never happens across
groups.
-/

namespace Mdbase.Runtime

open Library Memory

/-- An event with one plan. -/
structure Arrival where
  event : PreparedEvent
  plan : PlannedRun
  single : event.runs = [plan]

namespace Arrival

/-- The later event debounces the run of the earlier one, which is still pending. -/
def Overlaps (later earlier : Arrival) : Prop :=
  later.plan.notBefore > later.event.receivedAt ∧
    earlier.plan.notBefore > later.event.receivedAt ∧ SameTarget earlier.plan later.plan

/-- The plans of two arrivals are of one group. -/
def SameGroup (later earlier : Arrival) : Prop :=
  later.plan.concurrencyGroup = earlier.plan.concurrencyGroup

/-- The later event ends the queued run of the earlier one. -/
def Displaces (later earlier : Arrival) : Prop := later.SameGroup earlier ∨ later.Overlaps earlier

/-- The events of arrivals. -/
def events (arrivals : List Arrival) : List PreparedEvent := arrivals.map Arrival.event

end Arrival

/-- Replacements whose events, idempotency keys and run ids are all different. -/
structure Arrivals (arrivals : List Arrival) : Prop where
  replace : ∀ arrival ∈ arrivals, arrival.plan.concurrencyPolicy = .replace ∧
    arrival.plan.minimumIntervalMs = none
  identities : (arrivals.map fun arrival => identityOf arrival.event).Nodup
  keys : (arrivals.map fun arrival => arrival.plan.idempotency).Nodup
  ids : (arrivals.map fun arrival => arrival.plan.id).Nodup

variable {state next : MemoryState}

theorem Memory.Changes.plan_origin {event : PreparedEvent} {cursor : Nat}
    (changes : Changes event cursor state next) :
    ∀ run ∈ next.runs, (∃ base ∈ state.runs, base.plan = run.plan) ∨
      ∃ planned ∈ event.runs, SamePlan run.plan (planned.withCursor cursor) := by
  induction changes with
  | refl => exact fun run stored => .inl ⟨run, stored, rfl⟩
  | tail _ last ih =>
    intro run stored
    cases last with
    | remove id _ => exact ih run (Table.mem_erase.mp stored).1
    | @cancel old cancelled now oldStored accepted =>
      rw [recordCancellation_runs] at stored
      rcases Table.mem_insert.mp stored with rfl | ⟨kept, _⟩
      · have plan := (RunRecord.requestCancel_cancellation accepted).plan
        have origin := ih old oldStored
        rw [← plan] at origin
        exact origin
      · exact ih run kept
    | release _ _ => exact ih run stored
    | @store planned plan member same _ _ _ =>
      rcases Table.mem_insert.mp stored with rfl | ⟨kept, _⟩
      · refine .inr ⟨planned, member, ?_⟩
        rw [RunRecord.admitted_plan, same]
        rfl
      · exact ih run kept

theorem Memory.Changes.eventIndex {event : PreparedEvent} {cursor : Nat}
    (changes : Changes event cursor state next) :
    next.eventIndex = state.eventIndex := by
  induction changes with
  | refl => rfl
  | tail _ step ih => exact step.journal.2.2.1.trans ih

/-- What is known of the store after arrivals. -/
structure After (arrivals : List Arrival) (state : MemoryState) : Prop where
  result : admitAll .new (Arrival.events arrivals) = some state
  cursor : state.nextCursor = arrivals.length
  known : ∀ key, state.eventIndex.get? key ≠ none →
    ∃ arrival ∈ arrivals, identityOf arrival.event = key
  origin : ∀ run ∈ state.runs, ∃ (index : Nat) (arrival : Arrival),
    arrivals[index]? = some arrival ∧ SamePlan run.plan (arrival.plan.withCursor (index + 1))
  queued : ∀ (index : Nat) (arrival : Arrival), arrivals[index]? = some arrival →
    (StoredQueued state (arrival.plan.withCursor (index + 1)) ↔
      ∀ (later : Nat) (other : Arrival), index < later → arrivals[later]? = some other →
        ¬ other.Displaces arrival)

variable {arrivals : List Arrival} {last : Arrival}

theorem Arrivals.init (all : Arrivals (arrivals ++ [last])) : Arrivals arrivals where
  replace arrival member := all.replace arrival (List.mem_append_left _ member)
  identities := by
    have nodup := all.identities
    rw [List.map_append] at nodup
    exact nodup.of_append_left
  keys := by
    have nodup := all.keys
    rw [List.map_append] at nodup
    exact nodup.of_append_left
  ids := by
    have nodup := all.ids
    rw [List.map_append] at nodup
    exact nodup.of_append_left

theorem last_ne_of_nodup {α : Type} {f : Arrival → α} (nodup : ((arrivals ++ [last]).map f).Nodup)
    {arrival : Arrival} (member : arrival ∈ arrivals) : f last ≠ f arrival := by
  rw [List.map_append, List.nodup_append] at nodup
  intro same
  exact nodup.2.2 (f arrival) (List.mem_map_of_mem member) (f last) (by simp) same.symm

theorem After.accepts {state : MemoryState}
    (after : After arrivals state) (all : Arrivals (arrivals ++ [last])) (cursor : Nat) :
    Accepts last.event.receivedAt ⟨journal state last.event, [], [], []⟩
      (last.plan.withCursor cursor) := by
  obtain ⟨policy, interval⟩ := all.replace last (by simp)
  refine ⟨?_, ?_, ?_⟩
  · simp [Considered, minimumIntervalSuppresses, interval]
  · rw [idempotencyTaken_eq_false_iff]
    intro run stored same
    obtain ⟨index, arrival, found, origin⟩ := after.origin run (mem_debounce.mp stored).1
    have key : arrival.plan.idempotency = last.plan.idempotency := by
      have equal : run.plan.withBlockers [] =
          (arrival.plan.withCursor (index + 1)).withBlockers [] := origin
      have idempotency := congrArg PlannedRun.idempotency equal
      exact idempotency.symm.trans same
    exact last_ne_of_nodup all.keys (List.mem_of_getElem? found) key.symm
  · rw [PlannedRun.withCursor_concurrencyPolicy, policy]
    simp

theorem After.disturbs_iff {last arrival : Arrival}
    {state : MemoryState} (after : After arrivals state) (all : Arrivals (arrivals ++ [last]))
    (member : arrival ∈ arrivals) (cursor own : Nat) :
    Disturbs last.event.receivedAt ⟨journal state last.event, [], [], []⟩
      (last.plan.withCursor cursor) (arrival.plan.withCursor own) ↔ last.Displaces arrival := by
  have accepts := after.accepts all cursor
  have apart := last_ne_of_nodup all.ids member
  have policy := (all.replace last (by simp)).1
  simp only [Disturbs, accepts, accepts.1, policy, true_and, PlannedRun.withCursor_notBefore,
    PlannedRun.withCursor_concurrencyPolicy, PlannedRun.withCursor_concurrencyGroup,
    PlannedRun.withCursor_id, apart, or_false, Arrival.Displaces, Arrival.Overlaps,
    Arrival.SameGroup, SameTarget, PlannedRun.withCursor_workflow, PlannedRun.withCursor_trigger,
    PlannedRun.withCursor_executor]
  exact or_comm

/-- The next arrival is admitted, and the store is that after all arrivals. -/
theorem After.admit_ {arrivals : List Arrival} {last : Arrival} {state : MemoryState}
    (after : After arrivals state) (all : Arrivals (arrivals ++ [last])) :
    ∃ next outcome, Memory.admit_ state last.event = some (next, outcome) ∧
      After (arrivals ++ [last]) next := by
  let entry : Admission := ⟨journal state last.event, [], [], []⟩
  have accepts := after.accepts all (state.nextCursor + 1)
  have fresh : state.eventIndex.get? (identityOf last.event) = none := by
    by_contra present
    obtain ⟨arrival, member, same⟩ := after.known _ present
    exact last_ne_of_nodup all.identities member same.symm
  obtain ⟨loop, round⟩ : ∃ loop, admitPlan (state.nextCursor + 1) last.event.receivedAt entry
      last.plan = some loop := by
    have considered : minimumIntervalSuppresses entry.state
        (last.plan.withCursor (state.nextCursor + 1)) = some false := accepts.1
    exact ⟨_, by simp [admitPlan, considered]; rfl⟩
  obtain ⟨outcome, result⟩ : ∃ outcome,
      Memory.admit_ state last.event = some (loop.state, outcome) := by
    rw [identityOf] at fresh
    have rounds : admitPlans (journal state last.event).nextCursor last.event.receivedAt entry
        last.event.runs = some loop := by
      rw [last.single, admitPlans, List.foldlM_cons]
      change (admitPlan (state.nextCursor + 1) last.event.receivedAt entry last.plan).bind _ = _
      rw [round]
      rfl
    simp only [Memory.admit_, fresh, rounds, Option.map_some, entry]
    exact ⟨_, rfl⟩
  have changes : Changes last.event (state.nextCursor + 1) (journal state last.event)
      loop.state := by
    rcases admit_changes result with ⟨_, _, present, _⟩ | ⟨_, _, _, changes⟩
    · rw [identityOf, present] at fresh
      cases fresh
    · exact changes
  have index := changes.eventIndex
  refine ⟨loop.state, outcome, result, ?_, ?_, ?_, ?_, ?_⟩
  · rw [admitAll, Arrival.events, List.map_append, List.foldlM_append]
    have before := after.result
    rw [admitAll, Arrival.events] at before
    simp [before, result]
  · rw [changes.nextCursor, List.length_append, ← after.cursor]
    rfl
  · intro key present
    rw [index] at present
    by_cases here : key = identityOf last.event
    · exact ⟨last, by simp, here.symm⟩
    · simp only [journal, Table.get?_insert] at present
      rw [← identityOf, if_neg here] at present
      obtain ⟨arrival, member, same⟩ := after.known key present
      exact ⟨arrival, List.mem_append_left _ member, same⟩
  · intro run stored
    rcases changes.plan_origin run stored with ⟨base, kept, same⟩ | ⟨planned, member, same⟩
    · obtain ⟨index, arrival, found, origin⟩ := after.origin base kept
      refine ⟨index, arrival, ?_, same ▸ origin⟩
      rw [List.getElem?_append_left (List.getElem?_eq_some_iff.mp found).1]
      exact found
    · rw [last.single, List.mem_singleton] at member
      refine ⟨arrivals.length, last, by simp, ?_⟩
      rw [← after.cursor, ← member]
      exact same
  · intro index arrival found
    rw [storedQueued_round round]
    by_cases earlier : index < arrivals.length
    · rw [List.getElem?_append_left earlier] at found
      have member := List.mem_of_getElem? found
      have different : ¬ SamePlan (last.plan.withCursor (state.nextCursor + 1))
          (arrival.plan.withCursor (index + 1)) :=
        fun same => last_ne_of_nodup all.ids member same.id
      have stored : StoredQueued entry.state (arrival.plan.withCursor (index + 1)) ↔
          StoredQueued state (arrival.plan.withCursor (index + 1)) := Iff.rfl
      rw [stored, after.disturbs_iff all member, after.queued index arrival found]
      constructor
      · rintro (⟨before, kept⟩ | ⟨_, same⟩) later other gt otherFound
        · by_cases old : later < arrivals.length
          · rw [List.getElem?_append_left old] at otherFound
            exact before later other gt otherFound
          · obtain ⟨inside, rfl⟩ := List.getElem?_eq_some_iff.mp otherFound
            have here : later = arrivals.length := by
              rw [List.length_append, List.length_singleton] at inside
              omega
            subst here
            simpa using kept
        · exact absurd same different
      · intro none
        refine .inl ⟨fun later other gt otherFound => none later other gt ?_,
          none arrivals.length last earlier (by simp)⟩
        rw [List.getElem?_append_left (List.getElem?_eq_some_iff.mp otherFound).1]
        exact otherFound
    · obtain ⟨inside, rfl⟩ := List.getElem?_eq_some_iff.mp found
      have here : index = arrivals.length := by
        rw [List.length_append, List.length_singleton] at inside
        omega
      subst here
      constructor
      · intro _ later other gt otherFound
        have inside := (List.getElem?_eq_some_iff.mp otherFound).1
        rw [List.length_append, List.length_singleton] at inside
        omega
      · intro _
        refine .inr ⟨accepts, ?_⟩
        rw [after.cursor]
        simp [SamePlan]

theorem Arrivals.after (all : Arrivals arrivals) : ∃ state, After arrivals state := by
  induction arrivals using List.reverseRecOn with
  | nil =>
    refine ⟨.new, rfl, rfl, ?_, ?_, ?_⟩
    · intro key present
      exact absurd rfl present
    · intro run stored
      cases stored
    · intro index arrival found
      simp at found
  | append_singleton arrivals last ih =>
    obtain ⟨state, before⟩ := ih all.init
    obtain ⟨next, _, _, after⟩ := before.admit_ all
    exact ⟨next, after⟩

/-- An arrival that is the last of its group among the arrivals before a bound. -/
structure LatestBefore (arrivals : List Arrival) (bound index : Nat) (arrival : Arrival) :
    Prop where
  found : arrivals[index]? = some arrival
  before : index < bound
  last : ∀ (later : Nat) (other : Arrival), index < later → later < bound →
    arrivals[later]? = some other → ¬ other.SameGroup arrival

/-- No arrival debounces the last arrival of another group. -/
def Spaced (arrivals : List Arrival) : Prop :=
  ∀ (index later : Nat) (arrival other : Arrival), arrivals[later]? = some other →
    LatestBefore arrivals later index arrival → ¬ other.SameGroup arrival →
    ¬ other.Overlaps arrival

/-- No arrival removes or cancels a queued run of another group. -/
def LeavesOthersQueued (arrivals : List Arrival) : Prop :=
  ∀ (later : Nat) (other : Arrival) (state next : MemoryState) (outcome : AdmitOutcome),
    arrivals[later]? = some other →
    admitAll .new (Arrival.events (arrivals.take later)) = some state →
    admit_ state other.event = some (next, outcome) →
    ∀ run ∈ state.runs, run.status = .queued →
      run.plan.concurrencyGroup ≠ other.plan.concurrencyGroup → StoredQueued next run.plan

/-- The group of an arrival has one queued run, which is the run of the arrival. -/
def OnlyQueued (state : MemoryState) (arrival : Arrival) : Prop :=
  ∃ run ∈ state.runs, run.status = .queued ∧
    run.plan.concurrencyGroup = arrival.plan.concurrencyGroup ∧
    run.plan.id = arrival.plan.id ∧ run.plan.event = arrival.plan.event ∧
    ∀ other ∈ state.runs, other.status = .queued →
      other.plan.concurrencyGroup = arrival.plan.concurrencyGroup → other = run

section Independence

variable {arrivals : List Arrival}

theorem Arrivals.take (all : Arrivals arrivals) (count : Nat) : Arrivals (arrivals.take count) where
  replace arrival member := all.replace arrival (List.mem_of_mem_take member)
  identities := by
    rw [List.map_take]
    exact all.identities.sublist (List.take_sublist _ _)
  keys := by
    rw [List.map_take]
    exact all.keys.sublist (List.take_sublist _ _)
  ids := by
    rw [List.map_take]
    exact all.ids.sublist (List.take_sublist _ _)

variable {arrival : Arrival}

theorem LatestBefore.shorten {bound shorter index : Nat}
    (latest : LatestBefore arrivals bound index arrival) (le : shorter ≤ bound)
    (before : index < shorter) : LatestBefore arrivals shorter index arrival where
  found := latest.found
  before := before
  last later other gt lt := latest.last later other gt (lt.trans_le le)

theorem getElem?_take_eq_some {count index : Nat} :
    (arrivals.take count)[index]? = some arrival ↔
      index < count ∧ arrivals[index]? = some arrival := by
  rw [List.getElem?_take]
  split <;> simp_all

variable {state : MemoryState}

/-- When the arrivals before a bound are spaced, the last one of each group is still
queued. -/
theorem After.queued_of_spaced {bound index : Nat} (after : After (arrivals.take bound) state)
    (spaced : ∀ (later : Nat) (other : Arrival), later < bound → arrivals[later]? = some other →
      LatestBefore arrivals later index arrival → ¬ other.SameGroup arrival →
      ¬ other.Overlaps arrival)
    (latest : LatestBefore arrivals bound index arrival) :
    StoredQueued state (arrival.plan.withCursor (index + 1)) := by
  rw [after.queued index arrival (getElem?_take_eq_some.mpr ⟨latest.before, latest.found⟩)]
  intro later other gt otherFound displaces
  obtain ⟨lt, otherFound⟩ := getElem?_take_eq_some.mp otherFound
  have apart := latest.last later other gt lt otherFound
  rcases displaces with same | overlaps
  · exact apart same
  · exact spaced later other lt otherFound (latest.shorten lt.le gt) apart overlaps

theorem After.latest_of_queued (after : After arrivals state)
    {run : RunRecord} (stored : run ∈ state.runs) (queued : run.status = .queued) :
    ∃ index arrival, LatestBefore arrivals arrivals.length index arrival ∧
      SamePlan run.plan (arrival.plan.withCursor (index + 1)) := by
  obtain ⟨index, arrival, found, same⟩ := after.origin run stored
  have here : StoredQueued state (arrival.plan.withCursor (index + 1)) := by
    refine ⟨run, ?_, queued, same⟩
    rw [← same.id]
    exact Runs.get?_id stored
  refine ⟨index, arrival, ⟨found, (List.getElem?_eq_some_iff.mp found).1, ?_⟩, same⟩
  intro later other gt _ otherFound sameGroup
  exact (after.queued index arrival found).mp here later other gt otherFound (.inl sameGroup)

theorem LatestBefore.unique {bound left right : Nat} {leftArrival rightArrival : Arrival}
    (leftLatest : LatestBefore arrivals bound left leftArrival)
    (rightLatest : LatestBefore arrivals bound right rightArrival)
    (same : leftArrival.SameGroup rightArrival) : left = right := by
  rcases lt_trichotomy left right with before | equal | after
  · exact absurd same.symm
      (leftLatest.last right rightArrival before rightLatest.before rightLatest.found)
  · exact equal
  · exact absurd same (rightLatest.last left leftArrival after leftLatest.before leftLatest.found)

theorem After.onlyQueued (after : After arrivals state) {index : Nat}
    (latest : LatestBefore arrivals arrivals.length index arrival)
    (queued : StoredQueued state (arrival.plan.withCursor (index + 1))) :
    OnlyQueued state arrival := by
  obtain ⟨run, found, runQueued, same⟩ := queued
  have event : run.plan.event = arrival.plan.event := by
    have equal : run.plan.withBlockers [] =
        (arrival.plan.withCursor (index + 1)).withBlockers [] := same
    have events := congrArg PlannedRun.event equal
    exact events
  refine ⟨run, Table.mem_of_get? found, runQueued, same.concurrencyGroup, same.id, event, ?_⟩
  intro other otherStored otherQueued inGroup
  obtain ⟨otherIndex, otherArrival, otherLatest, otherSame⟩ :=
    after.latest_of_queued otherStored otherQueued
  have together : otherArrival.SameGroup arrival := otherSame.concurrencyGroup.symm.trans inGroup
  have one := otherLatest.unique latest together
  subst one
  have sameArrival : otherArrival = arrival :=
    Option.some.inj (otherLatest.found.symm.trans latest.found)
  subst sameArrival
  refine Runs.eq_of_id otherStored (Table.mem_of_get? found) ?_
  rw [otherSame.id, same.id]

theorem Arrivals.step (all : Arrivals arrivals) {later : Nat} {other : Arrival}
    (found : arrivals[later]? = some other) : ∃ state next outcome,
      After (arrivals.take later) state ∧ admit_ state other.event = some (next, outcome) ∧
        After (arrivals.take (later + 1)) next := by
  obtain ⟨state, before⟩ := (all.take later).after
  have snoc : arrivals.take (later + 1) = arrivals.take later ++ [other] := by
    rw [List.take_add_one, found]
    rfl
  have allNext := all.take (later + 1)
  rw [snoc] at allNext
  obtain ⟨next, outcome, result, after⟩ := before.admit_ allNext
  rw [← snoc] at after
  exact ⟨state, next, outcome, before, result, after⟩

/-- Every other run stays queued exactly if the arrivals are spaced. -/
theorem Arrivals.leavesOthersQueued_iff (all : Arrivals arrivals) :
    LeavesOthersQueued arrivals ↔ Spaced arrivals := by
  constructor
  · intro leaves index later
    -- the first arrival that debounces another group finds its run still queued
    induction later using Nat.strong_induction_on generalizing index with
    | _ later ih =>
      intro arrival other found latest apart overlaps
      obtain ⟨state, next, outcome, before, result, after⟩ := all.step found
      have queued := before.queued_of_spaced
        (fun earlier between lt betweenFound => ih earlier lt index arrival between betweenFound)
        latest
      obtain ⟨run, stored, runQueued, same⟩ := queued
      have different : run.plan.concurrencyGroup ≠ other.plan.concurrencyGroup := by
        rw [same.concurrencyGroup]
        exact fun equal => apart equal.symm
      obtain ⟨kept, keptStored, keptQueued, keptSame⟩ :=
        leaves later other state next outcome found before.result result run
          (Table.mem_of_get? stored) runQueued different
      have still : StoredQueued next (arrival.plan.withCursor (index + 1)) := by
        refine ⟨kept, ?_, keptQueued, keptSame.trans same⟩
        rw [← same.id]
        exact keptStored
      have inside := getElem?_take_eq_some.mpr ⟨latest.before.trans (Nat.lt_succ_self later),
        latest.found⟩
      exact (after.queued index arrival inside).mp still later other latest.before
        (getElem?_take_eq_some.mpr ⟨Nat.lt_succ_self later, found⟩) (.inr overlaps)
  · intro spaced later other state next outcome found reached result run stored queued different
    obtain ⟨sameState, sameNext, sameOutcome, before, sameResult, after⟩ := all.step found
    obtain rfl : sameState = state := Option.some.inj (before.result.symm.trans reached)
    rw [sameResult] at result
    cases result
    obtain ⟨index, arrival, latest, same⟩ := before.latest_of_queued stored queued
    have length : (arrivals.take later).length = later := by
      have inside := (List.getElem?_eq_some_iff.mp found).1
      rw [List.length_take]
      omega
    rw [length] at latest
    have apart : ¬ other.SameGroup arrival := by
      intro together
      exact different (same.concurrencyGroup.trans together.symm)
    have latestAll : LatestBefore arrivals later index arrival := by
      refine ⟨(getElem?_take_eq_some.mp latest.found).2, latest.before, ?_⟩
      intro between otherBetween gt lt betweenFound
      exact latest.last between otherBetween gt lt (getElem?_take_eq_some.mpr ⟨lt, betweenFound⟩)
    have latestNext : LatestBefore arrivals (later + 1) index arrival := by
      refine ⟨latestAll.found, by have := latestAll.before; omega, ?_⟩
      intro between otherBetween gt lt betweenFound
      rcases Nat.lt_succ_iff_lt_or_eq.mp lt with old | rfl
      · exact latestAll.last between otherBetween gt old betweenFound
      · rw [found] at betweenFound
        cases betweenFound
        exact apart
    obtain ⟨kept, keptStored, keptQueued, keptSame⟩ := after.queued_of_spaced
      (fun earlier between _ betweenFound => spaced index earlier arrival between betweenFound)
      latestNext
    refine ⟨kept, ?_, keptQueued, keptSame.trans same.symm⟩
    rw [same.id]
    exact keptStored

theorem Arrivals.onlyQueued (all : Arrivals arrivals) (spaced : Spaced arrivals)
    (result : admitAll .new (Arrival.events arrivals) = some state) {index : Nat}
    (latest : LatestBefore arrivals arrivals.length index arrival) : OnlyQueued state arrival := by
  obtain ⟨same, after⟩ := all.after
  obtain rfl : same = state := Option.some.inj (after.result.symm.trans result)
  have whole : After (arrivals.take arrivals.length) same := by
    rw [List.take_length]
    exact after
  exact after.onlyQueued latest (whole.queued_of_spaced
    (fun later other _ found => spaced index later arrival other found) latest)

end Independence

end Mdbase.Runtime
