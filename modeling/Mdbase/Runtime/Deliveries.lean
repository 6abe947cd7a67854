import Mdbase.Library.Delimited
import Mdbase.Runtime.Memory.Changes
import Mdbase.Runtime.Planner

/-!
# Deliveries

A delivery is a workflow and one of its triggers together with the source and the
id of an event. The planner tells deliveries apart by texts in which the parts are
joined by colons, although the parts may contain colons, and the source of the event
is no part of them. `Conflated` says which deliveries the default idempotency key or
the id of the run confuses.
-/

namespace Mdbase.Runtime

open Library

/-- What an event is delivered to. -/
structure Delivery where
  workflow : String
  trigger : String
  source : String
  eventId : String
  deriving DecidableEq

/-- The delivery that a plan was made for. -/
def PlannedRun.delivery (plan : PlannedRun) : Delivery where
  workflow := plan.workflow
  trigger := plan.trigger
  source := ((plan.event.get "source").bind Value.asStr).getD ""
  eventId := plan.eventId

/-- The text that the id of a run is the digest of. -/
def PlannedRun.runSource (plan : PlannedRun) : String :=
  Runtime.runSource plan.executor plan.workflow plan.trigger plan.eventId plan.idempotencyKey

/-- The parts of that text. -/
def PlannedRun.runParts (plan : PlannedRun) : List (List Char) :=
  [plan.executor, plan.workflow, plan.trigger, plan.eventId, plan.idempotencyKey].map
    String.toList

/-- Does the workflow of a plan leave its idempotency key to the planner? -/
def PlannedRun.DefaultKeyed (plan : PlannedRun) : Prop :=
  plan.workflowValue.pointer ["run", "idempotency", "key"] = none

namespace Delivery

/-- The end of the one event id is the beginning of the other trigger. -/
def Shifted (left right : Delivery) : Prop :=
  ∃ part, right.eventId = left.eventId ++ ":" ++ part ∧ left.trigger = part ++ ":" ++ right.trigger

/-- The end of the one workflow id is the beginning of the other trigger followed by
the event id, and of the event id followed by the trigger. -/
def Crossed (left right : Delivery) : Prop :=
  ∃ part, right.workflow = left.workflow ++ ":" ++ part ∧
    left.trigger ++ ":" ++ left.eventId = part ++ ":" ++ (right.trigger ++ ":" ++ right.eventId) ∧
    left.eventId ++ ":" ++ left.trigger = part ++ ":" ++ (right.eventId ++ ":" ++ right.trigger)

/-- Deliveries that the planner does not tell apart: to one workflow with one trigger
for events of one id from two sources, or with parts that run into each other. -/
def Conflated (left right : Delivery) : Prop :=
  left.workflow = right.workflow ∧
      (left.trigger = right.trigger ∧ left.eventId = right.eventId ∨ left.Shifted right ∨
        right.Shifted left) ∨
    left.Crossed right ∨ right.Crossed left

variable {left right : Delivery}

theorem eventTrigger_eq_iff :
    left.eventId ++ ":" ++ left.trigger = right.eventId ++ ":" ++ right.trigger ↔
      left.trigger = right.trigger ∧ left.eventId = right.eventId ∨ left.Shifted right ∨
        right.Shifted left := by
  rw [separated_eq_iff, and_comm (a := left.eventId = right.eventId)]
  rfl

theorem halves_eq_iff (different : left.workflow ≠ right.workflow) :
    (left.workflow ++ ":" ++ (left.trigger ++ ":" ++ left.eventId) =
        right.workflow ++ ":" ++ (right.trigger ++ ":" ++ right.eventId) ∧
      left.workflow ++ ":" ++ (left.eventId ++ ":" ++ left.trigger) =
        right.workflow ++ ":" ++ (right.eventId ++ ":" ++ right.trigger)) ↔
      left.Crossed right ∨ right.Crossed left := by
  constructor
  · rintro ⟨texts, keys⟩
    rcases separated_eq_iff.mp texts with ⟨same, _⟩ | ⟨part, workflow, rest⟩ | ⟨part, workflow, rest⟩
    · exact absurd same different
    · rw [workflow, separated_assoc, separated_cancel] at keys
      exact .inl ⟨part, workflow, rest, keys⟩
    · rw [workflow, separated_assoc, separated_cancel] at keys
      exact .inr ⟨part, workflow, rest, keys.symm⟩
  · rintro (⟨part, workflow, rest, keys⟩ | ⟨part, workflow, rest, keys⟩)
    · rw [workflow, rest, keys, separated_assoc, separated_assoc]
      exact ⟨rfl, rfl⟩
    · rw [workflow, rest, keys, separated_assoc, separated_assoc]
      exact ⟨rfl, rfl⟩

theorem runSource_eq_iff {executor : String} :
    runSource executor left.workflow left.trigger left.eventId
        (defaultKey left.workflow left.eventId left.trigger) =
      runSource executor right.workflow right.trigger right.eventId
        (defaultKey right.workflow right.eventId right.trigger) ↔
      left.workflow ++ ":" ++ (left.trigger ++ ":" ++ left.eventId) =
          right.workflow ++ ":" ++ (right.trigger ++ ":" ++ right.eventId) ∧
        left.workflow ++ ":" ++ (left.eventId ++ ":" ++ left.trigger) =
          right.workflow ++ ":" ++ (right.eventId ++ ":" ++ right.trigger) := by
  have halves : ∀ delivery : Delivery,
      runSource executor delivery.workflow delivery.trigger delivery.eventId
          (defaultKey delivery.workflow delivery.eventId delivery.trigger) =
        executor ++ ":" ++ (delivery.workflow ++ ":" ++
          (delivery.trigger ++ ":" ++ delivery.eventId) ++ ":" ++
            (delivery.workflow ++ ":" ++ (delivery.eventId ++ ":" ++ delivery.trigger))) := by
    intro delivery
    simp only [runSource, defaultKey, String.append_assoc]
  rw [halves, halves, separated_cancel]
  constructor
  · intro same
    -- the halves of either text are as long as each other
    have length := congrArg (fun text => text.toList.length) same
    refine separated_inj_of_length ?_ same
    simp only [toList_separated, List.length_append, List.length_cons] at length ⊢
    omega
  · rintro ⟨first, second⟩
    rw [first, second]

theorem not_crossed (same : left.workflow = right.workflow) : ¬ left.Crossed right := by
  rintro ⟨part, workflow, _⟩
  have length := congrArg (fun text => text.toList.length) workflow
  rw [same] at length
  simp only [toList_separated, List.length_append, List.length_cons] at length
  omega

/-- Two deliveries are conflated exactly when they have one scope and one default key,
or one text for the ids of their runs. -/
theorem conflated_iff {executor : String} {left right : Delivery} :
    left.Conflated right ↔
      scopeOf executor left.workflow = scopeOf executor right.workflow ∧
        defaultKey left.workflow left.eventId left.trigger =
          defaultKey right.workflow right.eventId right.trigger ∨
      runSource executor left.workflow left.trigger left.eventId
          (defaultKey left.workflow left.eventId left.trigger) =
        runSource executor right.workflow right.trigger right.eventId
          (defaultKey right.workflow right.eventId right.trigger) := by
  rw [runSource_eq_iff]
  simp only [scopeOf, separated_cancel, defaultKey, separated_assoc]
  by_cases same : left.workflow = right.workflow
  · simp only [Conflated, same, true_and, not_crossed same, not_crossed same.symm, or_false,
      separated_cancel, eventTrigger_eq_iff]
    tauto
  · rw [halves_eq_iff same]
    simp only [Conflated, same, false_and, false_or]

end Delivery

/-- A plan that the planner makes for an event of a source. -/
def Plans (ext : PlannerExternals) (config : RuntimeConfig) (plan : PlannedRun) : Prop :=
  ∃ catalog event receivedAt prepared,
    prepareEvent ext catalog config event receivedAt = .ok prepared ∧ plan ∈ prepared.runs

theorem Plans.facts {ext : PlannerExternals} {config : RuntimeConfig} {plan : PlannedRun}
    (plans : Plans ext config plan) :
    plan.executor = config.executorId ∧ plan.id = stableId ext.sha256 "run" plan.runSource ∧
      plan.idempotencyScope = scopeOf config.executorId plan.workflow ∧
      (plan.DefaultKeyed →
        plan.idempotencyKey = defaultKey plan.workflow plan.eventId plan.trigger) := by
  obtain ⟨catalog, event, receivedAt, prepared, result, member⟩ := plans
  obtain ⟨_, _, _, _, _, planned⟩ := prepareEvent_spec result
  obtain ⟨own, _, facts⟩ := planned plan member
  refine ⟨facts.executor, facts.id, ?_, fun default => ?_⟩
  · rw [facts.scope, facts.executor]
  · obtain ⟨bindings, keyed⟩ := facts.key
    rw [PlannedRun.DefaultKeyed, facts.workflowValue] at default
    rw [default] at keyed
    exact (Except.ok.inj keyed).symm

/-- The planner confuses two plans with the default key exactly when their deliveries
are conflated. -/
theorem Plans.conflated_iff {ext : PlannerExternals} {config : RuntimeConfig}
    {left right : PlannedRun} (leftPlans : Plans ext config left)
    (rightPlans : Plans ext config right) (leftDefault : left.DefaultKeyed)
    (rightDefault : right.DefaultKeyed) :
    left.delivery.Conflated right.delivery ↔
      left.idempotency = right.idempotency ∨ left.runSource = right.runSource := by
  obtain ⟨leftExecutor, _, leftScope, leftKey⟩ := leftPlans.facts
  obtain ⟨rightExecutor, _, rightScope, rightKey⟩ := rightPlans.facts
  rw [@Delivery.conflated_iff config.executorId]
  simp only [PlannedRun.idempotency, PlannedRun.runSource, Prod.mk.injEq, leftExecutor,
    rightExecutor, leftScope, rightScope, leftKey leftDefault, rightKey rightDefault]
  rfl

namespace Memory

/-- A plan that is neither debounced nor spaced and allows others beside it. -/
structure Plain (receivedAt : DateTime) (plan : PlannedRun) : Prop where
  allow : plan.concurrencyPolicy = .allow
  started : plan.notBefore ≤ receivedAt
  unspaced : plan.minimumIntervalMs = none

/-- The runs of a store as the plans considered so far left them. -/
structure Recorded (done : List PlannedRun) (runs : Runs) : Prop where
  origin : ∀ run ∈ runs, ∃ plan ∈ done, ∃ cursor, run.plan = plan.withCursor cursor
  unique : ∀ left ∈ runs, ∀ right ∈ runs, left.plan.idempotency = right.plan.idempotency →
    left = right

/-- Every delivery considered so far has a run. -/
def Answered (done : List PlannedRun) (runs : Runs) : Prop :=
  ∀ plan ∈ done, ∃ run ∈ runs, run.plan.delivery = plan.delivery

/-- Plans with one idempotency or one id are for one delivery. -/
def Told (plans : List PlannedRun) : Prop :=
  ∀ left ∈ plans, ∀ right ∈ plans,
    left.idempotency = right.idempotency ∨ left.id = right.id → left.delivery = right.delivery

variable {plan : PlannedRun}

theorem admitPlan_plain {cursor : Nat} {receivedAt : DateTime} {loop : Admission}
    (plain : Plain receivedAt plan) :
    admitPlan cursor receivedAt loop plan = some
      (if idempotencyTaken loop.state (plan.withCursor cursor) then
        skipPlan loop (plan.withCursor cursor)
      else storePlan loop (plan.withCursor cursor)) := by
  have undebounced : debounce loop.state receivedAt (plan.withCursor cursor) = loop.state := by
    unfold debounce
    rw [if_neg (by simpa using plain.started)]
  simp only [admitPlan, minimumIntervalSuppresses, PlannedRun.withCursor_minimumIntervalMs,
    plain.unspaced, Option.map_some, considerPlan, undebounced, PlannedRun.withCursor_concurrencyPolicy,
    plain.allow]
  simp

theorem idempotencyTaken_iff {state : MemoryState} :
    idempotencyTaken state plan = true ↔
      ∃ run ∈ state.runs, run.plan.idempotency = plan.idempotency := by
  simp [idempotencyTaken, PlannedRun.idempotency, List.any_eq_true]
  rfl

variable {done : List PlannedRun}

/-- A plan that is considered is recorded, and if plans are told apart its delivery is
answered. -/
theorem Recorded.admitPlan {cursor : Nat} {receivedAt : DateTime} {loop next : Admission}
    (recorded : Recorded done loop.state.runs) (plain : Plain receivedAt plan)
    (result : Memory.admitPlan cursor receivedAt loop plan = some next) :
    next.state.eventIndex = loop.state.eventIndex ∧
      Recorded (done ++ [plan]) next.state.runs ∧
      (Told (done ++ [plan]) → Answered done loop.state.runs →
        Answered (done ++ [plan]) next.state.runs) := by
  have widen : ∀ run : RunRecord, (∃ old ∈ done, ∃ at_, run.plan = old.withCursor at_) →
      ∃ old ∈ done ++ [plan], ∃ at_, run.plan = old.withCursor at_ := by
    rintro run ⟨old, member, rest⟩
    exact ⟨old, List.mem_append_left _ member, rest⟩
  rw [admitPlan_plain plain] at result
  split at result
  next taken =>
    -- the run that takes the idempotency answers the same delivery
    cases result
    refine ⟨rfl, ⟨fun run stored => widen run (recorded.origin run stored), recorded.unique⟩, ?_⟩
    intro told answered other member
    rcases List.mem_append.mp member with before | here
    · exact answered other before
    · obtain rfl := List.mem_singleton.mp here
      obtain ⟨run, stored, same⟩ := idempotencyTaken_iff.mp taken
      obtain ⟨old, oldMember, at_, origin⟩ := recorded.origin run stored
      refine ⟨run, stored, ?_⟩
      rw [origin] at same ⊢
      exact told old (List.mem_append_left _ oldMember) other (by simp) (.inl same)
  rename_i free
  cases result
  have untaken : ∀ run ∈ loop.state.runs, run.plan.idempotency ≠ plan.idempotency := by
    intro run stored same
    exact free (idempotencyTaken_iff.mpr ⟨run, stored, same⟩)
  refine ⟨rfl, ⟨?_, ?_⟩, ?_⟩
  · intro run member
    rcases Table.mem_insert.mp member with rfl | ⟨kept, _⟩
    · exact ⟨plan, by simp, cursor, rfl⟩
    · exact widen run (recorded.origin run kept)
  · intro left leftMember right rightMember same
    rcases Table.mem_insert.mp leftMember with rfl | ⟨leftKept, _⟩ <;>
      rcases Table.mem_insert.mp rightMember with rfl | ⟨rightKept, _⟩
    · rfl
    · exact absurd same.symm (untaken right rightKept)
    · exact absurd same (untaken left leftKept)
    · exact recorded.unique left leftKept right rightKept same
  · intro told answered other member
    have own : RunRecord.admitted (plan.withCursor cursor) ∈
        (storePlan loop (plan.withCursor cursor)).state.runs :=
      Table.mem_insert.mpr (.inl rfl)
    rcases List.mem_append.mp member with before | here
    · obtain ⟨run, stored, same⟩ := answered other before
      by_cases replaced : run.plan.id = plan.id
      · obtain ⟨old, oldMember, at_, origin⟩ := recorded.origin run stored
        refine ⟨_, own, ?_⟩
        rw [origin] at replaced same
        rw [← same]
        exact (told old (List.mem_append_left _ oldMember) plan (by simp) (.inr replaced)).symm
      · exact ⟨run, Table.mem_insert.mpr (.inr ⟨stored, replaced⟩), same⟩
    · obtain rfl := List.mem_singleton.mp here
      exact ⟨_, own, rfl⟩

theorem Recorded.admitPlans {done plans : List PlannedRun} {cursor : Nat} {receivedAt : DateTime}
    {loop : Admission} (recorded : Recorded done loop.state.runs)
    (plain : ∀ plan ∈ plans, Plain receivedAt plan) :
    ∃ last, Memory.admitPlans cursor receivedAt loop plans = some last ∧
      last.state.eventIndex = loop.state.eventIndex ∧
      Recorded (done ++ plans) last.state.runs ∧
      (Told (done ++ plans) → Answered done loop.state.runs →
        Answered (done ++ plans) last.state.runs) := by
  induction plans generalizing done loop with
  | nil => exact ⟨loop, rfl, rfl, by simpa using recorded, by simp⟩
  | cons plan rest ih =>
    have plainHere := plain plan List.mem_cons_self
    obtain ⟨next, first⟩ : ∃ next, Memory.admitPlan cursor receivedAt loop plan = some next :=
      ⟨_, admitPlan_plain plainHere⟩
    obtain ⟨index, recordedNext, answeredNext⟩ := recorded.admitPlan plainHere first
    obtain ⟨last, later, lastIndex, recordedLast, answeredLast⟩ :=
      ih recordedNext fun other member => plain other (List.mem_cons_of_mem _ member)
    have together : done ++ [plan] ++ rest = done ++ plan :: rest := by simp
    rw [together] at recordedLast answeredLast
    refine ⟨last, ?_, lastIndex.trans index, recordedLast, fun told answered => ?_⟩
    · rw [Memory.admitPlans, List.foldlM_cons, first]
      exact later
    · refine answeredLast told (answeredNext ?_ answered)
      intro left leftMember right rightMember
      have widen : ∀ other, other ∈ done ++ [plan] → other ∈ done ++ plan :: rest := by
        intro other member
        rw [← together]
        exact List.mem_append_left _ member
      exact told left (widen left leftMember) right (widen right rightMember)

/-- The plans of a list of events. -/
def plansOf (events : List PreparedEvent) : List PlannedRun :=
  events.flatMap fun event => event.runs

/-- The identity of an event in the journal. -/
def identityOf (event : PreparedEvent) : Lex (String × String) :=
  toLex (event.sourceRuntime, event.eventId)

/-- Admitted events record all of their plans. -/
theorem Recorded.admitAll {state : MemoryState} {events : List PreparedEvent}
    (recorded : Recorded done state.runs) (distinct : (events.map identityOf).Nodup)
    (unknown : ∀ event ∈ events, state.eventIndex.get? (identityOf event) = none)
    (plain : ∀ event ∈ events, ∀ plan ∈ event.runs, Plain event.receivedAt plan) :
    ∃ last, Memory.admitAll state events = some last ∧
      Recorded (done ++ plansOf events) last.runs ∧
      (Told (done ++ plansOf events) → Answered done state.runs →
        Answered (done ++ plansOf events) last.runs) := by
  induction events generalizing done state with
  | nil => exact ⟨state, rfl, by simpa [plansOf] using recorded, by simp [plansOf]⟩
  | cons event rest ih =>
    obtain ⟨elsewhere, distinctRest⟩ := List.nodup_cons.mp distinct
    have entry : Recorded done (journal state event).runs := recorded
    obtain ⟨loop, rounds, index, recordedLoop, answeredLoop⟩ :=
      @Recorded.admitPlans done event.runs (journal state event).nextCursor event.receivedAt
        ⟨journal state event, [], [], []⟩ entry (plain event List.mem_cons_self)
    have unknownRest : ∀ other ∈ rest, loop.state.eventIndex.get? (identityOf other) = none := by
      intro other member
      have different : identityOf other ≠ identityOf event := by
        intro same
        exact elsewhere (List.mem_map.mpr ⟨other, member, same⟩)
      rw [index]
      simp only [journal, Table.get?_insert]
      rw [← identityOf, if_neg different]
      exact unknown other (List.mem_cons_of_mem _ member)
    obtain ⟨last, later, recordedLast, answeredLast⟩ := ih recordedLoop distinctRest unknownRest
      fun other member => plain other (List.mem_cons_of_mem _ member)
    have together : done ++ event.runs ++ plansOf rest = done ++ plansOf (event :: rest) := by
      simp [plansOf]
    rw [together] at recordedLast answeredLast
    refine ⟨last, ?_, recordedLast, fun told answered => ?_⟩
    · rw [Memory.admitAll, List.foldlM_cons]
      have absent := unknown event List.mem_cons_self
      rw [identityOf] at absent
      simp only [admit_, absent, rounds, Option.map_some, Option.bind_eq_bind, Option.bind_some]
      exact later
    · refine answeredLast told (answeredLoop ?_ answered)
      intro left leftMember right rightMember
      have widen : ∀ other, other ∈ done ++ event.runs → other ∈ done ++ plansOf (event :: rest) := by
        intro other member
        rw [← together]
        exact List.mem_append_left _ member
      exact told left (widen left leftMember) right (widen right rightMember)

end Memory

open Memory in
/-- Events with different identities whose plans have default keys and are plain, and
whose run ids do not collide. -/
structure PlainDeliveries (ext : PlannerExternals) (config : RuntimeConfig)
    (events : List PreparedEvent) : Prop where
  prepared : ∀ event ∈ events, ∃ catalog envelope receivedAt,
    prepareEvent ext catalog config envelope receivedAt = .ok event
  distinct : (events.map identityOf).Nodup
  plain : ∀ event ∈ events, ∀ plan ∈ event.runs, Plain event.receivedAt plan ∧ plan.DefaultKeyed
  collisionFree : ∀ left ∈ plansOf events, ∀ right ∈ plansOf events, left.id = right.id →
    left.runSource = right.runSource

theorem PlannedRun.runSource_toList (plan : PlannedRun) :
    plan.runSource.toList = joined ':' plan.runParts := by
  simp only [PlannedRun.runSource, Runtime.runSource, toList_separated, PlannedRun.runParts,
    List.map_cons, List.map_nil, joined, List.append_assoc, List.cons_append]

open Memory in
/-- Distinct deliveries are told apart exactly when they are not conflated: by the
planner with default keys, by the planner with any keys when their parts are not recut,
and by the store, which holds a run for each of them. -/
theorem deliveries_are_told_apart_iff (ext : PlannerExternals) (config : RuntimeConfig) :
    (∀ left right, Plans ext config left → Plans ext config right → left.DefaultKeyed →
      right.DefaultKeyed → left.delivery ≠ right.delivery →
      (left.idempotency ≠ right.idempotency ∧ left.runSource ≠ right.runSource ↔
        ¬ left.delivery.Conflated right.delivery)) ∧
    (∀ left right, Plans ext config left → Plans ext config right →
      left.runParts ≠ right.runParts →
      (left.runSource ≠ right.runSource ↔ ¬ Recut ':' left.runParts right.runParts)) ∧
    ∀ events, PlainDeliveries ext config events →
      ∃ store, admitAll .new events = some store ∧
        ((∀ plan ∈ plansOf events, ∃ run ∈ store.runs, run.plan.delivery = plan.delivery) ↔
          ∀ left ∈ plansOf events, ∀ right ∈ plansOf events, left.delivery ≠ right.delivery →
            ¬ left.delivery.Conflated right.delivery) := by
  refine ⟨?_, ?_, ?_⟩
  · intro left right leftPlans rightPlans leftDefault rightDefault _
    rw [leftPlans.conflated_iff rightPlans leftDefault rightDefault, not_or]
  · intro left right _ _ different
    rw [not_iff_not, ← joined_eq_iff (by simp [PlannedRun.runParts]) different,
      ← PlannedRun.runSource_toList, ← PlannedRun.runSource_toList, String.toList_inj]
  · intro events deliveries
    have facts : ∀ plan ∈ plansOf events, Plans ext config plan ∧ plan.DefaultKeyed := by
      intro plan member
      obtain ⟨event, eventMember, own⟩ := List.mem_flatMap.mp member
      obtain ⟨catalog, envelope, receivedAt, result⟩ := deliveries.prepared event eventMember
      exact ⟨⟨catalog, envelope, receivedAt, event, result, own⟩,
        (deliveries.plain event eventMember plan own).2⟩
    have confused : ∀ left ∈ plansOf events, ∀ right ∈ plansOf events,
        (left.delivery.Conflated right.delivery ↔
          left.idempotency = right.idempotency ∨ left.runSource = right.runSource) :=
      fun left leftMember right rightMember =>
        (facts left leftMember).1.conflated_iff (facts right rightMember).1
          (facts left leftMember).2 (facts right rightMember).2
    have start : Memory.Recorded [] MemoryState.new.runs := by
      constructor <;> simp [MemoryState.new]
    obtain ⟨store, result, recorded, answered⟩ := start.admitAll deliveries.distinct
      (by simp [MemoryState.new]) fun event member plan own => (deliveries.plain event member plan own).1
    rw [List.nil_append] at recorded answered
    refine ⟨store, result, ?_, ?_⟩
    · intro present left leftMember right rightMember different conflated
      -- both deliveries have a run, but the confused plans can have one run only
      obtain ⟨leftRun, leftStored, leftSame⟩ := present left leftMember
      obtain ⟨rightRun, rightStored, rightSame⟩ := present right rightMember
      obtain ⟨leftPlan, leftKnown, _, leftOrigin⟩ := recorded.origin leftRun leftStored
      obtain ⟨rightPlan, rightKnown, _, rightOrigin⟩ := recorded.origin rightRun rightStored
      have leftDelivery : leftPlan.delivery = left.delivery := by
        rw [leftOrigin] at leftSame
        exact leftSame
      have rightDelivery : rightPlan.delivery = right.delivery := by
        rw [rightOrigin] at rightSame
        exact rightSame
      rw [← leftDelivery, ← rightDelivery] at conflated
      have one : leftRun = rightRun := by
        rcases (confused leftPlan leftKnown rightPlan rightKnown).mp conflated with keys | sources
        · refine recorded.unique leftRun leftStored rightRun rightStored ?_
          rw [leftOrigin, rightOrigin]
          exact keys
        · refine Runs.eq_of_id leftStored rightStored ?_
          rw [leftOrigin, rightOrigin, PlannedRun.withCursor_id, PlannedRun.withCursor_id,
            (facts leftPlan leftKnown).1.facts.2.1, (facts rightPlan rightKnown).1.facts.2.1,
            sources]
      rw [one] at leftSame
      exact different (leftSame.symm.trans rightSame)
    · intro apart
      refine answered ?_ (by simp [Answered])
      intro left leftMember right rightMember confuses
      by_contra different
      refine apart left leftMember right rightMember different
        ((confused left leftMember right rightMember).mpr ?_)
      exact confuses.imp_right (deliveries.collisionFree left leftMember right rightMember)

/-- Libraries under which templates stand for themselves. -/
def plainExternals : PlannerExternals where
  sha256 := id
  contractDigest _ := .ok ""
  evaluateRuntimeExpression _ _ _ _ := .ok (.bool true)
  evaluateRuntimeTemplate template _ _ _ := .ok template
  compileSchema _ := .ok fun _ => []
  outcomeValue _ := .null
  variableReferences _ := []

/-- A catalog with one workflow, which has one trigger. -/
def plainCatalog (workflow trigger : String) : AdmissionCatalog where
  admitEvent _ := .ok [{ (default : AdmittedWorkflow) with
    workflow := .object [("id", .string workflow), ("version", .string "1.0.0")]
    trigger := .object [("id", .string trigger)] }]
  policy := .null
  revision := ""

/-- An event of a source. -/
def plainEnvelope (source eventId : String) : Value :=
  .object [("id", .string eventId), ("source", .string source), ("type", .string "y")]

/-- The prepared event of a delivery at time 0. -/
def plainEvent (delivery : Delivery) : Planning PreparedEvent :=
  prepareEvent plainExternals (plainCatalog delivery.workflow delivery.trigger) default
    (plainEnvelope delivery.source delivery.eventId) 0

/-- The prepared events of deliveries. -/
def plainEvents (deliveries : List Delivery) : List PreparedEvent :=
  deliveries.filterMap fun delivery => (plainEvent delivery).toOption

variable {deliveries : List Delivery}

theorem plainEvents_prepared {event : PreparedEvent}
    (member : event ∈ plainEvents deliveries) : ∃ catalog envelope receivedAt,
      prepareEvent plainExternals catalog default envelope receivedAt = .ok event := by
  obtain ⟨delivery, _, prepared⟩ := List.mem_filterMap.mp member
  cases result : plainEvent delivery with
  | error halt =>
    rw [result] at prepared
    cases prepared
  | ok found =>
    rw [result] at prepared
    cases prepared
    exact ⟨_, _, _, result⟩

/-- What is checked of the events of sample deliveries. -/
def plainCheck (events : List PreparedEvent) : Prop :=
  (events.map Memory.identityOf).Nodup ∧
    (∀ event ∈ events, ∀ plan ∈ event.runs, plan.concurrencyPolicy = .allow ∧
      plan.notBefore ≤ event.receivedAt ∧ plan.minimumIntervalMs = none ∧
      plan.workflowValue.pointer ["run", "idempotency", "key"] = none) ∧
    ∀ left ∈ Memory.plansOf events, ∀ right ∈ Memory.plansOf events, left.id = right.id →
      left.runSource = right.runSource

instance (events : List PreparedEvent) : Decidable (plainCheck events) := by
  unfold plainCheck
  infer_instance

theorem plainDeliveries (check : plainCheck (plainEvents deliveries)) :
    PlainDeliveries plainExternals default (plainEvents deliveries) := by
  obtain ⟨distinct, plain, collisionFree⟩ := check
  refine ⟨fun event member => plainEvents_prepared member, distinct, ?_, collisionFree⟩
  intro event member plan own
  obtain ⟨allow, started, unspaced, default⟩ := plain event member plan own
  exact ⟨⟨allow, started, unspaced⟩, default⟩

open Memory in
/-- Two deliveries that differ in the trigger and the event both get a run. -/
theorem deliveries_are_told_apart_by_trigger :
    ∃ store, admitAll .new (plainEvents [⟨"w", "t", "s:1", "e"⟩, ⟨"w", "u", "s:2", "f"⟩]) =
        some store ∧
      ∀ plan ∈ plansOf (plainEvents [⟨"w", "t", "s:1", "e"⟩, ⟨"w", "u", "s:2", "f"⟩]),
        ∃ run ∈ store.runs, run.plan.delivery = plan.delivery := by
  obtain ⟨store, result, stored⟩ := (deliveries_are_told_apart_iff plainExternals default).2.2
    (plainEvents [⟨"w", "t", "s:1", "e"⟩, ⟨"w", "u", "s:2", "f"⟩])
    (plainDeliveries (by decide +kernel))
  refine ⟨store, result, stored.mpr ?_⟩
  simp only [@Delivery.conflated_iff ""]
  decide +kernel

open Memory in
/-- Deliveries that get one run between them: for events of two sources with one id, with
a colon that moves from the trigger into the event id, and with colons that move from
the workflow id. With other keys the text of the run id is no better. -/
theorem deliveries_are_conflated :
    (∀ deliveries ∈ ([[⟨"w", "t", "s:1", "e"⟩, ⟨"w", "t", "s:2", "e"⟩],
        [⟨"w", "b:t", "s:1", "a"⟩, ⟨"w", "t", "s:1", "a:b"⟩],
        [⟨"w", "x:x", "s:1", "x:e"⟩, ⟨"w:x", "x:x", "s:1", "e"⟩]] : List (List Delivery)),
      deliveries.Nodup ∧ PlainDeliveries plainExternals default (plainEvents deliveries) ∧
        ∃ store, admitAll .new (plainEvents deliveries) = some store ∧
          ∃ plan ∈ plansOf (plainEvents deliveries), ∀ run ∈ store.runs,
            run.plan.delivery ≠ plan.delivery) ∧
    Runtime.runSource "r" "a" "b:c" "e" "k" = Runtime.runSource "r" "a:b" "c" "e" "k" := by
  have each : ∀ deliveries ∈ ([
      [⟨"w", "t", "s:1", "e"⟩, ⟨"w", "t", "s:2", "e"⟩],
      [⟨"w", "b:t", "s:1", "a"⟩, ⟨"w", "t", "s:1", "a:b"⟩],
      [⟨"w", "x:x", "s:1", "x:e"⟩, ⟨"w:x", "x:x", "s:1", "e"⟩]] : List (List Delivery)),
      deliveries.Nodup ∧ plainCheck (plainEvents deliveries) ∧
        (admitAll .new (plainEvents deliveries)).any (fun store =>
          ∃ plan ∈ plansOf (plainEvents deliveries), ∀ run ∈ store.runs.entries,
            run.plan.delivery ≠ plan.delivery) = true := by
    decide +kernel
  refine ⟨fun deliveries member => ?_, by decide⟩
  obtain ⟨distinct, check, lost⟩ := each deliveries member
  obtain ⟨store, result, missing⟩ := (Option.any_eq_true _ _).mp lost
  exact ⟨distinct, plainDeliveries check, store, result, of_decide_eq_true missing⟩

end Mdbase.Runtime
