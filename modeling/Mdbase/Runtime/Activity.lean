import Mdbase.Library.Whitespace
import Mdbase.Runtime.Arrivals

/-!
# Status activities

`StatusTransitionActivity` describes a workflow that runs an action after a record
has remained in a status for a while. Its runs are grouped by the path of the record
and replace each other, and its triggers are debounced. A debounce knows nothing of
groups: it removes the pending runs of the trigger for all records.
-/

namespace Mdbase.Runtime

open Library Memory

/-- The texts that libraries make of a string: a JSON literal and a debug literal. -/
structure Literals where
  json : String → String
  debug : String → String

/-- Is nothing left of a text when it is trimmed? -/
def blank (text : String) : Bool := text.toList.all isWhitespace

/-- `runtime_identifier`. -/
def runtimeIdentifier (value : String) : Bool :=
  match value.toList with
  | [] => false
  | first :: rest => first.isAlpha ∧
      rest.all fun character => character.isAlphanum ∨ character ∈ ['.', '_', ':', '-']

/-- `StatusTransitionActivity`. -/
structure StatusTransitionActivity where
  id : String
  name : String
  recordType : String
  statusField : String
  statusValue : String
  action : String
  delay : Duration
  deriving DecidableEq

namespace StatusTransitionActivity

variable (literals : Literals) (activity : StatusTransitionActivity)

/-- `delay.as_millis()`. -/
def delayMs : Nat := activity.delay / 1000000

/-- The condition of the triggers. -/
def condition : String :=
  "event.data.types.exists(record_type, record_type == " ++ literals.json activity.recordType ++
    ") && event.data.after[" ++ literals.json activity.statusField ++ "] == " ++
    literals.json activity.statusValue

/-- The trigger with an id for a type of events. -/
def trigger (id event : String) : Value :=
  .object [
    ("debounce", .string (toString activity.delayMs ++ "ms")),
    ("event", .object [("id", .string event), ("version", .string "^1.0.0")]),
    ("id", .string id),
    ("if", .object [("$expr", .string (activity.condition literals))])]

/-- The triggers of the workflow. -/
def triggers : List Value :=
  [activity.trigger literals "created" "mdbase.record.created",
    activity.trigger literals "modified" "mdbase.record.modified",
    activity.trigger literals "renamed" "mdbase.record.renamed"]

/-- The workflow of an activity that passes the checks. -/
def workflow : Value :=
  .object [
    ("description",
      .string "Run an application action after a record remains in a configured status."),
    ("enabled", .bool true),
    ("id", .string activity.id),
    ("name", .string activity.name),
    ("run", .object [
      ("concurrency", .object [
        ("group", .object [("$expr", .string "event.data.path")]),
        ("policy", .string "replace")]),
      ("on_error", .string "stop")]),
    ("steps", .array [.object [
      ("action", .object [("id", .string activity.action), ("version", .string "^1.0.0")]),
      ("id", .string "apply"),
      ("input", .object [
        ("if_revision", .object [("$expr", .string "event.data.revision")]),
        ("path", .object [("$expr", .string "event.data.path")]),
        ("status_field", .string activity.statusField),
        ("status_value", .string activity.statusValue)])]]),
    ("triggers", .array (activity.triggers literals)),
    ("type", .string "runtime_workflow"),
    ("version", .string "1.0.0")]

/-- An identifier that the workflow needs. -/
def checkIdentifier (label value : String) : Except RuntimeError Unit :=
  if runtimeIdentifier value then .ok ()
  else .error (.diagnostic "invalid_status_activity"
    (label ++ " " ++ literals.debug value ++ " is not a runtime identifier."))

/-- `workflow_contract`. -/
def workflowContract : Except RuntimeError Value := do
  checkIdentifier literals "activity id" activity.id
  checkIdentifier literals "record type" activity.recordType
  checkIdentifier literals "action" activity.action
  if blank activity.name then
    .error (.diagnostic "invalid_status_activity" "Activity name cannot be empty.")
  else if blank activity.statusField then
    .error (.diagnostic "invalid_status_activity" "Status field cannot be empty.")
  else if u64Max < activity.delayMs then
    .error (.diagnostic "duration_out_of_range" "Activity delay exceeds the supported range.")
  else .ok (activity.workflow literals)

theorem workflowContract_spec {literals : Literals} {activity : StatusTransitionActivity}
    {contract : Value} (built : activity.workflowContract literals = .ok contract) :
    activity.workflow literals = contract ∧ activity.delayMs ≤ u64Max := by
  unfold workflowContract at built
  have bind : ∀ {first : Except RuntimeError Unit} {rest : Unit → Except RuntimeError Value},
      (first >>= rest) = .ok contract → rest () = .ok contract := by
    intro first rest result
    cases first with
    | error failure => cases result
    | ok value => exact result
  have checked := bind (bind (bind built))
  split at checked
  next => cases checked
  split at checked
  next => cases checked
  split at checked
  next => cases checked
  next fits => exact ⟨Except.ok.inj checked, not_lt.mp fits⟩

end StatusTransitionActivity

theorem parseDurationMs_toString {count : Nat} (fits : count ≤ u64Max) :
    parseDurationMs (toString count ++ "ms") = .ok count := by
  have digits : ∀ character ∈ Nat.toDigits 10 count, character.isDigit = true :=
    fun character member => Nat.isDigit_of_mem_toDigits (by decide) (by decide) member
  have text : (toString count ++ "ms").toList = Nat.toDigits 10 count ++ ['m', 's'] := by
    simp [Nat.toString_eq_repr, Nat.repr]
  have taken : (toString count ++ "ms").toList.takeWhile Char.isDigit = Nat.toDigits 10 count := by
    rw [text, List.takeWhile_append_of_pos digits]
    simp [Char.isDigit]
  have dropped : (toString count ++ "ms").toList.dropWhile Char.isDigit = ['m', 's'] := by
    rw [text, List.dropWhile_append_of_pos digits]
    simp [Char.isDigit]
  have some : Nat.toDigits 10 count ≠ [] := Nat.toDigits_ne_nil
  unfold parseDurationMs
  simp only [taken, dropped, Nat.ofDigitChars_ten_toDigits]
  rw [if_neg (by simp [some, fits])]
  simp [durationUnit, fits]

/-- The catalog serves one workflow and no other: it admits the trigger whose type of
events is that of the event. -/
def Serves (catalog : AdmissionCatalog) (workflow : Value) : Prop :=
  ∀ event admitted, catalog.admitEvent event = .ok admitted → ∀ own ∈ admitted,
    own.workflow = workflow ∧
      own.trigger ∈ ((workflow.get "triggers").bind Value.asArray).getD [] ∧
      own.trigger.pointer ["event", "id"] = event.get "type"

/-- The expression `event.data.path` evaluates to the path in the data of the event. -/
def ReadsPath (ext : PlannerExternals) : Prop :=
  ∀ bindings now timezone path, bindings.pointer ["event", "data", "path"] = some (.string path) →
    ext.evaluateRuntimeTemplate (.object [("$expr", .string "event.data.path")]) bindings now
      timezone = .ok (.string path)

/-- An event about the record at a path for which the planner makes a run. -/
structure RecordEvent (ext : PlannerExternals) (catalog : AdmissionCatalog)
    (config : RuntimeConfig) where
  envelope : Value
  receivedAt : DateTime
  path : String
  prepared : PreparedEvent
  plan : PlannedRun
  located : envelope.pointer ["data", "path"] = some (.string path)
  result : prepareEvent ext catalog config envelope receivedAt = .ok prepared
  single : prepared.runs = [plan]

namespace RecordEvent

/-- The record event of an envelope, if the planner makes one run for it. -/
def prepare (ext : PlannerExternals) (catalog : AdmissionCatalog) (config : RuntimeConfig)
    (envelope : Value) (receivedAt : DateTime) (path : String) :
    Option (RecordEvent ext catalog config) :=
  if located : envelope.pointer ["data", "path"] = some (.string path) then
    match result : prepareEvent ext catalog config envelope receivedAt with
    | .error _ => none
    | .ok prepared =>
      match single : prepared.runs with
      | [plan] => some ⟨envelope, receivedAt, path, prepared, plan, located, result, single⟩
      | _ => none
  else none

variable {ext : PlannerExternals} {catalog : AdmissionCatalog} {config : RuntimeConfig}
  {literals : Literals} {activity : StatusTransitionActivity}

/-- The event as an arrival. -/
def arrival (event : RecordEvent ext catalog config) : Arrival :=
  ⟨event.prepared, event.plan, event.single⟩

/-- The type of the event. -/
def type (event : RecordEvent ext catalog config) : Option Value := event.envelope.get "type"

/-- The trigger ids of an activity and the types of their events. -/
def triggerTypes : List (String × String) :=
  [("created", "mdbase.record.created"), ("modified", "mdbase.record.modified"),
    ("renamed", "mdbase.record.renamed")]

/-- What the planner makes of a record event. -/
structure Planned (event : RecordEvent ext catalog config) (activity : StatusTransitionActivity) :
    Prop where
  plans : Plans ext config event.plan
  defaultKeyed : event.plan.DefaultKeyed
  executor : event.plan.executor = config.executorId
  workflow : event.plan.workflow = activity.id
  trigger : ∃ eventType, (event.plan.trigger, eventType) ∈ triggerTypes ∧
    event.type = some (.string eventType)
  envelope : event.plan.event = event.envelope
  eventId : event.prepared.eventId = event.plan.eventId
  receivedAt : event.prepared.receivedAt = event.receivedAt
  group : event.plan.concurrencyGroup = event.path
  policy : event.plan.concurrencyPolicy = .replace
  unspaced : event.plan.minimumIntervalMs = none
  notBefore : event.plan.notBefore = event.receivedAt + DateTime.milliseconds activity.delayMs

/-- The event of a record plans the workflow of its activity. -/
theorem planned (serves : Serves catalog (activity.workflow literals)) (reads : ReadsPath ext)
    (fits : activity.delayMs ≤ u64Max) (event : RecordEvent ext catalog config) :
    event.Planned activity := by
  have member : event.plan ∈ event.prepared.runs := by simp [event.single]
  obtain ⟨_, known, received, admitted, accepted, made⟩ := prepareEvent_spec event.result
  obtain ⟨own, ownMember, facts⟩ := made event.plan member
  obtain ⟨workflow, trigger, type⟩ := serves event.envelope admitted accepted own ownMember
  have workflowId := requiredString_eq_ok.mp facts.workflow
  have triggerId := requiredString_eq_ok.mp facts.trigger
  have policy := facts.policy
  obtain ⟨bindings, current, group⟩ := facts.group
  obtain ⟨debounceMs, debounce, later⟩ := facts.debounce
  have interval := facts.minimumInterval
  rw [workflow] at workflowId policy group
  have path : bindings.pointer ["event", "data", "path"] = some (.string event.path) := by
    have located := event.located
    simp only [Value.pointer, List.foldlM_cons, List.foldlM_nil] at located ⊢
    simp only [current, Option.bind_eq_bind, Option.bind_some]
    exact located
  -- all three triggers have the same debounce and no minimum interval
  have kind : ∃ id eventType, (id, eventType) ∈ triggerTypes ∧
      own.trigger = activity.trigger literals id eventType := by
    change own.trigger ∈ activity.triggers literals at trigger
    simp only [StatusTransitionActivity.triggers, List.mem_cons, List.not_mem_nil, or_false]
      at trigger
    rcases trigger with created | modified | renamed
    · exact ⟨_, _, by simp [triggerTypes], created⟩
    · exact ⟨_, _, by simp [triggerTypes], modified⟩
    · exact ⟨_, _, by simp [triggerTypes], renamed⟩
  obtain ⟨id, eventType, listed, same⟩ := kind
  rw [same] at triggerId type debounce interval
  refine ⟨⟨catalog, event.envelope, event.receivedAt, event.prepared, event.result, member⟩, ?_,
    facts.executor, ?_, ⟨eventType, ?_, ?_⟩, facts.event, ?_, received, ?_, ?_, ?_, ?_⟩
  · rw [PlannedRun.DefaultKeyed, facts.workflowValue, workflow]
    rfl
  · exact (Option.some.inj workflowId).symm
  · have equal : id = event.plan.trigger := Option.some.inj triggerId
    rw [← equal]
    exact listed
  · exact type.symm
  · have first := requiredString_eq_ok.mp known
    rw [requiredString_eq_ok.mp facts.eventId] at first
    exact (Option.some.inj first).symm
  · have evaluated := reads bindings event.receivedAt config.timezone event.path path
    have template : (activity.workflow literals).pointer ["run", "concurrency", "group"] =
        some (.object [("$expr", .string "event.data.path")]) := rfl
    rw [template] at group
    simp only [stringOr, evaluatedString, evaluateTemplate, evaluated] at group
    exact (Except.ok.inj group).symm
  · exact (Except.ok.inj policy).symm
  · exact (Except.ok.inj interval).symm
  · have duration : durationMs ((activity.trigger literals id eventType).get "debounce") =
        (parseDurationMs (toString activity.delayMs ++ "ms")).map some := rfl
    rw [duration, parseDurationMs_toString fits] at debounce
    have known : some activity.delayMs = debounceMs := Except.ok.inj debounce
    rw [← known] at later
    unfold laterBy at later
    split at later
    next => cases later
    split at later
    next instant added =>
      have equal : instant = event.plan.notBefore := Except.ok.inj later
      rw [← equal]
      exact (DateTime.checkedAdd_eq_some_iff.mp added).1
    next => cases later

/-- The arrivals of record events. -/
def arrivals (events : List (RecordEvent ext catalog config)) : List Arrival := events.map arrival

variable {left right : RecordEvent ext catalog config}

theorem Planned.trigger_eq_iff
    (leftPlanned : left.Planned activity) (rightPlanned : right.Planned activity) :
    left.plan.trigger = right.plan.trigger ↔ left.type = right.type := by
  obtain ⟨leftType, leftListed, leftIs⟩ := leftPlanned.trigger
  obtain ⟨rightType, rightListed, rightIs⟩ := rightPlanned.trigger
  have apart : ∀ first ∈ triggerTypes, ∀ second ∈ triggerTypes,
      first.1 = second.1 ↔ first.2 = second.2 := by decide
  rw [leftIs, rightIs, Option.some.injEq, Value.string.injEq]
  exact apart _ leftListed _ rightListed

/-- Plans for events with different ids have different keys and different texts of their
run ids. -/
theorem Planned.told_apart (leftPlanned : left.Planned activity)
    (rightPlanned : right.Planned activity) (different : left.plan.eventId ≠ right.plan.eventId) :
    left.plan.idempotency ≠ right.plan.idempotency ∧
      left.plan.runSource ≠ right.plan.runSource := by
  rw [← not_or, ← leftPlanned.plans.conflated_iff rightPlanned.plans leftPlanned.defaultKeyed
    rightPlanned.defaultKeyed]
  have workflow : left.plan.delivery.workflow = right.plan.delivery.workflow :=
    leftPlanned.workflow.trans rightPlanned.workflow.symm
  -- no trigger of an activity has a colon
  have plain : ∀ known ∈ triggerTypes, ':' ∉ known.1.toList := by decide
  have unshifted : ∀ {first second : RecordEvent ext catalog config}, first.Planned activity →
      ¬ first.plan.delivery.Shifted second.plan.delivery := by
    rintro first second firstPlanned ⟨part, _, trigger⟩
    obtain ⟨_, listed, _⟩ := firstPlanned.trigger
    refine plain _ listed ?_
    have text : first.plan.trigger.toList = part.toList ++ ':' :: second.plan.trigger.toList := by
      rw [← toList_separated]
      exact congrArg String.toList trigger
    rw [text]
    simp
  rintro (⟨_, ⟨_, sameId⟩ | shifted | shifted⟩ | crossed | crossed)
  · exact different sameId
  · exact unshifted leftPlanned shifted
  · exact unshifted rightPlanned shifted
  · exact Delivery.not_crossed workflow crossed
  · exact Delivery.not_crossed workflow.symm crossed

/-- Record events that have ids of their own and whose run ids do not collide are
replacements of each other. -/
theorem arrivals_of_planned {events : List (RecordEvent ext catalog config)}
    (planned : ∀ event ∈ events, event.Planned activity)
    (distinct : (events.map fun event => event.plan.eventId).Nodup)
    (collisionFree : ∀ left ∈ events, ∀ right ∈ events, left.plan.id = right.plan.id →
      left.plan.runSource = right.plan.runSource) : Arrivals (arrivals events) := by
  have transfer : ∀ {α : Type} {f : RecordEvent ext catalog config → α},
      (∀ left ∈ events, ∀ right ∈ events, left.plan.eventId ≠ right.plan.eventId →
        f left ≠ f right) → (events.map f).Nodup := by
    intro α f apart
    rw [List.nodup_map_iff_inj_on (List.Nodup.of_map _ distinct)]
    intro left leftMember right rightMember same
    by_contra unequal
    refine apart left leftMember right rightMember ?_ same
    intro sameId
    exact unequal (List.inj_on_of_nodup_map distinct leftMember rightMember sameId)
  refine ⟨?_, ?_, ?_, ?_⟩
  · intro own member
    obtain ⟨event, eventMember, rfl⟩ := List.mem_map.mp member
    exact ⟨(planned event eventMember).policy, (planned event eventMember).unspaced⟩
  · rw [arrivals, List.map_map]
    refine transfer fun left leftMember right rightMember different same => different ?_
    have sameId : left.prepared.eventId = right.prepared.eventId :=
      congrArg (fun key => (ofLex key).2) same
    rw [← (planned left leftMember).eventId, sameId, (planned right rightMember).eventId]
  · rw [arrivals, List.map_map]
    exact transfer fun left leftMember right rightMember different =>
      ((planned left leftMember).told_apart (planned right rightMember) different).1
  · rw [arrivals, List.map_map]
    refine transfer fun left leftMember right rightMember different same => ?_
    exact ((planned left leftMember).told_apart (planned right rightMember) different).2
      (collisionFree left leftMember right rightMember same)

/-- An event that is the last one about its record among the events before a bound. -/
structure LatestOfPath (events : List (RecordEvent ext catalog config)) (bound index : Nat)
    (event : RecordEvent ext catalog config) : Prop where
  found : events[index]? = some event
  before : index < bound
  last : ∀ (later : Nat) (other : RecordEvent ext catalog config), index < later →
    later < bound → events[later]? = some other → other.path ≠ event.path

/-- The record of an event has one queued run, which carries the event. -/
def OnlyPending (store : MemoryState) (event : RecordEvent ext catalog config) : Prop :=
  ∃ run ∈ store.runs, run.status = .queued ∧ run.plan.concurrencyGroup = event.path ∧
    run.plan.event = event.envelope ∧
    ∀ other ∈ store.runs, other.status = .queued → other.plan.concurrencyGroup = event.path →
      other = run

/-- The records are independent of each other: the events are all admitted, after them
every record whose last event is still within the delay has one queued run, for that
event, and no event removes or cancels a queued run of another record. -/
structure Independent (events : List (RecordEvent ext catalog config)) (delay : Duration) :
    Prop where
  pending : ∃ store, admitAll .new (events.map fun event => event.prepared) = some store ∧
    ∀ (now : DateTime) (index : Nat) (event : RecordEvent ext catalog config),
      (∀ other ∈ events, other.receivedAt ≤ now) →
      LatestOfPath events events.length index event → now < event.receivedAt + delay →
      OnlyPending store event
  undisturbed : ∀ (later : Nat) (event : RecordEvent ext catalog config)
    (store next : MemoryState) (outcome : AdmitOutcome), events[later]? = some event →
    admitAll .new ((events.take later).map fun event => event.prepared) = some store →
    admit_ store event.prepared = some (next, outcome) →
    ∀ run ∈ store.runs, run.status = .queued → run.plan.concurrencyGroup ≠ event.path →
      StoredQueued next run.plan

/-- No event arrives within the delay of the last event of its type about another
record. -/
def WellSpaced (events : List (RecordEvent ext catalog config)) (delayMs : Nat) : Prop :=
  ∀ (index later : Nat) (event other : RecordEvent ext catalog config),
    events[later]? = some other → LatestOfPath events later index event →
    other.path ≠ event.path → other.type = event.type → 0 < delayMs →
    event.receivedAt + DateTime.milliseconds delayMs ≤ other.receivedAt

section Transfer

variable {events : List (RecordEvent ext catalog config)}

theorem getElem?_arrivals {index : Nat} {own : Arrival} :
    (arrivals events)[index]? = some own ↔
      ∃ event, events[index]? = some event ∧ event.arrival = own := by
  rw [arrivals, List.getElem?_map, Option.map_eq_some_iff]

variable {later earlier : RecordEvent ext catalog config}

theorem sameGroup_iff
    (laterPlanned : later.Planned activity) (earlierPlanned : earlier.Planned activity) :
    later.arrival.SameGroup earlier.arrival ↔ later.path = earlier.path := by
  have groups : later.arrival.SameGroup earlier.arrival ↔
      later.plan.concurrencyGroup = earlier.plan.concurrencyGroup := Iff.rfl
  rw [groups, laterPlanned.group, earlierPlanned.group]

theorem overlaps_iff
    (laterPlanned : later.Planned activity) (earlierPlanned : earlier.Planned activity) :
    later.arrival.Overlaps earlier.arrival ↔
      later.type = earlier.type ∧ 0 < activity.delayMs ∧
        later.receivedAt < earlier.receivedAt + DateTime.milliseconds activity.delayMs := by
  have delayed : later.plan.notBefore > later.prepared.receivedAt ↔ 0 < activity.delayMs := by
    rw [laterPlanned.notBefore, laterPlanned.receivedAt, DateTime.milliseconds]
    have count : ∀ base : Int, base < base + activity.delayMs * 1000000 ↔
        0 < activity.delayMs := by
      intro base
      omega
    exact count later.receivedAt
  have within : earlier.plan.notBefore > later.prepared.receivedAt ↔
      later.receivedAt < earlier.receivedAt + DateTime.milliseconds activity.delayMs := by
    rw [earlierPlanned.notBefore, laterPlanned.receivedAt]
  have target : SameTarget earlier.plan later.plan ↔ later.type = earlier.type := by
    rw [SameTarget, earlierPlanned.workflow, laterPlanned.workflow, earlierPlanned.executor,
      laterPlanned.executor, earlierPlanned.trigger_eq_iff laterPlanned]
    simp [eq_comm]
  have unfolded : later.arrival.Overlaps earlier.arrival ↔
      later.plan.notBefore > later.prepared.receivedAt ∧
        earlier.plan.notBefore > later.prepared.receivedAt ∧
          SameTarget earlier.plan later.plan := Iff.rfl
  rw [unfolded, delayed, within, target]
  tauto

theorem latestBefore_iff (planned : ∀ event ∈ events, event.Planned activity)
    {bound index : Nat} {event : RecordEvent ext catalog config} (member : event ∈ events) :
    LatestBefore (arrivals events) bound index event.arrival ∧ events[index]? = some event ↔
      LatestOfPath events bound index event := by
  constructor
  · rintro ⟨latest, found⟩
    refine ⟨found, latest.before, fun later other gt lt otherFound same => ?_⟩
    refine latest.last later other.arrival gt lt (getElem?_arrivals.mpr ⟨other, otherFound, rfl⟩) ?_
    exact (sameGroup_iff (planned other (List.mem_of_getElem? otherFound))
      (planned event member)).mpr same
  · intro latest
    refine ⟨⟨getElem?_arrivals.mpr ⟨event, latest.found, rfl⟩, latest.before, ?_⟩, latest.found⟩
    intro later own gt lt ownFound same
    obtain ⟨other, otherFound, rfl⟩ := getElem?_arrivals.mp ownFound
    exact latest.last later other gt lt otherFound
      ((sameGroup_iff (planned other (List.mem_of_getElem? otherFound))
        (planned event member)).mp same)

theorem spaced_iff (planned : ∀ event ∈ events, event.Planned activity) :
    Spaced (arrivals events) ↔ WellSpaced events activity.delayMs := by
  constructor
  · intro spaced index later event other found latest apart sameType positive
    have member := List.mem_of_getElem? latest.found
    have otherMember := List.mem_of_getElem? found
    by_contra within
    refine spaced index later event.arrival other.arrival
      (getElem?_arrivals.mpr ⟨other, found, rfl⟩) ((latestBefore_iff planned member).mpr latest).1
      ?_ ?_
    · rw [sameGroup_iff (planned other otherMember) (planned event member)]
      exact apart
    · rw [overlaps_iff (planned other otherMember) (planned event member)]
      exact ⟨sameType, positive, not_le.mp within⟩
  · intro spaced index later own otherOwn otherFound latest apart overlaps
    obtain ⟨other, found, rfl⟩ := getElem?_arrivals.mp otherFound
    obtain ⟨event, eventFound, rfl⟩ := getElem?_arrivals.mp latest.found
    have member := List.mem_of_getElem? eventFound
    have otherMember := List.mem_of_getElem? found
    rw [sameGroup_iff (planned other otherMember) (planned event member)] at apart
    rw [overlaps_iff (planned other otherMember) (planned event member)] at overlaps
    obtain ⟨sameType, positive, within⟩ := overlaps
    exact absurd (spaced index later event other found
      ((latestBefore_iff planned member).mp ⟨latest, eventFound⟩) apart sameType positive)
      (not_le.mpr within)

theorem events_arrivals (events : List (RecordEvent ext catalog config)) :
    Arrival.events (arrivals events) = events.map fun event => event.prepared := by
  rw [Arrival.events, arrivals, List.map_map]
  rfl

theorem leavesOthersQueued_iff (planned : ∀ event ∈ events, event.Planned activity) :
    LeavesOthersQueued (arrivals events) ↔
      ∀ (later : Nat) (event : RecordEvent ext catalog config) (store next : MemoryState)
        (outcome : AdmitOutcome), events[later]? = some event →
        admitAll .new ((events.take later).map fun event => event.prepared) = some store →
        admit_ store event.prepared = some (next, outcome) →
        ∀ run ∈ store.runs, run.status = .queued → run.plan.concurrencyGroup ≠ event.path →
          StoredQueued next run.plan := by
  have taken : ∀ later, Arrival.events ((arrivals events).take later) =
      (events.take later).map fun event => event.prepared := by
    intro later
    rw [← events_arrivals, arrivals, arrivals, List.map_take]
  constructor
  · intro leaves later event store next outcome found reached result run stored queued apart
    refine leaves later event.arrival store next outcome
      (getElem?_arrivals.mpr ⟨event, found, rfl⟩) (by rw [taken]; exact reached) result run stored
      queued ?_
    have group := (planned event (List.mem_of_getElem? found)).group
    intro same
    exact apart (same.trans group)
  · intro undisturbed later own store next outcome ownFound reached result run stored queued apart
    obtain ⟨event, found, rfl⟩ := getElem?_arrivals.mp ownFound
    rw [taken] at reached
    refine undisturbed later event store next outcome found reached result run stored queued ?_
    rw [← (planned event (List.mem_of_getElem? found)).group]
    exact apart

end Transfer

/-- The records of a debounced activity are independent of each other exactly when no
event arrives within the delay of the last event of its type about another record. -/
theorem records_are_independent_iff (events : List (RecordEvent ext catalog config))
    {contract : Value} (built : activity.workflowContract literals = .ok contract)
    (serves : Serves catalog contract) (reads : ReadsPath ext)
    (distinct : (events.map fun event => event.plan.eventId).Nodup)
    (collisionFree : ∀ left ∈ events, ∀ right ∈ events, left.plan.id = right.plan.id →
      left.plan.runSource = right.plan.runSource) :
    Independent events activity.delay ↔ WellSpaced events activity.delayMs := by
  obtain ⟨rfl, fits⟩ := StatusTransitionActivity.workflowContract_spec built
  have planned : ∀ event ∈ events, event.Planned activity :=
    fun event _ => event.planned serves reads fits
  have all := arrivals_of_planned planned distinct collisionFree
  rw [← spaced_iff planned, ← all.leavesOthersQueued_iff, leavesOthersQueued_iff planned]
  constructor
  · exact fun independent => independent.undisturbed
  · intro undisturbed
    refine ⟨?_, undisturbed⟩
    have spaced := all.leavesOthersQueued_iff.mp ((leavesOthersQueued_iff planned).mpr undisturbed)
    obtain ⟨store, after⟩ := all.after
    have result := after.result
    refine ⟨store, by rw [← events_arrivals]; exact result, ?_⟩
    intro now index event _ latest _
    have member := List.mem_of_getElem? latest.found
    have latestArrival := ((latestBefore_iff planned member).mpr latest).1
    have length : events.length = (arrivals events).length := by simp [arrivals]
    rw [length] at latestArrival
    obtain ⟨run, stored, queued, group, _, carried, only⟩ :=
      all.onlyQueued spaced result latestArrival
    have path := (planned event member).group
    refine ⟨run, stored, queued, group.trans path,
      carried.trans (planned event member).envelope, ?_⟩
    intro other otherStored otherQueued otherGroup
    exact only other otherStored otherQueued (otherGroup.trans path.symm)

end RecordEvent

/-- Literals that quote a text. -/
def sampleLiterals : Literals where
  json text := "\"" ++ text ++ "\""
  debug text := "\"" ++ text ++ "\""

/-- An activity that archives tasks a minute after they are done. -/
def sampleActivity : StatusTransitionActivity where
  id := "tasknotes.archive"
  name := "Archive completed tasks"
  recordType := "task"
  statusField := "status"
  statusValue := "done"
  action := "tasknotes.task.archive"
  delay := 60 * 1000000000

/-- Libraries under which an expression is the path of the event. Run ids are cut off, so
that the digest has to begin with what differs. -/
def activityExternals : PlannerExternals :=
  { plainExternals with
    sha256 := fun text => String.ofList text.toList.reverse
    evaluateRuntimeTemplate := fun _ bindings _ _ =>
      .ok ((bindings.pointer ["event", "data", "path"]).getD .null) }

/-- A catalog with the workflow of the sample activity. -/
def activityCatalog : AdmissionCatalog where
  admitEvent event := .ok (((sampleActivity.triggers sampleLiterals).filter fun trigger =>
    trigger.pointer ["event", "id"] = event.get "type").map fun trigger =>
      { (default : AdmittedWorkflow) with
        workflow := sampleActivity.workflow sampleLiterals
        trigger := trigger
        steps := [{ (default : AdmittedAction) with id := "apply" }] })
  policy := .null
  revision := ""

/-- A change of a record that is now done. -/
def recordModified (eventId path : String) : Value :=
  .object [
    ("data", .object [
      ("after", .object [("status", .string "done")]),
      ("path", .string path),
      ("types", .array [.string "task"])]),
    ("id", .string eventId),
    ("source", .string "urn:mdbase:watch"),
    ("type", .string "mdbase.record.modified")]

/-- The events of changes that the planner makes a run for. -/
def recordEvents (changes : List (String × String × DateTime)) :
    List (RecordEvent activityExternals activityCatalog default) :=
  changes.filterMap fun change =>
    RecordEvent.prepare _ _ _ (recordModified change.1 change.2.1) change.2.2 change.2.1

theorem activityCatalog_serves : Serves activityCatalog (sampleActivity.workflow sampleLiterals) := by
  intro event admitted accepted own member
  cases accepted
  obtain ⟨trigger, listed, rfl⟩ := List.mem_map.mp member
  obtain ⟨known, matching⟩ := List.mem_filter.mp listed
  exact ⟨rfl, known, by simpa using matching⟩

theorem activityExternals_readsPath : ReadsPath activityExternals := by
  intro bindings now timezone path located
  have evaluated : activityExternals.evaluateRuntimeTemplate
      (.object [("$expr", .string "event.data.path")]) bindings now timezone =
        .ok ((bindings.pointer ["event", "data", "path"]).getD .null) := rfl
  rw [evaluated, located]
  rfl

/-- What is checked of the sample events before the theorem applies. -/
def recordCheck (changes : List (String × String × DateTime)) : Prop :=
  ((recordEvents changes).map fun event => event.plan.eventId).Nodup ∧
    ∀ left ∈ recordEvents changes, ∀ right ∈ recordEvents changes, left.plan.id = right.plan.id →
      left.plan.runSource = right.plan.runSource

instance (changes : List (String × String × DateTime)) : Decidable (recordCheck changes) := by
  unfold recordCheck
  infer_instance

theorem recordEvents_facts {changes : List (String × String × DateTime)}
    {paths : List String} {times : List DateTime}
    (samePaths : (recordEvents changes).map (fun event => event.path) = paths)
    (sameTimes : (recordEvents changes).map (fun event => event.receivedAt) = times)
    {index : Nat} {event : RecordEvent activityExternals activityCatalog default}
    (found : (recordEvents changes)[index]? = some event) :
    paths[index]? = some event.path ∧ times[index]? = some event.receivedAt := by
  rw [← samePaths, ← sameTimes, List.getElem?_map, List.getElem?_map, found]
  exact ⟨rfl, rfl⟩

namespace RecordEvent

/-- Two tasks that are done a minute apart are both archived. -/
theorem records_are_independent_a_minute_apart :
    (recordEvents [("e1", "a.md", 0), ("e2", "b.md", 60000000000)]).length = 2 ∧
      Independent (recordEvents [("e1", "a.md", 0), ("e2", "b.md", 60000000000)])
        sampleActivity.delay := by
  have contract : sampleActivity.workflowContract sampleLiterals =
      .ok (sampleActivity.workflow sampleLiterals) := by decide +kernel
  have check : recordCheck [("e1", "a.md", 0), ("e2", "b.md", 60000000000)] := by decide +kernel
  refine ⟨by decide +kernel, (records_are_independent_iff _ contract activityCatalog_serves
    activityExternals_readsPath check.1 check.2).mpr ?_⟩
  intro index later event other found latest _ _ _
  have facts : ∀ {index : Nat} {known : RecordEvent activityExternals activityCatalog default},
      (recordEvents [("e1", "a.md", 0), ("e2", "b.md", 60000000000)])[index]? = some known →
        ["a.md", "b.md"][index]? = some known.path ∧
          ([0, 60000000000] : List DateTime)[index]? = some known.receivedAt :=
    fun known => recordEvents_facts (by decide +kernel) (by decide +kernel) known
  have times := (facts latest.found).2
  have otherTimes := (facts found).2
  have before := latest.before
  have inside := (List.getElem?_eq_some_iff.mp otherTimes).1
  obtain rfl : later = 1 := by
    simp only [List.length_cons, List.length_nil] at inside
    omega
  obtain rfl : index = 0 := by omega
  have start : event.receivedAt = 0 := (Option.some.inj times).symm
  have arrived : other.receivedAt = 60000000000 := (Option.some.inj otherTimes).symm
  rw [start, arrived]
  decide

/-- The second of two tasks that are done within a minute removes the pending run of the
first, which is never archived. -/
theorem records_lose_pending_run :
    sampleActivity.workflowContract sampleLiterals = .ok (sampleActivity.workflow sampleLiterals) ∧
      Serves activityCatalog (sampleActivity.workflow sampleLiterals) ∧
      ReadsPath activityExternals ∧ 0 < sampleActivity.delay ∧
      recordCheck [("e1", "a.md", 0), ("e2", "b.md", 10000000000)] ∧
      ¬ Independent (recordEvents [("e1", "a.md", 0), ("e2", "b.md", 10000000000)])
        sampleActivity.delay := by
  refine ⟨by decide +kernel, activityCatalog_serves, activityExternals_readsPath, by decide,
    by decide +kernel, fun independent => ?_⟩
  obtain ⟨store, result, pending⟩ := independent.pending
  have gone : (admitAll .new ((recordEvents [("e1", "a.md", 0), ("e2", "b.md", 10000000000)]).map
      fun event => event.prepared)).all (fun store => store.runs.entries.all fun run =>
        run.plan.concurrencyGroup ≠ "a.md") = true := by decide +kernel
  rw [result, Option.all_some, List.all_eq_true] at gone
  obtain ⟨event, found⟩ : ∃ event,
      (recordEvents [("e1", "a.md", 0), ("e2", "b.md", 10000000000)])[0]? = some event :=
    Option.isSome_iff_exists.mp (by decide +kernel)
  have facts : ∀ {index : Nat} {known : RecordEvent activityExternals activityCatalog default},
      (recordEvents [("e1", "a.md", 0), ("e2", "b.md", 10000000000)])[index]? = some known →
        ["a.md", "b.md"][index]? = some known.path ∧
          ([0, 10000000000] : List DateTime)[index]? = some known.receivedAt :=
    fun known => recordEvents_facts (by decide +kernel) (by decide +kernel) known
  have path : event.path = "a.md" := (Option.some.inj (facts found).1).symm
  have start : event.receivedAt = 0 := (Option.some.inj (facts found).2).symm
  obtain ⟨run, stored, _, group, _⟩ := pending 10000000000 0 event
    (by
      intro other member
      obtain ⟨index, otherFound⟩ := List.mem_iff_getElem?.mp member
      have times := List.mem_of_getElem? (facts otherFound).2
      simp only [List.mem_cons, List.not_mem_nil, or_false] at times
      rcases times with first | second
      · rw [first]
        decide
      · exact le_of_eq second)
    ⟨found, by decide +kernel, by
      intro later other gt lt otherFound
      have length : (recordEvents [("e1", "a.md", 0), ("e2", "b.md", 10000000000)]).length = 2 := by
        decide +kernel
      obtain rfl : later = 1 := by omega
      rw [path, ← Option.some.inj (facts otherFound).1]
      decide⟩
    (by
      rw [start]
      decide)
  have absent := gone run stored
  rw [group, path] at absent
  cases absent

end RecordEvent

end Mdbase.Runtime
