import Mdbase.Library.Fallible
import Mdbase.Runtime.AdmissionAgreement
import Mdbase.Runtime.Planner
import Mdbase.Runtime.Sqlite.TextOrder

/-!
# Durations

A trigger and a workflow name durations: the debounce, the minimum interval and the timeout. A
duration is read into milliseconds with its overflows checked, and is then added to or taken from
an instant by operators that panic outside the range of instants. So the arithmetic is exact or
refused if and only if the instants it reaches are representable.
-/

namespace Mdbase.Runtime

open Library Memory Sqlite

theorem durationUnit_spec {unit : String} {scale : Nat} (known : durationUnit unit = some scale) :
    0 < scale ∧ ∃ first rest, unit.toList = first :: rest ∧ first.isDigit = false := by
  unfold durationUnit at known
  split at known
  next => cases known; exact ⟨by decide, 'm', ['s'], by decide, by decide⟩
  next => cases known; exact ⟨by decide, 's', [], by decide, by decide⟩
  next => cases known; exact ⟨by decide, 'm', [], by decide, by decide⟩
  next => cases known; exact ⟨by decide, 'h', [], by decide, by decide⟩
  next => cases known; exact ⟨by decide, 'd', [], by decide, by decide⟩
  next => cases known

/-- A duration as the schema of workflows accepts it. -/
structure WrittenDuration where
  amount : Nat
  unit : String
  scale : Nat
  known : durationUnit unit = some scale

namespace WrittenDuration

/-- Its text. -/
def text (duration : WrittenDuration) : String :=
  String.ofList (Nat.toDigits 10 duration.amount ++ duration.unit.toList)

/-- Its length in milliseconds. -/
def millis (duration : WrittenDuration) : Nat := duration.amount * duration.scale

/-- Its length in nanoseconds. -/
def nanos (duration : WrittenDuration) : Int := DateTime.milliseconds duration.millis

theorem scale_pos (duration : WrittenDuration) : 0 < duration.scale :=
  (durationUnit_spec duration.known).1

theorem amount_le_millis (duration : WrittenDuration) : duration.amount ≤ duration.millis :=
  Nat.le_mul_of_pos_right _ duration.scale_pos

end WrittenDuration

/-- A written duration is read in milliseconds, or refused where they overflow. -/
theorem parseDurationMs_text (duration : WrittenDuration) :
    parseDurationMs duration.text =
      if u64Max < duration.amount then .fail "invalid_duration" duration.text
      else if u64Max < duration.millis then
        .fail "duration_out_of_range" "Duration exceeds u64 milliseconds."
      else .ok duration.millis := by
  obtain ⟨first, rest, unit, letter⟩ := (durationUnit_spec duration.known).2
  have digits : duration.text.toList.takeWhile Char.isDigit = Nat.toDigits 10 duration.amount := by
    rw [WrittenDuration.text, String.toList_ofList, unit, List.takeWhile_append_of_pos
      fun _ member => Nat.isDigit_of_mem_toDigits (by decide) le_rfl member,
      List.takeWhile_cons_of_neg (by simp [letter]), List.append_nil]
  have remainder : duration.text.toList.dropWhile Char.isDigit = duration.unit.toList := by
    rw [WrittenDuration.text, String.toList_ofList, List.dropWhile_append_of_pos
      fun _ member => Nat.isDigit_of_mem_toDigits (by decide) le_rfl member, unit,
      List.dropWhile_cons_of_neg (by simp [letter])]
  have nonempty : Nat.toDigits 10 duration.amount ≠ [] := Nat.toDigits_ne_nil
  unfold parseDurationMs
  dsimp only
  rw [digits, remainder, Nat.ofDigitChars_ten_toDigits, String.ofList_toList, duration.known]
  rw [if_congr (show _ ↔ u64Max < duration.amount by simp [unit, nonempty]) rfl rfl]
  rfl

/-- An outcome of planning is this value or an error about durations. -/
def ExactOrRefused {α : Type} (exact : α) : Planning α → Prop
  | .ok value => value = exact
  | .error (.error error) => error.code = "invalid_duration" ∨ error.code = "duration_out_of_range"
  | .error _ => False

variable {α β : Type}

theorem exactOrRefused_error_iff {left : α} {right : β} (halt : Halt) :
    ExactOrRefused left (.error halt) ↔ ExactOrRefused right (.error halt) := by
  cases halt <;> exact Iff.rfl

theorem exactOrRefused_some_iff {α : Type} {exact : α} (outcome : Planning α) :
    ExactOrRefused (some exact) (outcome.map some) ↔ ExactOrRefused exact outcome := by
  cases outcome with
  | ok value => exact Option.some_inj
  | error halt => exact exactOrRefused_error_iff halt

theorem parseDurationMs_exactOrRefused (duration : WrittenDuration) :
    ExactOrRefused duration.millis (parseDurationMs duration.text) := by
  rw [parseDurationMs_text]
  split_ifs
  · exact .inl rfl
  · exact .inr rfl
  · exact rfl

/-- The member of a workflow that holds a duration, if it has one. -/
def writtenMember (duration : Option WrittenDuration) : Option Value :=
  duration.map fun duration => .string duration.text

theorem durationMs_writtenMember (duration : Option WrittenDuration) :
    durationMs (writtenMember duration) =
      match duration with
      | none => .ok none
      | some duration => (parseDurationMs duration.text).map some := by
  cases duration <;> rfl

theorem durationMs_exactOrRefused (duration : Option WrittenDuration) :
    ExactOrRefused (duration.map WrittenDuration.millis) (durationMs (writtenMember duration)) := by
  rw [durationMs_writtenMember]
  cases duration with
  | none => exact rfl
  | some duration => exact (exactOrRefused_some_iff _).mpr (parseDurationMs_exactOrRefused duration)

/-- The instant before which a run is not started. -/
def debounceInstant (trigger : Value) (now : DateTime) : Planning DateTime := do
  let debounceMs ← durationMs (trigger.get "debounce")
  laterBy now (debounceMs.getD 0) "Trigger debounce exceeds the supported range."

/-- The instant at which a run times out. -/
def timeoutInstant (workflow : Value) (now : DateTime) : Planning (Option DateTime) := do
  let timeoutMs ← durationMs (workflow.pointer ["run", "limits", "timeout"])
  timeoutMs.mapM fun timeout => laterBy now timeout "Workflow timeout exceeds the supported range."

/-- The duration is refused, or the instant that much later is representable. -/
def LaterFits (now : DateTime) (duration : WrittenDuration) : Prop :=
  duration.millis ≤ i64Max → now + duration.nanos ≤ DateTime.maxUtc

variable {now : DateTime}

theorem laterBy_exactOrRefused_iff (held : Representable now) (count : Nat)
    (message : String) : ExactOrRefused (now + DateTime.milliseconds count)
      (laterBy now count message) ↔
      (count ≤ i64Max → now + DateTime.milliseconds count ≤ DateTime.maxUtc) := by
  have nonneg : 0 ≤ DateTime.milliseconds count := Int.mul_nonneg (Int.natCast_nonneg _) (by decide)
  have lower : DateTime.minUtc ≤ now + DateTime.milliseconds count := by
    have first := held.1
    simp only [dateTime_le_iff] at *
    omega
  unfold laterBy
  by_cases small : count ≤ i64Max
  · rw [if_neg (not_lt.mpr small), forall_prop_of_true small, DateTime.checkedAdd]
    by_cases upper : now + DateTime.milliseconds count ≤ DateTime.maxUtc
    · rw [if_pos ⟨lower, upper⟩]
      exact iff_of_true rfl upper
    · rw [if_neg fun both => upper both.2]
      exact iff_of_false id upper
  · rw [if_pos (not_le.mp small)]
    exact iff_of_true (.inr rfl) fun large => absurd large small

theorem read_exactOrRefused_iff {α : Type} {now : DateTime} (duration : WrittenDuration)
    {rest : Nat → Planning α} {exact : α}
    (later : ExactOrRefused exact (rest duration.millis) ↔ LaterFits now duration) :
    ExactOrRefused exact (parseDurationMs duration.text >>= rest) ↔ LaterFits now duration := by
  have bound : i64Max ≤ u64Max := by decide
  rw [parseDurationMs_text]
  split_ifs with amount millis
  · refine iff_of_true (.inl rfl) fun small => ?_
    exact absurd (small.trans bound) (not_le.mpr (amount.trans_le duration.amount_le_millis))
  · exact iff_of_true (.inr rfl) fun small => absurd (small.trans bound) (not_le.mpr millis)
  · exact later

theorem debounceInstant_exactOrRefused_iff {trigger : Value} {debounce : Option WrittenDuration}
    (accepted : trigger.get "debounce" = writtenMember debounce) (held : Representable now) :
    ExactOrRefused (now + (debounce.map WrittenDuration.nanos).getD 0)
      (debounceInstant trigger now) ↔ ∀ duration ∈ debounce, LaterFits now duration := by
  unfold debounceInstant
  rw [accepted, durationMs_writtenMember]
  cases debounce with
  | none =>
    refine iff_of_true ?_ fun duration member => by cases member
    refine (laterBy_exactOrRefused_iff held 0
      "Trigger debounce exceeds the supported range.").mpr fun _ => ?_
    exact (congrArg (· ≤ DateTime.maxUtc) (Int.add_zero now)).mpr held.2
  | some duration =>
    have read := @read_exactOrRefused_iff _ now duration
      (fun millis => laterBy now millis "Trigger debounce exceeds the supported range.") _
      (laterBy_exactOrRefused_iff held duration.millis _)
    simp only [Option.mem_def, Option.some.injEq, forall_eq']
    refine Iff.trans (iff_of_eq (congrArg _ ?_)) read
    cases parseDurationMs duration.text <;> rfl

theorem timeoutInstant_exactOrRefused_iff {workflow : Value} {timeout : Option WrittenDuration}
    (accepted : workflow.pointer ["run", "limits", "timeout"] = writtenMember timeout)
    (held : Representable now) :
    ExactOrRefused (timeout.map fun duration => now + duration.nanos)
      (timeoutInstant workflow now) ↔ ∀ duration ∈ timeout, LaterFits now duration := by
  unfold timeoutInstant
  rw [accepted, durationMs_writtenMember]
  cases timeout with
  | none => exact iff_of_true rfl fun duration member => by cases member
  | some duration =>
    have later := laterBy_exactOrRefused_iff held duration.millis
      "Workflow timeout exceeds the supported range."
    have read := @read_exactOrRefused_iff _ now duration
      (fun millis => (laterBy now millis "Workflow timeout exceeds the supported range.").map some)
      _ ((exactOrRefused_some_iff _).trans later)
    simp only [Option.mem_def, Option.some.injEq, forall_eq']
    refine Iff.trans (iff_of_eq (congrArg _ ?_)) read
    cases parseDurationMs duration.text with
    | ok millis => cases laterBy now millis "Workflow timeout exceeds the supported range." <;> rfl
    | error halt => rfl

theorem bind_eq_panic {first : Planning α} {rest : α → Planning β} :
    (first >>= rest) = .error .panic ↔
      first = .error .panic ∨ ∃ value, first = .ok value ∧ rest value = .error .panic := by
  cases first <;> simp [bind, Except.bind]

theorem map_eq_panic {first : Planning α} {f : α → β} :
    first.map f = .error .panic ↔ first = .error .panic := by
  cases first <;> simp [Except.map]

theorem requiredString_ne_panic (value : Value) (key : String) :
    requiredString value key ≠ .error .panic := by
  unfold requiredString
  split <;> simp [Planning.fail]

variable {ext : PlannerExternals}

theorem stringOr_ne_panic {timezone : Option String}
    (template : Option Value) (bindings : Value) (label default : String) :
    stringOr ext now timezone template bindings label default ≠ .error .panic := by
  unfold stringOr
  split
  next template =>
    unfold evaluatedString evaluateTemplate
    intro panics
    rcases bind_eq_panic.mp panics with evaluated | ⟨value, -, text⟩
    · split at evaluated <;> simp at evaluated
    · split at text <;> simp [Planning.fail] at text
  next => simp

theorem concurrencyPolicyOf_ne_panic (workflow : Value) :
    concurrencyPolicyOf workflow ≠ .error .panic := by
  unfold concurrencyPolicyOf
  split <;> simp [Planning.fail]

theorem onErrorOf_ne_panic (workflow : Value) : onErrorOf workflow ≠ .error .panic := by
  unfold onErrorOf
  split <;> simp [Planning.fail]

theorem durationMs_ne_panic (value : Option Value) : durationMs value ≠ .error .panic := by
  unfold durationMs
  split
  next => simp
  rename_i text _
  rw [Ne, map_eq_panic]
  unfold parseDurationMs
  dsimp only
  split
  next => simp [Planning.fail]
  split
  next => simp [Planning.fail]
  next => split <;> simp [Planning.fail]

theorem planStep_ne_panic (admitted : AdmittedWorkflow) (step : Value) :
    planStep admitted step ≠ .error .panic := by
  unfold planStep
  intro panics
  rcases bind_eq_panic.mp panics with id | ⟨id, -, binding⟩
  · exact requiredString_ne_panic _ _ id
  · split at binding <;> simp [Planning.fail] at binding

theorem planSteps_ne_panic (admitted : AdmittedWorkflow) : planSteps admitted ≠ .error .panic := by
  intro panics
  obtain ⟨step, -, here⟩ := exists_error_of_mapM panics
  exact planStep_ne_panic _ _ here

theorem planRun_panics {catalog : AdmissionCatalog}
    {config : RuntimeConfig} {event : Value} {eventId eventType : String}
    {admitted : AdmittedWorkflow} {workflowId workflowVersion triggerId : String}
    {vars bindings : Value}
    (panics : planRun ext catalog config now event eventId eventType admitted workflowId
      workflowVersion triggerId vars bindings = .error .panic) :
    debounceInstant admitted.trigger now = .error .panic ∨
      timeoutInstant admitted.workflow now = .error .panic := by
  unfold planRun at panics
  rcases bind_eq_panic.mp panics with key | ⟨_, -, panics⟩
  · exact absurd key (stringOr_ne_panic _ _ _ _)
  rcases bind_eq_panic.mp panics with group | ⟨_, -, panics⟩
  · exact absurd group (stringOr_ne_panic _ _ _ _)
  rcases bind_eq_panic.mp panics with policy | ⟨_, -, panics⟩
  · exact absurd policy (concurrencyPolicyOf_ne_panic _)
  rcases bind_eq_panic.mp panics with onError | ⟨_, -, panics⟩
  · exact absurd onError (onErrorOf_ne_panic _)
  rcases bind_eq_panic.mp panics with read | ⟨debounceMs, debounced, panics⟩
  · exact absurd read (durationMs_ne_panic _)
  rcases bind_eq_panic.mp panics with read | ⟨_, -, panics⟩
  · exact absurd read (durationMs_ne_panic _)
  rcases bind_eq_panic.mp panics with later | ⟨_, -, panics⟩
  · exact .inl (bind_eq_panic.mpr (.inr ⟨debounceMs, debounced, later⟩))
  rcases bind_eq_panic.mp panics with read | ⟨timeoutMs, limited, panics⟩
  · exact absurd read (durationMs_ne_panic _)
  rcases bind_eq_panic.mp panics with later | ⟨_, -, panics⟩
  · exact .inr (bind_eq_panic.mpr (.inr ⟨timeoutMs, limited, later⟩))
  rcases bind_eq_panic.mp panics with steps | ⟨_, -, panics⟩
  · exact absurd steps (planSteps_ne_panic _)
  · cases panics

/-- A run of the plan's trigger that was created less than the interval before the plan. -/
def youngerThan (plan : PlannedRun) (interval : Int) (run : RunRecord) : Bool :=
  run.plan.workflow = plan.workflow ∧ run.plan.trigger = plan.trigger ∧
    plan.createdAt < run.plan.createdAt + interval

/-- The instants of a state are representable, and every run is created with its plan. -/
structure InstantsHeld (state : MemoryState) : Prop where
  representable : ∀ run ∈ state.runs, Representable run.plan.createdAt
  createdAt : ∀ run ∈ state.runs, run.createdAt = run.plan.createdAt

theorem span_lt_saturated : DateTime.maxUtc - DateTime.minUtc < DateTime.milliseconds i64Max := by
  decide

theorem milliseconds_mono {less more : Nat} (le : less ≤ more) :
    DateTime.milliseconds less ≤ DateTime.milliseconds more :=
  Int.mul_le_mul_of_nonneg_right (Int.ofNat_le.mpr le) (by decide)

theorem intervalOf_cases (interval : Nat) :
    intervalOf interval = DateTime.milliseconds interval ∨
      (intervalOf interval = DateTime.milliseconds i64Max ∧
        DateTime.milliseconds i64Max ≤ DateTime.milliseconds interval) := by
  unfold intervalOf
  rcases le_total interval i64Max with small | large
  · exact .inl (congrArg _ (min_eq_left small))
  · exact .inr ⟨congrArg _ (min_eq_right large), milliseconds_mono large⟩

variable {plan : PlannedRun}

theorem recent_eq_youngerThan (planHeld : Representable plan.createdAt)
    (interval : Nat) {run : RunRecord} (held : Representable run.plan.createdAt) :
    recent plan interval run = youngerThan plan (DateTime.milliseconds interval) run := by
  have span := span_lt_saturated
  obtain ⟨-, last⟩ := planHeld
  obtain ⟨first, -⟩ := held
  unfold recent youngerThan
  rcases intervalOf_cases interval with exact | ⟨saturated, longer⟩
  · rw [exact]
  · rw [saturated]
    refine decide_eq_decide.mpr (and_congr_right fun _ => and_congr_right fun _ => ?_)
    simp only [dateTime_le_iff, dateTime_lt_iff] at *
    exact iff_of_true (by omega) (by omega)

/-- The first younger run of the trigger, in the order of ids, has an end of its interval. -/
def MemoryFits (state : MemoryState) (plan : PlannedRun) (interval : Int) : Prop :=
  ∀ run, state.runs.entries.find? (youngerThan plan interval) = some run →
    run.plan.createdAt + interval ≤ DateTime.maxUtc

/-- The instant one interval before the plan is representable, and a run of the trigger was
created after it exactly if the text of one says so. -/
structure SqliteFits (state : MemoryState) (plan : PlannedRun) (interval : Int) : Prop where
  earliest : DateTime.minUtc ≤ plan.createdAt - interval
  texts : (∃ run ∈ state.runs, run.plan.workflow = plan.workflow ∧
      run.plan.trigger = plan.trigger ∧ plan.createdAt - interval < run.plan.createdAt) ↔
    ∃ run ∈ state.runs, run.plan.workflow = plan.workflow ∧ run.plan.trigger = plan.trigger ∧
      WrittenBefore (plan.createdAt - interval) run.plan.createdAt

/-- The comparison is right: it returns, and says that a run is younger exactly if one is. -/
def ComparesExactly (state : MemoryState) (plan : PlannedRun) (interval : Int)
    (returns : Bool → Prop) : Prop :=
  ∃ answer, returns answer ∧
    (answer = true ↔ ∃ run ∈ state.runs, youngerThan plan interval run = true)

theorem end_le_iff {created : DateTime} (held : Representable created) (interval : Nat) :
    created + intervalOf interval ≤ DateTime.maxUtc ↔
      created + DateTime.milliseconds interval ≤ DateTime.maxUtc := by
  have span := span_lt_saturated
  obtain ⟨first, -⟩ := held
  rcases intervalOf_cases interval with exact | ⟨saturated, longer⟩
  · rw [exact]
  · rw [saturated]
    simp only [dateTime_le_iff, dateTime_lt_iff] at *
    exact iff_of_false (by omega) (by omega)

theorem le_earliest_iff {created : DateTime} (held : Representable created) (interval : Nat) :
    DateTime.minUtc ≤ created - intervalOf interval ↔
      DateTime.minUtc ≤ created - DateTime.milliseconds interval := by
  have span := span_lt_saturated
  obtain ⟨-, last⟩ := held
  rcases intervalOf_cases interval with exact | ⟨saturated, longer⟩
  · rw [exact]
  · rw [saturated]
    simp only [dateTime_le_iff, dateTime_lt_iff] at *
    exact iff_of_false (by omega) (by omega)

theorem memory_comparesExactly_iff {state : MemoryState} (recorded : InstantsHeld state)
    (planHeld : Representable plan.createdAt) {interval : Nat}
    (limited : plan.minimumIntervalMs = some interval) :
    ComparesExactly state plan (DateTime.milliseconds interval)
      (fun answer => minimumIntervalSuppresses state plan = some answer) ↔
      MemoryFits state plan (DateTime.milliseconds interval) := by
  have younger : state.runs.entries.find? (recent plan interval) =
      state.runs.entries.find? (youngerThan plan (DateTime.milliseconds interval)) := by
    refine List.find?_congr fun run member => ?_
    exact recent_eq_youngerThan planHeld interval (recorded.representable run member)
  have outcome := minimumIntervalSuppresses_eq recorded.representable planHeld.2 limited
  rw [younger] at outcome
  unfold ComparesExactly MemoryFits
  rw [outcome]
  cases found : state.runs.entries.find? (youngerThan plan (DateTime.milliseconds interval)) with
  | none =>
    refine iff_of_true ⟨false, rfl, iff_of_false Bool.false_ne_true ?_⟩
      fun run absent => by cases absent
    rintro ⟨run, member, young⟩
    exact List.find?_eq_none.mp found run member young
  | some run =>
    have young : youngerThan plan (DateTime.milliseconds interval) run = true :=
      List.find?_some found
    have stored : run ∈ state.runs := List.mem_of_find?_eq_some found
    simp only [Option.some.injEq, forall_eq']
    rw [← end_le_iff (recorded.representable run stored)]
    split_ifs with fits
    · exact iff_of_true ⟨true, rfl, iff_of_true rfl ⟨run, stored, young⟩⟩ fits
    · refine iff_of_false ?_ fits
      rintro ⟨answer, returned, -⟩
      cases returned

/-- The database compares the interval exactly if its instants fit. -/
theorem sqlite_comparesExactly_iff {state : MemoryState} (recorded : InstantsHeld state)
    (planHeld : Representable plan.createdAt) {interval : Nat}
    (limited : plan.minimumIntervalMs = some interval) :
    ComparesExactly state plan (DateTime.milliseconds interval)
      (fun answer => minimumIntervalSuppressesTx (persist state) plan = some (.ok answer)) ↔
      SqliteFits state plan (DateTime.milliseconds interval) := by
  have younger : (∃ run ∈ state.runs, youngerThan plan (DateTime.milliseconds interval) run = true) ↔
      ∃ run ∈ state.runs, run.plan.workflow = plan.workflow ∧ run.plan.trigger = plan.trigger ∧
        plan.createdAt - DateTime.milliseconds interval < run.plan.createdAt := by
    refine exists_congr fun run => and_congr_right fun _ => decide_eq_true_iff.trans ?_
    refine and_congr_right fun _ => and_congr_right fun _ => ?_
    simp only [dateTime_lt_iff]
    omega
  have saturating : DateTime.milliseconds (min interval i64Max) = intervalOf interval := rfl
  unfold ComparesExactly
  rw [minimumIntervalSuppressesTx, limited]
  dsimp only
  rw [saturating, checkedAdd_neg_interval planHeld,
    if_congr (le_earliest_iff planHeld interval) rfl rfl]
  split_ifs with fits
  · have exact : intervalOf interval = DateTime.milliseconds interval := by
      have span := span_lt_saturated
      have last := planHeld.2
      refine (intervalOf_cases interval).resolve_right fun saturated => ?_
      have longer := saturated.2
      simp only [dateTime_le_iff, dateTime_lt_iff] at *
      omega
    have answered : ((persist state).runs.entries.any fun row =>
        row.workflow = plan.workflow ∧ row.triggerId = plan.trigger ∧
          timestamp (plan.createdAt - intervalOf interval) < row.createdAt) = true ↔
        ∃ run ∈ state.runs, run.plan.workflow = plan.workflow ∧ run.plan.trigger = plan.trigger ∧
          WrittenBefore (plan.createdAt - DateTime.milliseconds interval) run.plan.createdAt := by
      simp only [persist, Table.image, List.any_map, List.any_eq_true]
      refine exists_congr fun run => and_congr_right fun stored => ?_
      simp only [Function.comp_apply, runRow, insertedRow, recorded.createdAt run stored,
        timestamp_lt_iff_writtenBefore, exact, decide_eq_true_eq]
    constructor
    · rintro ⟨answer, returned, right⟩
      cases returned
      exact ⟨fits, younger.symm.trans (right.symm.trans answered)⟩
    · intro both
      exact ⟨_, rfl, answered.trans (both.texts.symm.trans younger.symm)⟩
  · refine iff_of_false ?_ fun both => fits both.earliest
    rintro ⟨answer, returned, -⟩
    cases returned

/-- The durations of a trigger and its workflow, as the schema accepts them. -/
structure Durations where
  debounce : Option WrittenDuration := none
  timeout : Option WrittenDuration := none
  minimumInterval : Option WrittenDuration := none

/-- A trigger and a workflow that name these durations. -/
structure Durations.NamedBy (durations : Durations) (trigger workflow : Value) : Prop where
  debounce : trigger.get "debounce" = writtenMember durations.debounce
  timeout : workflow.pointer ["run", "limits", "timeout"] = writtenMember durations.timeout
  minimumInterval : trigger.get "minimum_interval" = writtenMember durations.minimumInterval

/-- No duration aborts the planning of a run or the admission of the plan: every instant is exact,
or the duration is refused. -/
structure DurationsExact (durations : Durations) (trigger workflow : Value) (plan : PlannedRun)
    (state : MemoryState) : Prop where
  debounce : ExactOrRefused
    (plan.createdAt + (durations.debounce.map WrittenDuration.nanos).getD 0)
    (debounceInstant trigger plan.createdAt)
  timeout : ExactOrRefused
    (durations.timeout.map fun duration => plan.createdAt + duration.nanos)
    (timeoutInstant workflow plan.createdAt)
  minimumInterval : ExactOrRefused (durations.minimumInterval.map WrittenDuration.millis)
    (durationMs (trigger.get "minimum_interval"))
  planning : ∀ ext catalog config event eventId eventType admitted workflowId workflowVersion
    triggerId vars bindings, admitted.trigger = trigger → admitted.workflow = workflow →
    planRun ext catalog config plan.createdAt event eventId eventType admitted workflowId
      workflowVersion triggerId vars bindings ≠ .error .panic
  memory : ∀ duration ∈ durations.minimumInterval,
    durationMs (trigger.get "minimum_interval") = .ok (some duration.millis) →
    ComparesExactly state plan duration.nanos
      (fun answer => minimumIntervalSuppresses state plan = some answer)
  sqlite : ∀ duration ∈ durations.minimumInterval,
    durationMs (trigger.get "minimum_interval") = .ok (some duration.millis) →
    ComparesExactly state plan duration.nanos
      (fun answer => minimumIntervalSuppressesTx (persist state) plan = some (.ok answer))

/-- Every instant that a duration is not refused for is representable, and the texts of the SQLite
store tell the runs within the minimum interval from the others. -/
structure DurationsFit (durations : Durations) (plan : PlannedRun) (state : MemoryState) :
    Prop where
  debounce : ∀ duration ∈ durations.debounce, LaterFits plan.createdAt duration
  timeout : ∀ duration ∈ durations.timeout, LaterFits plan.createdAt duration
  memory : ∀ duration ∈ durations.minimumInterval, duration.millis ≤ u64Max →
    MemoryFits state plan duration.nanos
  sqlite : ∀ duration ∈ durations.minimumInterval, duration.millis ≤ u64Max →
    SqliteFits state plan duration.nanos

theorem durationMs_eq_ok_iff (duration : WrittenDuration) :
    durationMs (writtenMember (some duration)) = .ok (some duration.millis) ↔
      duration.millis ≤ u64Max := by
  rw [durationMs_writtenMember]
  dsimp only
  rw [parseDurationMs_text]
  split_ifs with amount millis
  · exact iff_of_false (by simp [Planning.fail, Except.map])
      (not_le.mpr (amount.trans_le duration.amount_le_millis))
  · exact iff_of_false (by simp [Planning.fail, Except.map]) (not_le.mpr millis)
  · exact iff_of_true rfl (not_lt.mp millis)

/-- Durations never abort planning or admission if and only if they fit. -/
theorem durationsExact_iff {durations : Durations} {trigger workflow : Value}
    (named : durations.NamedBy trigger workflow) {plan : PlannedRun} {state : MemoryState}
    (planned : ∀ minimumIntervalMs, durationMs (trigger.get "minimum_interval") =
      .ok minimumIntervalMs → plan.minimumIntervalMs = minimumIntervalMs)
    (held : Representable plan.createdAt) (recorded : InstantsHeld state) :
    DurationsExact durations trigger workflow plan state ↔ DurationsFit durations plan state := by
  have debounce := debounceInstant_exactOrRefused_iff named.debounce held
  have timeout := timeoutInstant_exactOrRefused_iff named.timeout held
  have read {duration : WrittenDuration} (here : duration ∈ durations.minimumInterval) :
      durationMs (trigger.get "minimum_interval") = .ok (some duration.millis) ↔
        duration.millis ≤ u64Max := by
    rw [named.minimumInterval, here]
    exact durationMs_eq_ok_iff duration
  constructor
  · intro exact
    refine ⟨debounce.mp exact.debounce, timeout.mp exact.timeout, ?_, ?_⟩
    · intro duration here small
      have limited := planned _ ((read here).mpr small)
      exact (memory_comparesExactly_iff recorded held limited).mp
        (exact.memory duration here ((read here).mpr small))
    · intro duration here small
      have limited := planned _ ((read here).mpr small)
      exact (sqlite_comparesExactly_iff recorded held limited).mp
        (exact.sqlite duration here ((read here).mpr small))
  · intro fit
    refine ⟨debounce.mpr fit.debounce, timeout.mpr fit.timeout, ?_, ?_, ?_, ?_⟩
    · rw [named.minimumInterval]
      exact durationMs_exactOrRefused durations.minimumInterval
    · intro ext catalog config event eventId eventType admitted workflowId workflowVersion triggerId
        vars bindings sameTrigger sameWorkflow panics
      rcases planRun_panics panics with late | late
      · have exact := debounce.mpr fit.debounce
        rw [← sameTrigger, late] at exact
        exact exact
      · have exact := timeout.mpr fit.timeout
        rw [← sameWorkflow, late] at exact
        exact exact
    · intro duration here accepted
      exact (memory_comparesExactly_iff recorded held (planned _ accepted)).mpr
        (fit.memory duration here ((read here).mp accepted))
    · intro duration here accepted
      exact (sqlite_comparesExactly_iff recorded held (planned _ accepted)).mpr
        (fit.sqlite duration here ((read here).mp accepted))

/-- Five seconds of debounce and a minute between runs are exact. -/
theorem durationsExact_of_short :
    let durations : Durations := {
      debounce := some ⟨5, "s", 1000, rfl⟩
      minimumInterval := some ⟨1, "m", 60000, rfl⟩ }
    DurationsExact durations
      (.object [("debounce", .string "5s"), ("minimum_interval", .string "1m")]) (.object [])
      (limitedPlan 60000) .new := by
  refine (durationsExact_iff ⟨rfl, rfl, rfl⟩ ?_ (by decide) ⟨?_, ?_⟩).mpr ⟨?_, ?_, ?_, ?_⟩
  · intro minimumIntervalMs read
    have minute : durationMs (some (.string "1m")) = .ok (some 60000) := by decide +kernel
    exact Except.ok.inj (minute.symm.trans read)
  · intro run member
    cases member
  · intro run member
    cases member
  · intro duration here _
    cases here
    decide
  · intro duration here
    cases here
  · intro duration here _ run found
    cases found
  · intro duration here _
    cases here
    refine ⟨by decide, iff_of_false ?_ ?_⟩
    · rintro ⟨run, member, -⟩
      cases member
    · rintro ⟨run, member, -⟩
      cases member

/-- A debounce of a hundred million days panics the planner. -/
theorem long_debounce_panics :
    let durations : Durations := { debounce := some ⟨100000000, "d", 86400000, rfl⟩ }
    let trigger : Value := .object [("debounce", .string "100000000d")]
    durations.NamedBy trigger (.object []) ∧ debounceInstant trigger 0 = .error .panic ∧
      ¬DurationsExact durations trigger (.object []) (samplePlan "r" "k" "g" .queue 0) .new := by
  have panics : debounceInstant (.object [("debounce", .string "100000000d")]) 0 =
      .error .panic := by decide +kernel
  refine ⟨⟨rfl, rfl, rfl⟩, panics, fun exact => ?_⟩
  have debounce := exact.debounce
  change ExactOrRefused _ (debounceInstant (.object [("debounce", .string "100000000d")]) 0)
    at debounce
  rw [panics] at debounce
  exact debounce

end Mdbase.Runtime
