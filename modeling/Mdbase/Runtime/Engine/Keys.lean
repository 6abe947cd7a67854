import Mdbase.Library.Delimited
import Mdbase.Runtime.Engine.AtMostOnce

/-!
# Idempotency keys of invocations

The key that a provider gets is made of the idempotency key of the run and the
index of the item. The index is read off its end, so equal keys have equal items
and equal run keys; but nothing in the key names the run or the step. Keys identify
effects exactly where no two idempotent steps of the same kind share a run key.
-/

namespace Mdbase.Runtime

open Library

theorem debugIndex_free (item : Option Nat) : ':' ∉ (debugIndex item).toList := by
  cases item with
  | none => decide
  | some index =>
    intro member
    have digits : (toString index).toList = Nat.toDigits 10 index := by
      simp [Nat.toString_eq_repr, Nat.repr]
    simp only [debugIndex, String.toList_append, List.mem_append, digits] at member
    rcases member with (opening | digit) | closing
    · exact absurd opening (by decide)
    · have isDigit := Nat.isDigit_of_mem_toDigits (by omega) (by omega) digit
      cases isDigit
    · exact absurd closing (by decide)

theorem debugIndex_inj {left right : Option Nat} (same : debugIndex left = debugIndex right) :
    left = right := by
  have texts := congrArg String.toList same
  cases left with
  | none =>
    cases right with
    | none => rfl
    | some index => simp [debugIndex, String.toList_append] at texts
  | some index =>
    cases right with
    | none => simp [debugIndex, String.toList_append] at texts
    | some other =>
      simp only [debugIndex, String.toList_append] at texts
      have digits := List.append_cancel_left (List.append_cancel_right texts)
      exact congrArg some (Nat.repr_inj.mp (String.toList_inj.mp digits))

/-- A step as a provider meets it: the item of a planned step of a run. A step with
`for_each` has numbered items, any other step is its own item. -/
structure Effect.Of (effect : Effect) (planned : PlannedStep) : Prop where
  found : effect.plan.steps[effect.step]? = some planned
  item : effect.item.isSome = planned.forEach.isSome

theorem dispatchValue_key (ext : Externals) (config : RuntimeConfig) (now : DateTime)
    (claim : Claim) {planned : PlannedStep} (item : Option Nat) (invocationId : String)
    (attempt : Nat) (input : Value) (idempotent : planned.idempotent = true) :
    (dispatchValue ext config now claim planned item invocationId attempt
      input).invocation.idempotencyKey =
        some (claim.run.plan.idempotencyKey ++ ":" ++ debugIndex item) := by
  simp [dispatchValue, idempotent]

theorem invocationKey_inj {left right : String} {leftItem rightItem : Option Nat}
    (same : left ++ ":" ++ debugIndex leftItem = right ++ ":" ++ debugIndex rightItem) :
    left = right ∧ leftItem = rightItem := by
  have texts := congrArg String.toList same
  rw [toList_separated, toList_separated] at texts
  obtain ⟨keys, items⟩ := cut_last_inj (debugIndex_free leftItem) (debugIndex_free rightItem) texts
  exact ⟨String.toList_inj.mp keys, debugIndex_inj (String.toList_inj.mp items)⟩

/-- Equal keys of idempotent steps mean one effect. -/
def KeysIdentify (ext : Externals) (runs : Set PlannedRun) : Prop :=
  ∀ (left right : Effect) (leftPlanned rightPlanned : PlannedStep), left.plan ∈ runs →
    right.plan ∈ runs → left.Of leftPlanned → right.Of rightPlanned →
    leftPlanned.idempotent = true → rightPlanned.idempotent = true →
    ∀ (leftConfig rightConfig : RuntimeConfig) (leftNow rightNow : DateTime)
      (leftClaim rightClaim : Claim) (leftId rightId : String) (leftAttempt rightAttempt : Nat)
      (leftInput rightInput : Value), leftClaim.run.plan = left.plan →
      rightClaim.run.plan = right.plan →
      (dispatchValue ext leftConfig leftNow leftClaim leftPlanned left.item leftId leftAttempt
        leftInput).invocation.idempotencyKey =
      (dispatchValue ext rightConfig rightNow rightClaim rightPlanned right.item rightId
        rightAttempt rightInput).invocation.idempotencyKey →
      left = right

/-- No two idempotent steps of runs with one idempotency key are both with
`for_each` or both without. -/
def KeysApart (runs : Set PlannedRun) : Prop :=
  ∀ left ∈ runs, ∀ right ∈ runs, ∀ (leftStep rightStep : Nat)
    (leftPlanned rightPlanned : PlannedStep), left.steps[leftStep]? = some leftPlanned →
    right.steps[rightStep]? = some rightPlanned → leftPlanned.idempotent = true →
    rightPlanned.idempotent = true → left.idempotencyKey = right.idempotencyKey →
    leftPlanned.forEach.isSome = rightPlanned.forEach.isSome →
    left = right ∧ leftStep = rightStep

/-- Keys identify effects exactly when no two idempotent steps of the same kind share
a run key. -/
theorem keys_identify_effects_iff (ext : Externals) (runs : Set PlannedRun) :
    KeysIdentify ext runs ↔ KeysApart runs := by
  constructor
  · intro identify left leftMember right rightMember leftStep rightStep leftPlanned rightPlanned
      leftFound rightFound leftIdempotent rightIdempotent keys kinds
    -- the first item of either step, or the step itself
    have item : ∀ planned : PlannedStep,
        (planned.forEach.map fun _ => 0).isSome = planned.forEach.isSome := by
      intro planned
      exact Option.isSome_map
    have same : (leftPlanned.forEach.map fun _ => 0) = rightPlanned.forEach.map fun _ => 0 := by
      cases leftEach : leftPlanned.forEach <;> cases rightEach : rightPlanned.forEach <;> simp_all
    let claim (plan : PlannedRun) : Claim :=
      { (default : Claim) with run := { (default : RunRecord) with plan := plan } }
    have equal := identify ⟨left, leftStep, leftPlanned.forEach.map fun _ => 0⟩
      ⟨right, rightStep, rightPlanned.forEach.map fun _ => 0⟩ leftPlanned rightPlanned leftMember
      rightMember ⟨leftFound, item leftPlanned⟩ ⟨rightFound, item rightPlanned⟩ leftIdempotent
      rightIdempotent default default 0 0 (claim left) (claim right) "" "" 0 0 .null .null rfl rfl
      (by
        rw [dispatchValue_key _ _ _ _ _ _ _ _ leftIdempotent,
          dispatchValue_key _ _ _ _ _ _ _ _ rightIdempotent, same]
        exact congrArg (fun key => some (key ++ ":" ++ _)) keys)
    rw [Effect.mk.injEq] at equal
    exact ⟨equal.1, equal.2.1⟩
  · intro apart left right leftPlanned rightPlanned leftMember rightMember leftOf rightOf
      leftIdempotent rightIdempotent _ _ _ _ leftClaim rightClaim _ _ _ _ _ _ leftPlan rightPlan same
    rw [dispatchValue_key _ _ _ _ _ _ _ _ leftIdempotent,
      dispatchValue_key _ _ _ _ _ _ _ _ rightIdempotent, leftPlan, rightPlan,
      Option.some.injEq] at same
    obtain ⟨keys, items⟩ := invocationKey_inj same
    have kinds : leftPlanned.forEach.isSome = rightPlanned.forEach.isSome := by
      rw [← leftOf.item, ← rightOf.item, items]
    obtain ⟨plans, steps⟩ := apart left.plan leftMember right.plan rightMember left.step right.step
      leftPlanned rightPlanned leftOf.found rightOf.found leftIdempotent rightIdempotent keys kinds
    obtain ⟨plan, step, item⟩ := left
    obtain ⟨otherPlan, otherStep, otherItem⟩ := right
    cases plans
    cases steps
    cases items
    rfl

/-- Two idempotent steps of one run are dispatched with one key. -/
theorem idempotent_steps_share_key :
    ∃ sys, FleetRun sampleExternals .none .initial sys ∧
      ∃ left ∈ sys.sent, ∃ right ∈ sys.sent, left.run.plan = right.run.plan ∧
        left.run.nextStep ≠ right.run.nextStep ∧
        left.invocation.idempotencyKey.isSome = true ∧
        left.invocation.idempotencyKey = right.invocation.idempotencyKey := by
  exact exists_of_replayFleet sampleExternals .none .initial
    (sampleClaim [sampleStep "a" true, sampleStep "b" true] ++ sampleAttempt 0 ++
      [.send 0 sampleSuccess, .readClock 0 2, .commit 0, .readClock 0 3, .commit 0] ++
      sampleAttempt 0 ++ [.send 0 sampleLoss])
    (fun sys => ∃ left ∈ sys.sent, ∃ right ∈ sys.sent, left.run.plan = right.run.plan ∧
      left.run.nextStep ≠ right.run.nextStep ∧ left.invocation.idempotencyKey.isSome = true ∧
      left.invocation.idempotencyKey = right.invocation.idempotencyKey) (by decide +kernel)

end Mdbase.Runtime
