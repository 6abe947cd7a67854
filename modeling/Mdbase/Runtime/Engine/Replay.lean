import Mdbase.Runtime.Engine.Fleet
import Mdbase.Runtime.Replay

/-!
# Replaying fleets

`Fleet.perform` computes the step that a call takes or an answer leads to, and
`replayFleet` a whole history under decidable conditions. A replay that succeeds
is a run of the fleet, so concrete histories can be evaluated.
-/

namespace Mdbase.Runtime

open Library Program Relation Memory

/-- A store call, an answer to the worker of a slot, or its crash. -/
inductive FleetCall where
  | admitEvent (event : PreparedEvent)
  | claimRun (slot : Nat) (config : RuntimeConfig) (executor worker : String) (now : DateTime)
      (leaseFor : Duration) (token : String)
  | requestCancel (id : String) (now : DateTime)
  | crash (slot : Nat)
  | readClock (slot : Nat) (now : DateTime)
  | decide (slot : Nat) (decision : AuthorizationDecision)
  | lookUp (slot : Nat) (found : Bool)
  | send (slot : Nat) (answer : Option (Except DispatchFailure ActionOutcome))
  | commit (slot : Nat)

/-- The answer of a provider, as the limit of the dispatch allows it. -/
def answerWithin : (limit : Option Duration) → (invocation : ActionInvocation) →
    Option (Except DispatchFailure ActionOutcome) →
    Option (Question.Answer (.dispatch limit invocation))
  | none, _, answer => answer
  | some _, _, answer => some answer

section Conditions

variable (ext : Externals) (conditions : Conditions)
  [∀ config run use now, Decidable (conditions.reads config run use now)]
  [∀ run result, Decidable (conditions.answers run result)]

/-- The fleet after an answer to the question that a worker asks, `none` when the
worker asks something else or the answer does not meet the conditions. -/
def Fleet.answer (sys : Fleet) (slot : Nat) (worker : Worker) : FleetCall → Option Fleet
  | .readClock _ now =>
    match worker.rest with
    | .ask (.now use) onward =>
      if conditions.reads worker.config worker.claim.run use now then
        some (sys.resume slot worker (onward now))
      else none
    | _ => none
  | .decide _ decision =>
    match worker.rest with
    | .ask (.authorize _) onward => some (sys.resume slot worker (onward decision))
    | _ => none
  | .lookUp _ found =>
    match worker.rest with
    | .ask (.provider _ _) onward => some (sys.resume slot worker (onward found))
    | _ => none
  | .send _ answer =>
    match worker.rest with
    | .ask (.dispatch limit invocation) onward =>
      (answerWithin limit invocation answer).bind fun answer =>
        if conditions.answers worker.claim.run ((Engine.providerResult limit invocation
            answer).bind (normalizeOutcome ext invocation)) then
          some { sys.resume slot worker (onward answer) with
            sent := { run := worker.claim.run, invocation := invocation } :: sys.sent }
        else none
    | _ => none
  | .commit _ =>
    match worker.rest with
    | .ask (.commitRun site submitted) onward =>
      match Memory.commitRun sys.store submitted [] with
      | none => none
      | some (store, .ok next) => some { sys with
          store := store
          workers := Function.update sys.workers slot (some
            { worker with claim := next, rest := onward (.ok next) })
          recorded := { site := site, held := worker.claim.run, run := next.run } :: sys.recorded }
      | some (store, .error error) =>
        some { sys.resume slot worker (onward (.error error)) with store := store }
    | _ => none
  | _ => none

variable {sys next : Fleet}

/-- What answers a worker's call is a step of the fleet. -/
theorem Fleet.answer_step {slot : Nat} {worker : Worker} {call : FleetCall}
    (works : sys.workers slot = some worker)
    (answered : sys.answer ext conditions slot worker call = some next) :
    FleetStep ext conditions sys next := by
  cases call with
  | readClock other now =>
    simp only [answer] at answered
    split at answered
    next asks =>
      split at answered
      next read =>
        cases answered
        exact .readClock now works asks read
      next => cases answered
    next => cases answered
  | decide other decision =>
    simp only [answer] at answered
    split at answered
    next asks =>
      cases answered
      exact .decide decision works asks
    next => cases answered
  | lookUp other found =>
    simp only [answer] at answered
    split at answered
    next asks =>
      cases answered
      exact .lookUp found works asks
    next => cases answered
  | send other reply =>
    simp only [answer] at answered
    split at answered
    next asks =>
      obtain ⟨reply, _, sent⟩ := Option.bind_eq_some_iff.mp answered
      split at sent
      next permitted =>
        cases sent
        exact .send reply works asks permitted
      next => cases sent
    next => cases answered
  | commit other =>
    simp only [answer] at answered
    split at answered
    next asks =>
      split at answered
      next => cases answered
      next result =>
        cases answered
        exact .commit works asks result
      next result =>
        cases answered
        exact .refuse works asks result
    next => cases answered
  | admitEvent event | claimRun _ _ _ _ _ _ _ | requestCancel id now | crash other => cases answered

variable [∀ store event, Decidable (conditions.admits store event)]
  [∀ config run, Decidable (conditions.claims config run)]

/-- The fleet after a call. -/
def Fleet.perform (sys : Fleet) : FleetCall → Option Fleet
  | .admitEvent event =>
    if conditions.admits sys.store event then
      (admit_ sys.store event).map fun result => { sys with store := result.1 }
    else none
  | .claimRun slot config executor worker now leaseFor token =>
    if token ∈ sys.issued then none
    else
      match Memory.claimRun sys.store executor worker now leaseFor token with
      | none => none
      | some (store, .ok (some claim)) =>
        if conditions.claims config claim.run then
          some { sys with
            store := store
            workers := Function.update sys.workers slot (some
              { config := config
                claim := claim
                rest := (Engine.executeClaim ext config claim).run })
            issued := token :: sys.issued }
        else none
      | some (store, _) => some { sys with store := store }
  | .requestCancel id now => some { sys with store := (Memory.requestCancel sys.store id now).1 }
  | .crash slot => some { sys with workers := Function.update sys.workers slot none }
  | .readClock slot now =>
    (sys.workers slot).bind fun worker =>
      sys.answer ext conditions slot worker (.readClock slot now)
  | .decide slot decision =>
    (sys.workers slot).bind fun worker =>
      sys.answer ext conditions slot worker (.decide slot decision)
  | .lookUp slot found =>
    (sys.workers slot).bind fun worker =>
      sys.answer ext conditions slot worker (.lookUp slot found)
  | .send slot answer =>
    (sys.workers slot).bind fun worker =>
      sys.answer ext conditions slot worker (.send slot answer)
  | .commit slot =>
    (sys.workers slot).bind fun worker =>
      sys.answer ext conditions slot worker (.commit slot)

theorem Fleet.perform_step {call : FleetCall}
    (performed : sys.perform ext conditions call = some next) :
    FleetStep ext conditions sys next := by
  cases call with
  | admitEvent event =>
    simp only [perform] at performed
    split at performed
    next holds =>
      obtain ⟨⟨store, outcome⟩, result, rfl⟩ := Option.map_eq_some_iff.mp performed
      exact .admitEvent holds result
    next => cases performed
  | claimRun slot config executor worker now leaseFor token =>
    simp only [perform] at performed
    split at performed
    next => cases performed
    rename_i fresh
    split at performed
    next => cases performed
    next result =>
      split at performed
      next permitted =>
        cases performed
        exact .claimed fresh permitted result
      next => cases performed
    next store reply empty result =>
      cases performed
      exact .unclaimed result fun claim same => empty claim same
  | requestCancel id now => cases performed; exact .requestCancel id now
  | crash slot => cases performed; exact .crash slot
  | readClock slot now | decide slot decision | lookUp slot found | send slot reply
  | commit slot =>
    obtain ⟨worker, works, answered⟩ := Option.bind_eq_some_iff.mp performed
    exact Fleet.answer_step ext conditions works answered

/-- The fleet after a history. -/
def replayFleet (sys : Fleet) (calls : List FleetCall) : Option Fleet :=
  calls.foldlM (fun sys call => sys.perform ext conditions call) sys

theorem replayFleet_run {calls : List FleetCall}
    (replayed : replayFleet ext conditions sys calls = some next) :
    FleetRun ext conditions sys next := by
  induction calls generalizing sys with
  | nil =>
    obtain rfl : sys = next := by simpa [replayFleet] using replayed
    exact .refl
  | cons call rest ih =>
    obtain ⟨middle, first, later⟩ : ∃ middle, sys.perform ext conditions call = some middle ∧
        replayFleet ext conditions middle rest = some next := by
      simpa only [replayFleet, List.foldlM_cons, Option.bind_eq_bind,
        Option.bind_eq_some_iff] using replayed
    exact .head (Fleet.perform_step ext conditions first) (ih later)

/-- A replay that passes a test exhibits a run of the fleet that does. -/
theorem exists_of_replayFleet (sys : Fleet) (calls : List FleetCall) (test : Fleet → Prop)
    [DecidablePred test]
    (passes : (replayFleet ext conditions sys calls).any (fun next => decide (test next)) = true) :
    ∃ next, FleetRun ext conditions sys next ∧ test next := by
  obtain ⟨next, replayed, holds⟩ := (Option.any_eq_true _ _).mp passes
  exact ⟨next, replayFleet_run ext conditions replayed, by simpa using holds⟩

theorem exists_of_replayFleet_parts (sys : Fleet) (calls more : List FleetCall)
    (test : Fleet → Fleet → Prop) [∀ middle later, Decidable (test middle later)]
    (passes : (replayFleet ext conditions sys calls).any (fun middle =>
      (replayFleet ext conditions middle more).any fun later =>
        decide (test middle later)) = true) :
    ∃ middle later, FleetRun ext conditions sys middle ∧ FleetRun ext conditions middle later ∧
      test middle later := by
  obtain ⟨middle, replayed, passes⟩ := (Option.any_eq_true _ _).mp passes
  obtain ⟨later, onward, holds⟩ := exists_of_replayFleet ext conditions middle more _ passes
  exact ⟨middle, later, replayFleet_run ext conditions replayed, onward, holds⟩

end Conditions

/-- Libraries under which templates stand for themselves, every condition is met
and every schema accepts every value. -/
def sampleExternals : Externals where
  sha256 := id
  contractDigest _ := .ok "digest"
  evaluateRuntimeExpression _ _ _ _ := .ok (.bool true)
  evaluateRuntimeTemplate template _ _ _ := .ok template
  compileSchema _ := .ok fun _ => []
  outcomeValue _ := .null

def sampleConfig : RuntimeConfig where
  executorId := "runner"
  identity := default
  timezone := none
  maxItems := 1000

/-- A step that calls the action `act`. -/
def sampleStep (id : String) (idempotent : Bool) : PlannedStep :=
  { (default : PlannedStep) with
    id := id
    action := "act"
    actionVersion := "1"
    actionDigest := "digest"
    actionContract := .object [
      ("id", .string "act"),
      ("input_schema", .object [("value", .null)]),
      ("output_schema", .object [("value", .null)]),
      ("version", .string "1")]
    idempotent := idempotent }

/-- A plan of the run `r` with the given steps. -/
def sampleRun (steps : List PlannedStep) : PlannedRun :=
  { samplePlan "r" "k" "g" .allow 0 with steps := steps }

/-- The answers that lead a worker from the start of a step without condition to
the dispatch of its item. -/
def sampleAttempt (slot : Nat) : List FleetCall :=
  [.readClock slot 1, .readClock slot 1, .commit slot,
    .readClock slot 1, .readClock slot 1, .decide slot .allow,
    .readClock slot 1, .readClock slot 1, .commit slot,
    .readClock slot 1, .decide slot .allow, .lookUp slot true]

/-- A refusal by a provider: the action was not applied. -/
def sampleRefusal : Option (Except DispatchFailure ActionOutcome) :=
  some (.error { code := "refused", message := "Not applied.", outcome := .notApplied })

/-- A dispatch whose outcome is not known. -/
def sampleLoss : Option (Except DispatchFailure ActionOutcome) :=
  some (.error { code := "lost", message := "Not known.", outcome := .unknown })

/-- The success of the first attempt of step `a` of the run `r`. -/
def sampleSuccess : Option (Except DispatchFailure ActionOutcome) :=
  some (.ok {
    kind := "mdbase.action.outcome"
    profileVersion := "0.1"
    requestId := stableId id "req" "r:a:0"
    invocationId := stableId id "inv" "r:a:0"
    attemptId := stableId id "attempt" (stableId id "req" "r:a:0" ++ ":1")
    contract := ⟨"act", "1", "digest"⟩
    provider := default
    providerDeclarationDigest := ""
    status := "succeeded"
    output := some .null
    error := none })

/-- A run with the given steps is admitted and claimed. -/
def sampleClaim (steps : List PlannedStep) : List FleetCall :=
  [.admitEvent (sampleEvent "e" 0 [sampleRun steps]),
    .claimRun 0 sampleConfig "runner" "w" 0 1000 "t"]

end Mdbase.Runtime
