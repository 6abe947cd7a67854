import Mdbase.Runtime.Clients
import Mdbase.Runtime.Engine.Conformance

/-!
# A fleet of workers executing claims

`Fleet` is the store, the workers with the rest of the program each still has to
run, and what was sent and committed so far. A step is one store call, one answer
to one question of one worker, or a crash, so every interleaving at every
suspension point is a run. `Trace` forgets the programs and keeps the position of
every worker: by the conformance of the engine every step of a fleet is a step of
its trace, and invariants are proved of traces.
-/

namespace Mdbase.Runtime

open Library Program Relation Memory

/-- A worker: what it received last and what it still has to do. -/
structure Worker where
  config : RuntimeConfig
  claim : Claim
  rest : Program Question Question.Answer (Except Halt WorkerOutcome)

/-- An invocation that was sent to a provider, with the record its worker held. -/
structure Sent where
  run : RunRecord
  invocation : ActionInvocation

/-- A commit that went through: where it was made, the record its worker held and
the record it stored. -/
structure Recorded where
  site : CommitSite
  held : RunRecord
  run : RunRecord

structure Fleet where
  store : MemoryState
  workers : Nat → Option Worker
  issued : List String
  sent : List Sent
  recorded : List Recorded

/-- No worker has a claim on the new store. -/
def Fleet.initial : Fleet where
  store := .new
  workers := fun _ => none
  issued := []
  sent := []
  recorded := []

/-- The fleet after a worker got an answer. -/
def Fleet.resume (sys : Fleet) (slot : Nat) (worker : Worker)
    (rest : Program Question Question.Answer (Except Halt WorkerOutcome)) : Fleet :=
  { sys with workers := Function.update sys.workers slot (some { worker with rest := rest }) }

/-- One step of a fleet whose surroundings meet the conditions. Lease tokens are
fresh, and a store call that panics has no successor. -/
inductive FleetStep (ext : Externals) (conditions : Conditions) (sys : Fleet) :
    Fleet → Prop where
  | admitEvent {event : PreparedEvent} {store : MemoryState} {outcome : AdmitOutcome}
      (holds : conditions.admits sys.store event)
      (result : admit_ sys.store event = some (store, outcome)) :
      FleetStep ext conditions sys { sys with store := store }
  | claimed {slot : Nat} {config : RuntimeConfig} {executor worker token : String}
      {now : DateTime} {leaseFor : Duration} {store : MemoryState} {claim : Claim}
      (fresh : token ∉ sys.issued) (permitted : conditions.claims config claim.run)
      (result : claimRun sys.store executor worker now leaseFor token =
        some (store, .ok (some claim))) :
      FleetStep ext conditions sys
        { sys with
          store := store
          workers := Function.update sys.workers slot (some
            { config := config
              claim := claim
              rest := (Engine.executeClaim ext config claim).run })
          issued := token :: sys.issued }
  | unclaimed {executor worker token : String} {now : DateTime} {leaseFor : Duration}
      {store : MemoryState} {reply : Except RuntimeError (Option Claim)}
      (result : claimRun sys.store executor worker now leaseFor token = some (store, reply))
      (empty : ∀ claim, reply ≠ .ok (some claim)) :
      FleetStep ext conditions sys { sys with store := store }
  | requestCancel (id : String) (now : DateTime) :
      FleetStep ext conditions sys
        { sys with store := (Memory.requestCancel sys.store id now).1 }
  | crash (slot : Nat) :
      FleetStep ext conditions sys
        { sys with workers := Function.update sys.workers slot none }
  | readClock {slot : Nat} {worker : Worker} {use : ClockUse}
      {onward : DateTime → Program Question Question.Answer (Except Halt WorkerOutcome)}
      (now : DateTime) (works : sys.workers slot = some worker)
      (asks : worker.rest = .ask (.now use) onward)
      (read : conditions.reads worker.config worker.claim.run use now) :
      FleetStep ext conditions sys (sys.resume slot worker (onward now))
  | decide {slot : Nat} {worker : Worker} {dispatch : ActionDispatch}
      {onward : AuthorizationDecision →
        Program Question Question.Answer (Except Halt WorkerOutcome)}
      (decision : AuthorizationDecision) (works : sys.workers slot = some worker)
      (asks : worker.rest = .ask (.authorize dispatch) onward) :
      FleetStep ext conditions sys (sys.resume slot worker (onward decision))
  | lookUp {slot : Nat} {worker : Worker} {digest handler : String}
      {onward : Bool → Program Question Question.Answer (Except Halt WorkerOutcome)}
      (found : Bool) (works : sys.workers slot = some worker)
      (asks : worker.rest = .ask (.provider digest handler) onward) :
      FleetStep ext conditions sys (sys.resume slot worker (onward found))
  | notify {slot : Nat} {worker : Worker} {cancellationId requestId : String}
      {requestedAt : DateTime}
      {onward : Option (Except DispatchFailure Unit) →
        Program Question Question.Answer (Except Halt WorkerOutcome)}
      (answer : Option (Except DispatchFailure Unit)) (works : sys.workers slot = some worker)
      (asks : worker.rest = .ask (.cancel cancellationId requestId requestedAt) onward) :
      FleetStep ext conditions sys (sys.resume slot worker (onward answer))
  | send {slot : Nat} {worker : Worker} {limit : Option Duration} {invocation : ActionInvocation}
      {onward : Question.Answer (.dispatch limit invocation) →
        Program Question Question.Answer (Except Halt WorkerOutcome)}
      (answer : Question.Answer (.dispatch limit invocation))
      (works : sys.workers slot = some worker)
      (asks : worker.rest = .ask (.dispatch limit invocation) onward)
      (answered : conditions.answers worker.claim.run
        ((Engine.providerResult limit invocation answer).bind (normalizeOutcome ext invocation))) :
      FleetStep ext conditions sys
        { sys.resume slot worker (onward answer) with
          sent := { run := worker.claim.run, invocation := invocation } :: sys.sent }
  | commit {slot : Nat} {worker : Worker} {site : CommitSite} {submitted next : Claim}
      {store : MemoryState}
      {onward : Except RuntimeError Claim →
        Program Question Question.Answer (Except Halt WorkerOutcome)}
      (works : sys.workers slot = some worker)
      (asks : worker.rest = .ask (.commitRun site submitted) onward)
      (result : commitRun sys.store submitted [] = some (store, .ok next)) :
      FleetStep ext conditions sys
        { sys with
          store := store
          workers := Function.update sys.workers slot (some
            { worker with claim := next, rest := onward (.ok next) })
          recorded := { site := site, held := worker.claim.run, run := next.run } :: sys.recorded }
  | refuse {slot : Nat} {worker : Worker} {site : CommitSite} {submitted : Claim}
      {store : MemoryState} {error : RuntimeError}
      {onward : Except RuntimeError Claim →
        Program Question Question.Answer (Except Halt WorkerOutcome)}
      (works : sys.workers slot = some worker)
      (asks : worker.rest = .ask (.commitRun site submitted) onward)
      (result : commitRun sys.store submitted [] = some (store, .error error)) :
      FleetStep ext conditions sys
        { sys.resume slot worker (onward (.error error)) with store := store }

/-- The fleets reached from a given one. -/
abbrev FleetRun (ext : Externals) (conditions : Conditions) : Fleet → Fleet → Prop :=
  ReflTransGen (FleetStep ext conditions)

/-- A fleet without the programs of its workers. -/
structure Trace where
  store : MemoryState
  positions : Nat → Option Position
  issued : List String
  sent : List Sent
  recorded : List Recorded

def Trace.initial : Trace where
  store := .new
  positions := fun _ => none
  issued := []
  sent := []
  recorded := []

/-- One step of a trace. -/
inductive TraceStep (ext : Externals) (conditions : Conditions) (trace : Trace) :
    Trace → Prop where
  | admitEvent {event : PreparedEvent} {store : MemoryState} {outcome : AdmitOutcome}
      (holds : conditions.admits trace.store event)
      (result : admit_ trace.store event = some (store, outcome)) :
      TraceStep ext conditions trace { trace with store := store }
  | claimed (slot : Nat) {config : RuntimeConfig} {executor worker token : String}
      {now : DateTime} {leaseFor : Duration} {store : MemoryState} {claim : Claim}
      (fresh : token ∉ trace.issued) (permitted : conditions.claims config claim.run)
      (result : claimRun trace.store executor worker now leaseFor token =
        some (store, .ok (some claim))) :
      TraceStep ext conditions trace
        { trace with
          store := store
          positions := Function.update trace.positions slot (some
            { config := config, claim := claim, stage := .evaluating })
          issued := token :: trace.issued }
  | released (now : DateTime) :
      TraceStep ext conditions trace { trace with store := releaseExpired trace.store now }
  | requestCancel (id : String) (now : DateTime) :
      TraceStep ext conditions trace
        { trace with store := (Memory.requestCancel trace.store id now).1 }
  | crash (slot : Nat) :
      TraceStep ext conditions trace
        { trace with positions := Function.update trace.positions slot none }
  | send {slot : Nat} {position : Position} {invocation : ActionInvocation}
      (result : Except DispatchFailure (Value × Value))
      (at_ : trace.positions slot = some position)
      (dispatches : Dispatches ext position invocation)
      (answered : conditions.answers position.claim.run result) :
      TraceStep ext conditions trace
        { trace with
          positions := Function.update trace.positions slot (some
            { position with stage := .answered position.stage.isEvaluating result })
          sent := { run := position.claim.run, invocation := invocation } :: trace.sent }
  | commit {slot : Nat} {position : Position} {site : CommitSite} {run : RunRecord}
      {store : MemoryState} {next : Claim} (at_ : trace.positions slot = some position)
      (running : position.claim.run.status = .running)
      (commit : Commit ext conditions position site run)
      (result : commitRun trace.store { position.claim with run := run } [] =
        some (store, .ok next)) :
      TraceStep ext conditions trace
        { trace with
          store := store
          positions := Function.update trace.positions slot (some
            { position with claim := next, stage := position.stage.after site })
          recorded :=
            { site := site, held := position.claim.run, run := next.run } :: trace.recorded }

/-- The traces reached from a given one. -/
abbrev TraceRun (ext : Externals) (conditions : Conditions) : Trace → Trace → Prop :=
  ReflTransGen (TraceStep ext conditions)

/-- A property of records that admission and cancellation keep. -/
structure StoreKeeps (P : RunRecord → Prop) : Prop where
  admitted : ∀ plan, P (.admitted plan)
  cancelled : ∀ {run cancelled : RunRecord} {now : DateTime}, P run →
    run.requestCancel now = some cancelled →
    P { cancelled with revision := cancelled.revision + 1 }

namespace StoreKeeps

variable {P : RunRecord → Prop} {store next : MemoryState}

theorem cancellation (keeps : StoreKeeps P) {run cancelled : RunRecord} {now : DateTime}
    (stored : run ∈ store.runs) (accepted : run.requestCancel now = some cancelled)
    (all : ∀ run ∈ store.runs, P run) :
    ∀ run ∈ (recordCancellation store cancelled).runs, P run := by
  intro other member
  rw [recordCancellation_runs] at member
  rcases Table.mem_insert.mp member with rfl | ⟨kept, _⟩
  · exact keeps.cancelled (all run stored) accepted
  · exact all other kept

theorem change (keeps : StoreKeeps P) {event : PreparedEvent} {cursor : Nat}
    (change : Change event cursor store next) (all : ∀ run ∈ store.runs, P run) :
    ∀ run ∈ next.runs, P run := by
  cases change with
  | remove id _ => exact fun run member => all run (Table.mem_erase.mp member).1
  | cancel stored accepted => exact keeps.cancellation stored accepted all
  | release stored terminal => exact all
  | store _ _ _ _ _ =>
    intro run member
    rcases Table.mem_insert.mp member with rfl | ⟨kept, _⟩
    · exact keeps.admitted _
    · exact all run kept

theorem admit_ (keeps : StoreKeeps P) {event : PreparedEvent} {outcome : AdmitOutcome}
    (result : Memory.admit_ store event = some (next, outcome))
    (all : ∀ run ∈ store.runs, P run) : ∀ run ∈ next.runs, P run := by
  rcases admit_changes result with ⟨rfl, _⟩ | ⟨_, _, _, changes⟩
  · exact all
  · have entry : ∀ run ∈ (journal store event).runs, P run := all
    clear result
    induction changes with
    | refl => exact entry
    | tail _ last ih => exact keeps.change last ih

theorem requestCancel (keeps : StoreKeeps P) (all : ∀ run ∈ store.runs, P run) (id : String)
    (now : DateTime) : ∀ run ∈ (Memory.requestCancel store id now).1.runs, P run := by
  unfold Memory.requestCancel
  split
  next => exact all
  rename_i run found
  split
  next => exact all
  next accepted => exact keeps.cancellation (Table.mem_of_get? found) accepted all

end StoreKeeps

variable {store next : MemoryState}

/-- When a commit is accepted, and what it stores. -/
theorem commitRun_stores {claim reply : Claim}
    (result : commitRun store claim [] = some (next, .ok reply)) :
    reply = claim.bump ∧ next = releaseTerminal (installRun store claim.run) claim.run ∧
      ∃ entry stored, store.runLeases.get? claim.run.plan.id = some entry ∧
        entry.2.worker = claim.worker ∧ entry.2.token = claim.token ∧
        store.runs.get? claim.run.plan.id = some stored ∧
        stored.revision = claim.run.revision := by
  obtain ⟨entry, stored, admitted, commit⟩ := commitRun_committed result
  have same : installRun store claim.run = admitted := by
    simpa [admitAll] using commit.emits
  refine ⟨commit.reply_eq, ?_, entry, stored, commit.lease, commit.worker, commit.token,
    commit.found, commit.revision⟩
  rw [commit.next_eq, same]

@[simp] theorem releaseTerminal_runs (store : MemoryState) (run : RunRecord) :
    (releaseTerminal store run).runs = store.runs := by
  unfold releaseTerminal
  split <;> rfl

/-- What an updated slot map holds is the new value or an old one. -/
theorem updated_cases {α : Type} {slots : Nat → Option α} {slot other : Nat} {value : Option α}
    {found : α} (holds : Function.update slots slot value other = some found) :
    other = slot ∧ value = some found ∨ other ≠ slot ∧ slots other = some found := by
  rw [Function.update_apply] at holds
  split at holds
  next here => exact .inl ⟨here, holds⟩
  next elsewhere => exact .inr ⟨elsewhere, holds⟩

/-- The records in the store and in the hands of the workers are sound. -/
structure Trace.Sound (trace : Trace) : Prop where
  stored : ∀ run ∈ trace.store.runs, Runtime.Sound run
  held : ∀ slot position, trace.positions slot = some position →
    Runtime.Sound position.claim.run ∧ (position.claim.run.status = .running → position.Busy)

theorem soundness_kept : StoreKeeps Sound where
  admitted := Sound.admitted
  cancelled sound accepted := (sound.cancelled accepted).bump _

theorem Memory.Granted.underway {worker token : String}
    {now : DateTime} {claim : Claim} {run : RunRecord}
    (granted : Granted store worker token now next claim run) (sound : Sound run) :
    Underway claim.run := by
  rw [granted.run_eq]
  unfold startRun
  split
  next queued => exact (sound.of_queued queued).start _ now
  rename_i started
  rcases granted.status with queued | running
  · exact absurd queued started
  · exact sound.of_running running

namespace Trace

variable {ext : Externals} {conditions : Conditions} {trace next : Trace}

theorem Sound.initial : Trace.initial.Sound := by
  constructor <;> simp [Trace.initial, MemoryState.new]

/-- Every step keeps a trace sound. -/
theorem Sound.step (sound : trace.Sound) (step : TraceStep ext conditions trace next) :
    next.Sound := by
  cases step with
  | admitEvent _ result => exact ⟨soundness_kept.admit_ result sound.stored, sound.held⟩
  | @claimed slot config _ _ _ _ _ _ claim _ _ result =>
    obtain ⟨run, granted⟩ := claimRun_granted result
    have underway := granted.underway (sound.stored run granted.stored)
    constructor
    · intro other member
      rw [granted.next_eq] at member
      rcases Table.mem_insert.mp member with rfl | ⟨kept, _⟩
      · exact .underway underway
      · exact sound.stored other kept
    · intro other position holds
      rcases updated_cases holds with ⟨_, same⟩ | ⟨_, kept⟩
      · cases same
        exact ⟨.underway underway, fun _ => ⟨underway, trivial⟩⟩
      · exact sound.held other position kept
  | released now => exact ⟨sound.stored, sound.held⟩
  | requestCancel id now => exact ⟨soundness_kept.requestCancel sound.stored id now, sound.held⟩
  | crash slot =>
    refine ⟨sound.stored, fun other position holds => ?_⟩
    rcases updated_cases holds with ⟨_, same⟩ | ⟨_, kept⟩
    · cases same
    · exact sound.held other position kept
  | @send slot position invocation result at_ dispatches _ =>
    refine ⟨sound.stored, fun other held holds => ?_⟩
    rcases updated_cases holds with ⟨_, same⟩ | ⟨_, kept⟩
    · cases same
      obtain ⟨record, busy⟩ := sound.held slot position at_
      refine ⟨record, fun running => ⟨(busy running).underway, ?_⟩⟩
      obtain ⟨active, _, _, _, isActive, _⟩ := dispatches.built
      simp [Stage.Fits, isActive]
    · exact sound.held other held kept
  | @commit slot position site run _ _ at_ running commit result =>
    obtain ⟨rfl, rfl, _⟩ := commitRun_stores result
    have busy := (sound.held slot position at_).2 running
    have after := Engine.committed_sound busy commit
    have record : Runtime.Sound (Engine.committed position site run).claim.run := by
      rcases after with ended | later
      · exact .ended ended
      · exact .underway later.underway
    constructor
    · intro other member
      rw [releaseTerminal_runs] at member
      rcases Table.mem_insert.mp member with rfl | ⟨kept, _⟩
      · exact record
      · exact sound.stored other kept
    · intro other held holds
      rcases updated_cases holds with ⟨_, same⟩ | ⟨_, kept⟩
      · cases same
        refine ⟨record, fun stillRunning => ?_⟩
        rcases after with ended | later
        · have terminal := ended.status
          have still : (Engine.committed position site run).claim.run.status = .running :=
            stillRunning
          rw [still] at terminal
          cases terminal
        · exact later
      · exact sound.held other held kept

/-- Every trace that is reached is sound. -/
theorem Sound.run (reached : TraceRun ext conditions .initial trace) : trace.Sound := by
  induction reached with
  | refl => exact Sound.initial
  | tail _ last ih => exact ih.step last

end Trace

/-- A property of records that every operation on them keeps. -/
structure RecordRule (ext : Externals) (conditions : Conditions) (P : RunRecord → Prop) :
    Prop where
  admitted : ∀ plan, P (.admitted plan)
  cancelled : ∀ {run cancelled : RunRecord} {now : DateTime}, Sound run → P run →
    run.requestCancel now = some cancelled →
    P { cancelled with revision := cancelled.revision + 1 }
  started : ∀ {run : RunRecord} (now : DateTime), Sound run → P run → P (startRun run now)
  committed : ∀ {position : Position} {site : CommitSite} {run : RunRecord}, position.Busy →
    P position.claim.run → Commit ext conditions position site run →
    P { run with revision := run.revision + 1 }

namespace RecordRule

variable {ext : Externals} {conditions : Conditions} {P : RunRecord → Prop}

theorem storeKeeps (rule : RecordRule ext conditions P) :
    StoreKeeps fun run => Sound run ∧ P run where
  admitted plan := ⟨Sound.admitted plan, rule.admitted plan⟩
  cancelled holds accepted :=
    ⟨(holds.1.cancelled accepted).bump _, rule.cancelled holds.1 holds.2 accepted⟩

/-- The property holds of the records in the store and in the hands of workers. -/
def Holds (P : RunRecord → Prop) (trace : Trace) : Prop :=
  (∀ run ∈ trace.store.runs, P run) ∧
    ∀ slot position, trace.positions slot = some position → P position.claim.run

/-- A rule about records is kept by every step. -/
theorem step (rule : RecordRule ext conditions P) {trace next : Trace} (sound : trace.Sound)
    (holds : Holds P trace) (step : TraceStep ext conditions trace next) : Holds P next := by
  obtain ⟨stored, held⟩ := holds
  have both : ∀ run ∈ trace.store.runs, Sound run ∧ P run :=
    fun run member => ⟨sound.stored run member, stored run member⟩
  cases step with
  | admitEvent _ result =>
    exact ⟨fun run member => (rule.storeKeeps.admit_ result both run member).2, held⟩
  | @claimed slot config _ _ _ now _ _ claim _ _ result =>
    obtain ⟨run, granted⟩ := claimRun_granted result
    have started : P claim.run := by
      rw [granted.run_eq]
      exact rule.started now (sound.stored run granted.stored) (stored run granted.stored)
    constructor
    · intro other member
      rw [granted.next_eq] at member
      rcases Table.mem_insert.mp member with rfl | ⟨kept, _⟩
      · exact started
      · exact stored other kept
    · intro other position holds
      rcases updated_cases holds with ⟨_, same⟩ | ⟨_, kept⟩
      · cases same
        exact started
      · exact held other position kept
  | released now => exact ⟨stored, held⟩
  | requestCancel id now =>
    exact ⟨fun run member => (rule.storeKeeps.requestCancel both id now run member).2, held⟩
  | crash slot =>
    refine ⟨stored, fun other position holds => ?_⟩
    rcases updated_cases holds with ⟨_, same⟩ | ⟨_, kept⟩
    · cases same
    · exact held other position kept
  | @send slot position invocation result at_ dispatches _ =>
    refine ⟨stored, fun other place holds => ?_⟩
    rcases updated_cases holds with ⟨_, same⟩ | ⟨_, kept⟩
    · cases same
      exact held slot position at_
    · exact held other place kept
  | @commit slot position site run _ _ at_ running commit result =>
    obtain ⟨rfl, rfl, _⟩ := commitRun_stores result
    have busy := (sound.held slot position at_).2 running
    have after := rule.committed busy (held slot position at_) commit
    constructor
    · intro other member
      rw [releaseTerminal_runs] at member
      rcases Table.mem_insert.mp member with rfl | ⟨kept, _⟩
      · exact after
      · exact stored other kept
    · intro other place holds
      rcases updated_cases holds with ⟨_, same⟩ | ⟨_, kept⟩
      · cases same
        exact after
      · exact held other place kept

theorem run (rule : RecordRule ext conditions P) {trace : Trace}
    (reached : TraceRun ext conditions .initial trace) : Holds P trace := by
  induction reached with
  | refl => constructor <;> simp [Trace.initial, MemoryState.new]
  | tail before last ih => exact rule.step (Trace.Sound.run before) ih last

end RecordRule

/-- A property of positions that the steps of their workers keep. -/
structure PositionRule (ext : Externals) (conditions : Conditions) (P : Position → Prop) :
    Prop where
  claimed : ∀ {config : RuntimeConfig} {claim : Claim}, Underway claim.run →
    conditions.claims config claim.run → P ⟨config, claim, .evaluating⟩
  answered : ∀ {position : Position} (resumed : Bool) (result), P position →
    P { position with stage := .answered resumed result }
  committed : ∀ {position : Position} {site : CommitSite} {run : RunRecord}, position.Busy →
    P position → Commit ext conditions position site run →
    P (Engine.committed position site run)

/-- What every step keeps of a worker's position holds of it along every run. -/
theorem PositionRule.run {ext : Externals} {conditions : Conditions} {P : Position → Prop}
    (rule : PositionRule ext conditions P) {trace : Trace}
    (reached : TraceRun ext conditions .initial trace) :
    ∀ slot position, trace.positions slot = some position → P position := by
  induction reached with
  | refl =>
    intro slot position holds
    cases holds
  | tail before last ih =>
    have sound := Trace.Sound.run before
    cases last with
    | admitEvent _ _ => exact ih
    | claimed slot _ permitted result =>
      obtain ⟨run, granted⟩ := claimRun_granted result
      intro other position holds
      rcases updated_cases holds with ⟨_, same⟩ | ⟨_, kept⟩
      · cases same
        exact rule.claimed (granted.underway (sound.stored run granted.stored)) permitted
      · exact ih other position kept
    | released _ | requestCancel _ _ => exact ih
    | crash slot =>
      intro other position holds
      rcases updated_cases holds with ⟨_, same⟩ | ⟨_, kept⟩
      · cases same
      · exact ih other position kept
    | send result at_ _ _ =>
      intro other position holds
      rcases updated_cases holds with ⟨_, same⟩ | ⟨_, kept⟩
      · cases same
        exact rule.answered _ result (ih _ _ at_)
      · exact ih other position kept
    | commit at_ running commit result =>
      obtain ⟨rfl, _⟩ := commitRun_stores result
      intro other position holds
      rcases updated_cases holds with ⟨_, same⟩ | ⟨_, kept⟩
      · cases same
        exact rule.committed ((sound.held _ _ at_).2 running) (ih _ _ at_) commit
      · exact ih other position kept

/-- The trace of a fleet: every worker is at its position and has a program that
follows the protocol from there. -/
structure Tracks (ext : Externals) (conditions : Conditions) (sys : Fleet) (trace : Trace) :
    Prop where
  store : trace.store = sys.store
  issued : trace.issued = sys.issued
  sent : trace.sent = sys.sent
  recorded : trace.recorded = sys.recorded
  workers : ∀ slot worker, sys.workers slot = some worker → ∃ position,
    trace.positions slot = some position ∧ position.config = worker.config ∧
      position.claim = worker.claim ∧
      Follows (engineProtocol ext conditions) position worker.rest fun _ result =>
        ∀ halt, result = .error halt → ∃ error, halt = .error error

theorem Tracks.initial (ext : Externals) (conditions : Conditions) :
    Tracks ext conditions .initial .initial := by
  constructor <;> simp [Fleet.initial, Trace.initial]

namespace Tracks

variable {ext : Externals} {conditions : Conditions} {sys next : Fleet} {trace : Trace}

theorem resume (tracks : Tracks ext conditions sys trace) {slot : Nat} {worker : Worker}
    {position : Position}
    {rest : Program Question Question.Answer (Except Halt WorkerOutcome)}
    (at_ : trace.positions slot = some position) (config : position.config = worker.config)
    (claim : position.claim = worker.claim)
    (follows : Follows (engineProtocol ext conditions) position rest fun _ result =>
      ∀ halt, result = .error halt → ∃ error, halt = .error error) :
    Tracks ext conditions (sys.resume slot worker rest) trace := by
  refine ⟨tracks.store, tracks.issued, tracks.sent, tracks.recorded, ?_⟩
  intro other found works
  rcases updated_cases works with ⟨rfl, same⟩ | ⟨_, kept⟩
  · cases same
    exact ⟨position, at_, config, claim, follows⟩
  · exact tracks.workers other found kept

/-- A step of the fleet is a run of the trace that tracks it. -/
theorem step (tracks : Tracks ext conditions sys trace) (sound : trace.Sound)
    (step : FleetStep ext conditions sys next) :
    ∃ later, TraceRun ext conditions trace later ∧ Tracks ext conditions next later := by
  obtain ⟨store, issued, sent, recorded, workers⟩ := tracks
  obtain ⟨traceStore, positions, traceIssued, traceSent, traceRecorded⟩ := trace
  cases store
  cases issued
  cases sent
  cases recorded
  have tracks : Tracks ext conditions sys ⟨sys.store, positions, sys.issued, sys.sent,
      sys.recorded⟩ := ⟨rfl, rfl, rfl, rfl, workers⟩
  cases step with
  | admitEvent holds result =>
    exact ⟨_, .single (.admitEvent holds result), rfl, rfl, rfl, rfl, workers⟩
  | @claimed slot config _ _ _ _ _ _ claim fresh permitted result =>
    refine ⟨_, .single (.claimed slot fresh permitted result), rfl, rfl, rfl, rfl, ?_⟩
    intro other worker works
    rcases updated_cases works with ⟨rfl, same⟩ | ⟨elsewhere, kept⟩
    · cases same
      obtain ⟨run, granted⟩ := claimRun_granted result
      have underway := granted.underway (sound.stored run granted.stored)
      refine ⟨⟨config, claim, .evaluating⟩, by simp, rfl, rfl, ?_⟩
      have runs : Engine.Runs ext conditions ⟨config, claim, .evaluating⟩
          (Engine.executeClaim ext config claim) fun _ _ => True :=
        Engine.executeClaim_runs ⟨underway, trivial⟩ rfl
      refine Follows.weaken runs fun later result ends halt failed => ?_
      rw [failed] at ends
      exact ends
    · obtain ⟨position, at_, rest⟩ := workers other worker kept
      exact ⟨position, (Function.update_of_ne elsewhere _ _).trans at_, rest⟩
  | @unclaimed _ _ _ now _ _ _ result empty =>
    obtain rfl := claimRun_not_granted result empty
    exact ⟨_, .single (.released now), rfl, rfl, rfl, rfl, workers⟩
  | requestCancel id now => exact ⟨_, .single (.requestCancel id now), rfl, rfl, rfl, rfl, workers⟩
  | crash slot =>
    refine ⟨_, .single (.crash slot), rfl, rfl, rfl, rfl, ?_⟩
    intro other worker works
    rcases updated_cases works with ⟨_, same⟩ | ⟨elsewhere, kept⟩
    · cases same
    · obtain ⟨position, at_, rest⟩ := workers other worker kept
      exact ⟨position, (Function.update_of_ne elsewhere _ _).trans at_, rest⟩
  | @readClock slot worker use onward now works asks read =>
    obtain ⟨position, at_, config, claim, follows⟩ := workers slot worker works
    rw [asks] at follows
    rw [← config, ← claim] at read
    exact ⟨_, .refl, tracks.resume at_ config claim (follows.2 now position ⟨read, rfl⟩)⟩
  | @decide slot worker dispatch onward decision works asks =>
    obtain ⟨position, at_, config, claim, follows⟩ := workers slot worker works
    rw [asks] at follows
    exact ⟨_, .refl, tracks.resume at_ config claim (follows.2 decision position rfl)⟩
  | @lookUp slot worker digest handler onward found works asks =>
    obtain ⟨position, at_, config, claim, follows⟩ := workers slot worker works
    rw [asks] at follows
    exact ⟨_, .refl, tracks.resume at_ config claim (follows.2 found position rfl)⟩
  | @notify slot worker cancellationId requestId requestedAt onward answer works asks =>
    obtain ⟨position, at_, config, claim, follows⟩ := workers slot worker works
    rw [asks] at follows
    exact ⟨_, .refl, tracks.resume at_ config claim (follows.2 answer position rfl)⟩
  | @send slot worker limit invocation onward answer works asks answered =>
    obtain ⟨position, at_, config, claim, follows⟩ := workers slot worker works
    rw [asks] at follows
    rw [← claim] at answered
    have dispatches : Dispatches ext position invocation := follows.1
    refine ⟨_, .single (.send _ at_ dispatches answered), rfl, rfl, ?_, rfl, ?_⟩
    · rw [claim]
    · intro other found others
      rcases updated_cases others with ⟨rfl, same⟩ | ⟨elsewhere, kept⟩
      · cases same
        refine ⟨position.receive ext limit invocation answer, ?_, config, claim,
          follows.2 answer _ ⟨rfl, answered⟩⟩
        simp [Position.receive]
      · obtain ⟨place, placed, rest⟩ := workers other found kept
        exact ⟨place, (Function.update_of_ne elsewhere _ _).trans placed, rest⟩
  | @commit slot worker site submitted reply store onward works asks result =>
    obtain ⟨position, at_, config, claim, follows⟩ := workers slot worker works
    rw [asks] at follows
    obtain ⟨running, commit, same⟩ := follows.1
    rw [same] at result
    refine ⟨_, .single (.commit at_ running commit result), rfl, rfl, rfl, ?_, ?_⟩
    · rw [claim]
    · intro other found others
      rcases updated_cases others with ⟨rfl, here⟩ | ⟨elsewhere, kept⟩
      · cases here
        refine ⟨{ position with claim := reply, stage := position.stage.after site },
          by simp, config, rfl, follows.2 (.ok reply) _ ⟨?_, rfl⟩⟩
        rw [(commitRun_stores result).1, ← same]
      · obtain ⟨place, placed, rest⟩ := workers other found kept
        exact ⟨place, (Function.update_of_ne elsewhere _ _).trans placed, rest⟩
  | @refuse slot worker site submitted store error onward works asks result =>
    obtain ⟨position, at_, config, claim, follows⟩ := workers slot worker works
    rw [asks] at follows
    obtain ⟨rfl, _⟩ := commitRun_refused result
    exact ⟨_, .refl, tracks.resume at_ config claim (follows.2 (.error error) position rfl)⟩

theorem onward {later : Fleet} (before : TraceRun ext conditions .initial trace)
    (tracks : Tracks ext conditions sys trace) (onward : FleetRun ext conditions sys later) :
    ∃ after, TraceRun ext conditions trace after ∧ Tracks ext conditions later after := by
  induction onward with
  | refl => exact ⟨trace, .refl, tracks⟩
  | tail _ last ih =>
    obtain ⟨middle, reached, tracks⟩ := ih
    obtain ⟨after, steps, tracks⟩ := tracks.step (Trace.Sound.run (before.trans reached)) last
    exact ⟨after, reached.trans steps, tracks⟩

/-- Every run of the fleet is tracked by a trace. -/
theorem run (reached : FleetRun ext conditions .initial sys) :
    ∃ trace, TraceRun ext conditions .initial trace ∧ Tracks ext conditions sys trace :=
  Tracks.onward .refl (Tracks.initial ext conditions) reached

end Tracks

end Mdbase.Runtime
