import Mathlib

/-!
# Traces of a system that answers calls

A system is a relation between the state before a call, the call, the reply to it and
the state after. A trace is a finite sequence of such calls, each made in the state
that the one before it left.
-/

namespace Mdbase.Library

universe u v w

/-- One call of a trace. -/
structure Exchange (State : Type u) (Call : Type v) (Reply : Type w) where
  before : State
  call : Call
  reply : Reply
  after : State

variable {State : Type u} {Call : Type v} {Reply : Type w}

/-- Calls made one after the other. -/
def Trace (step : State → Call → Reply → State → Prop) :
    State → List (Exchange State Call Reply) → State → Prop
  | start, [], finish => start = finish
  | start, exchange :: rest, finish =>
    exchange.before = start ∧
      step exchange.before exchange.call exchange.reply exchange.after ∧
      Trace step exchange.after rest finish

namespace Trace

variable {step : State → Call → Reply → State → Prop} {start finish : State}
  {exchanges : List (Exchange State Call Reply)}

theorem append_iff {first second : List (Exchange State Call Reply)} :
    Trace step start (first ++ second) finish ↔
      ∃ middle, Trace step start first middle ∧ Trace step middle second finish := by
  induction first generalizing start with
  | nil => simp [Trace]
  | cons exchange rest ih =>
    simp only [List.cons_append, Trace, ih]
    constructor
    · rintro ⟨here, taken, middle, head, tail⟩
      exact ⟨middle, ⟨here, taken, head⟩, tail⟩
    · rintro ⟨middle, ⟨here, taken, head⟩, tail⟩
      exact ⟨here, taken, middle, head, tail⟩

theorem snoc {before : State} {call : Call} {reply : Reply}
    (prior : Trace step start exchanges before) (taken : step before call reply finish) :
    Trace step start (exchanges ++ [⟨before, call, reply, finish⟩]) finish :=
  append_iff.mpr ⟨before, prior, rfl, taken, rfl⟩

/-- A trace can be cut at every exchange. -/
theorem middle_inv {first rest : List (Exchange State Call Reply)}
    {exchange : Exchange State Call Reply}
    (trace : Trace step start (first ++ exchange :: rest) finish) :
    Trace step start first exchange.before ∧
      step exchange.before exchange.call exchange.reply exchange.after ∧
      Trace step exchange.after rest finish := by
  obtain ⟨middle, head, here, taken, tail⟩ := append_iff.mp trace
  rw [← here] at head
  exact ⟨head, taken, tail⟩

/-- The calls of a system that computes its replies. -/
def perform (system : State → Call → Reply × State) :
    State → List Call → List (Exchange State Call Reply)
  | _, [] => []
  | start, call :: rest =>
    ⟨start, call, (system start call).1, (system start call).2⟩ ::
      perform system (system start call).2 rest

/-- The state after the calls of a system that computes its replies. -/
def performed (system : State → Call → Reply × State) (start : State) (calls : List Call) :
    State :=
  calls.foldl (fun state call => (system state call).2) start

theorem of_perform (system : State → Call → Reply × State) (start : State) (calls : List Call) :
    Trace (fun before call reply after => system before call = (reply, after)) start
      (perform system start calls) (performed system start calls) := by
  induction calls generalizing start with
  | nil => rfl
  | cons call rest ih => exact ⟨rfl, rfl, ih (system start call).2⟩

theorem map_call_perform (system : State → Call → Reply × State) (start : State)
    (calls : List Call) : (perform system start calls).map Exchange.call = calls := by
  induction calls generalizing start with
  | nil => rfl
  | cons call rest ih => rw [perform, List.map_cons, ih]

theorem invariant {holds : State → Prop} (trace : Trace step start exchanges finish)
    (initially : holds start)
    (kept : ∀ exchange ∈ exchanges,
      step exchange.before exchange.call exchange.reply exchange.after →
        holds exchange.before → holds exchange.after) : holds finish := by
  induction exchanges generalizing start with
  | nil => exact trace ▸ initially
  | cons exchange rest ih =>
    obtain ⟨rfl, taken, tail⟩ := trace
    have next := kept exchange List.mem_cons_self taken initially
    exact ih tail next fun other member => kept other (List.mem_cons_of_mem _ member)

/-- What every call does between two states is done between the first and the last. -/
theorem relates {related : State → State → Prop} (trace : Trace step start exchanges finish)
    (reflexive : ∀ state, related state state)
    (transitive : ∀ {first second third}, related first second → related second third →
      related first third)
    (each : ∀ exchange ∈ exchanges,
      step exchange.before exchange.call exchange.reply exchange.after →
        related exchange.before exchange.after) : related start finish := by
  refine trace.invariant (reflexive start) ?_
  intro exchange member taken before
  exact transitive before (each exchange member taken)

/-- A measure that no call lowers is not lowered by a trace. -/
theorem measure_le {measure : State → Nat} (trace : Trace step start exchanges finish)
    (each : ∀ exchange ∈ exchanges, measure exchange.before ≤ measure exchange.after) :
    measure start ≤ measure finish :=
  @relates _ _ _ _ _ _ _ (fun before after => measure before ≤ measure after) trace
    (fun _ => le_rfl) le_trans fun exchange member _ => each exchange member

/-- A measure that no call lowers is at the end what it was exactly if no call raised it. -/
theorem measure_eq_iff {measure : State → Nat} (trace : Trace step start exchanges finish)
    (each : ∀ exchange ∈ exchanges, measure exchange.before ≤ measure exchange.after) :
    measure finish = measure start ↔
      ∀ exchange ∈ exchanges, measure exchange.after = measure exchange.before := by
  induction exchanges generalizing start with
  | nil => simp [show start = finish from trace]
  | cons exchange rest ih =>
    obtain ⟨rfl, _, tail⟩ := trace
    have first := each exchange List.mem_cons_self
    have later : ∀ other ∈ rest, measure other.before ≤ measure other.after :=
      fun other member => each other (List.mem_cons_of_mem _ member)
    have last := tail.measure_le later
    have kept := ih tail later
    rw [List.forall_mem_cons, ← kept]
    omega

end Trace

end Mdbase.Library
