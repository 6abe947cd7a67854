import Mathlib

/-!
# Programs that ask their surroundings

A `Program` is a computation that asks questions and continues with the answers;
it stands for code whose every contact with the outside is a suspension point. A
`Protocol` says, in terms of a state that the surroundings keep about the program,
which questions are allowed and how the state moves with an answer.
`Program.Follows` is the weakest precondition of a program under a protocol: every
question it asks along permitted answers is allowed, and it ends in a state that
satisfies a postcondition. `Program.Ends` is one execution along permitted answers.
-/

namespace Mdbase.Library

/-- A computation that asks questions `Q`, answered in `A`, and returns `α`. -/
inductive Program (Q : Type) (A : Q → Type) (α : Type) where
  | done (value : α)
  | ask (question : Q) (next : A question → Program Q A α)

namespace Program

variable {Q : Type} {A : Q → Type} {α β : Type}

protected def bind : Program Q A α → (α → Program Q A β) → Program Q A β
  | done value, rest => rest value
  | ask question next, rest => ask question fun answer => (next answer).bind rest

instance : Monad (Program Q A) where
  pure := done
  bind := Program.bind

/-- Ask one question. -/
def query (question : Q) : Program Q A (A question) := ask question done

end Program

/-- The questions that are allowed in a state, and the states that an answer may
lead to. -/
structure Protocol (Q : Type) (A : Q → Type) (σ : Type) where
  allows : σ → Q → Prop
  moves : σ → (question : Q) → A question → σ → Prop

namespace Program

variable {Q : Type} {A : Q → Type} {σ α β ε : Type} {protocol : Protocol Q A σ}

/-- The program asks only what the protocol allows and returns only what the
postcondition allows. -/
def Follows (protocol : Protocol Q A σ) : σ → Program Q A α → (σ → α → Prop) → Prop
  | state, done value, ends => ends state value
  | state, ask question next, ends => protocol.allows state question ∧
      ∀ answer later, protocol.moves state question answer later →
        Follows protocol later (next answer) ends

variable {program : Program Q A α}

theorem Follows.bind {state : σ} {rest : α → Program Q A β}
    {middle : σ → α → Prop} {ends : σ → β → Prop} (first : Follows protocol state program middle)
    (second : ∀ later value, middle later value → Follows protocol later (rest value) ends) :
    Follows protocol state (program >>= rest) ends := by
  induction program generalizing state with
  | done value => exact second state value first
  | ask question next ih =>
    exact ⟨first.1, fun answer later moves => ih answer (first.2 answer later moves)⟩

theorem Follows.weaken {state : σ} {ends weaker : σ → α → Prop}
    (follows : Follows protocol state program ends)
    (weakens : ∀ later value, ends later value → weaker later value) :
    Follows protocol state program weaker := by
  induction program generalizing state with
  | done value => exact weakens state value follows
  | ask question next ih =>
    exact ⟨follows.1, fun answer later moves => ih answer (follows.2 answer later moves)⟩

/-- The parts of a program that may fail: an error of the first part ends the program. -/
theorem Follows.bindExcept {state : σ} {program : ExceptT ε (Program Q A) α}
    {rest : α → ExceptT ε (Program Q A) β} {ends : σ → Except ε β → Prop}
    (first : Follows protocol state program.run fun later result =>
      match result with
      | .ok value => Follows protocol later (rest value).run ends
      | .error error => ends later (.error error)) :
    Follows protocol state (program >>= rest).run ends := by
  refine Follows.bind first fun later result holds => ?_
  cases result with
  | ok value | error error => exact holds

/-- An execution of a program: it is answered as the protocol permits, and returns a value in
a final state. -/
inductive Ends (protocol : Protocol Q A σ) : σ → Program Q A α → σ → α → Prop
  | done {state : σ} {value : α} : Ends protocol state (.done value) state value
  | ask {state later final : σ} {question : Q} {next : A question → Program Q A α}
      {answer : A question} {value : α} (moves : protocol.moves state question answer later)
      (onward : Ends protocol later (next answer) final value) :
      Ends protocol state (.ask question next) final value

theorem Follows.ends {state final : σ} {value : α}
    {post : σ → α → Prop} (follows : Follows protocol state program post)
    (execution : Ends protocol state program final value) : post final value := by
  induction execution with
  | done => exact follows
  | ask moves onward ih => exact ih (follows.2 _ _ moves)

/-- Answer a program by a strategy. -/
def play (respond : σ → (question : Q) → A question × σ) : σ → Program Q A α → σ × α
  | state, done value => (state, value)
  | state, ask question next =>
    play respond (respond state question).2 (next (respond state question).1)

theorem ends_play {respond : σ → (question : Q) → A question × σ} (permits : ∀ state question,
      protocol.moves state question (respond state question).1 (respond state question).2)
    (state : σ) (program : Program Q A α) :
    Ends protocol state program (play respond state program).1 (play respond state program).2 := by
  induction program generalizing state with
  | done value => exact .done
  | ask question next ih => exact .ask (permits state question) (ih _ _)

/-- A program that may fail follows a protocol when it asks only what is allowed,
returns only what the postcondition allows, and fails only as permitted. -/
def FollowsOrFails (protocol : Protocol Q A σ) (fails : ε → Prop) (state : σ)
    (program : ExceptT ε (Program Q A) α) (ends : σ → α → Prop) : Prop :=
  Follows protocol state program.run fun later result =>
    match result with
    | .ok value => ends later value
    | .error error => fails error

namespace FollowsOrFails

variable {fails : ε → Prop} {state : σ}

theorem pure {value : α} {ends : σ → α → Prop} (holds : ends state value) :
    FollowsOrFails protocol fails state (Pure.pure value : ExceptT ε (Program Q A) α) ends :=
  holds

theorem throw {error : ε} {ends : σ → α → Prop} (permitted : fails error) :
    FollowsOrFails protocol fails state
      (MonadExcept.throw error : ExceptT ε (Program Q A) α) ends :=
  permitted

variable {program : ExceptT ε (Program Q A) α}

theorem bind {rest : α → ExceptT ε (Program Q A) β} {middle : σ → α → Prop} {ends : σ → β → Prop}
    (first : FollowsOrFails protocol fails state program middle)
    (second : ∀ later value, middle later value →
      FollowsOrFails protocol fails later (rest value) ends) :
    FollowsOrFails protocol fails state (program >>= rest) ends := by
  refine Follows.bind first fun later result holds => ?_
  cases result with
  | ok value => exact second later value holds
  | error error => exact holds

theorem query {question : Q} {ends : σ → A question → Prop}
    (allowed : protocol.allows state question)
    (holds : ∀ answer later, protocol.moves state question answer later → ends later answer) :
    FollowsOrFails protocol fails state
      (ExceptT.lift (Program.query question) : ExceptT ε (Program Q A) (A question)) ends :=
  ⟨allowed, fun answer later moves => holds answer later moves⟩

theorem weaken {ends weaker : σ → α → Prop}
    (follows : FollowsOrFails protocol fails state program ends)
    (weakens : ∀ later value, ends later value → weaker later value) :
    FollowsOrFails protocol fails state program weaker := by
  refine Follows.weaken follows fun later result holds => ?_
  cases result with
  | ok value => exact weakens later value holds
  | error error => exact holds

end FollowsOrFails
end Program
end Mdbase.Library
