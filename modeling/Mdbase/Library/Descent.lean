import Mathlib.Logic.Basic
import Mathlib.Tactic.Common

/-!
# Recursive descent on a budget

A reader works on a state: it fails, or gives a value and the state behind it. The readers
that call themselves have a budget for that, and a reader whose budget does not last gives
nothing at all. Loops have no budget: what they repeat makes the state smaller.
-/

namespace Mdbase.Library

/-- A reader over the states `σ`. It gives nothing when its budget does not last. -/
def Descent (ε σ α : Type) := σ → Option (Except ε (α × σ))

namespace Descent

variable {ε σ α β : Type}

/-- One reader after another. -/
def andThen (reader : Descent ε σ α) (next : α → Descent ε σ β) : Descent ε σ β := fun state =>
  match reader state with
  | none => none
  | some (.error failure) => some (.error failure)
  | some (.ok (value, later)) => next value later

instance : Monad (Descent ε σ) where
  pure value := fun state => some (.ok (value, state))
  bind := andThen

/-- The reader without a budget. -/
def exhausted : Descent ε σ α := fun _ => none

/-- The reader that fails. -/
def fail (failure : ε) : Descent ε σ α := fun _ => some (.error failure)

@[simp] theorem pure_apply (value : α) (state : σ) :
    (pure value : Descent ε σ α) state = some (.ok (value, state)) := rfl

variable {reader : Descent ε σ α}

theorem bind_none {state : σ} (here : reader state = none)
    (next : α → Descent ε σ β) : (reader >>= next) state = none := by
  change andThen reader next state = _
  rw [andThen, here]

theorem bind_error {state : σ} {failure : ε}
    (here : reader state = some (.error failure)) (next : α → Descent ε σ β) :
    (reader >>= next) state = some (.error failure) := by
  change andThen reader next state = _
  rw [andThen, here]

variable {value : α}

theorem bind_ok {state later : σ}
    (here : reader state = some (.ok (value, later))) (next : α → Descent ε σ β) :
    (reader >>= next) state = next value later := by
  change andThen reader next state = _
  rw [andThen, here]

/-- What is repeated at most so many times, until it gives a result. -/
def iterate (body : α → Descent ε σ (β ⊕ α)) (last : α → β) : Nat → α → Descent ε σ β
  | 0, value => pure (last value)
  | fuel + 1, value => do
    match ← body value with
    | .inl result => pure result
    | .inr again => iterate body last fuel again

/-- What is repeated until it gives a result. Repetitions make the state smaller. -/
def loop (size : σ → Nat) (body : α → Descent ε σ (β ⊕ α)) (last : α → β) (value : α) :
    Descent ε σ β :=
  fun state => iterate body last (size state + 1) value state

variable {size : σ → Nat} {body : α → Descent ε σ (β ⊕ α)} {last : α → β}

/-- What holds when the reader returns, and what holds when its budget does not last. -/
def Meets (reader : Descent ε σ α) (state : σ) (returns : α → σ → Prop) (exhausts : Prop) :
    Prop :=
  match reader state with
  | none => exhausts
  | some (.error _) => True
  | some (.ok (value, later)) => returns value later

variable {reader : Descent ε σ α} {state : σ} {returns : α → σ → Prop} {exhausts : Prop}

theorem Meets.imp {returns' : α → σ → Prop} {exhausts' : Prop}
    (meets : reader.Meets state returns exhausts)
    (weaker : ∀ value later, returns value later → returns' value later)
    (weaker' : exhausts → exhausts') : reader.Meets state returns' exhausts' := by
  unfold Meets at *
  match outcome : reader state with
  | none => exact weaker' (by simpa [outcome] using meets)
  | some (.error failure) => trivial
  | some (.ok (value, later)) => exact weaker value later (by simpa [outcome] using meets)

variable {next : α → Descent ε σ β}

/-- The rule of sequence. -/
theorem Meets.bind {returns' : β → σ → Prop} (meets : reader.Meets state returns exhausts)
    (goesOn : ∀ value later, returns value later → (next value).Meets later returns' exhausts) :
    (reader >>= next).Meets state returns' exhausts := by
  unfold Meets at meets
  match outcome : reader state with
  | none =>
    rw [Meets, bind_none outcome]
    simpa [outcome] using meets
  | some (.error failure) =>
    rw [Meets, bind_error outcome]
    trivial
  | some (.ok (value, later)) =>
    rw [Meets, bind_ok outcome]
    exact goesOn value later (by simpa [outcome] using meets)

/-- The rule of loops: an invariant that each round keeps while the state gets smaller. -/
theorem Meets.loop (invariant : α → σ → Prop) {returns : β → σ → Prop}
    (start : invariant value state)
    (step : ∀ value state, invariant value state → (body value).Meets state
      (fun outcome later => match outcome with
        | .inl result => returns result later
        | .inr again => invariant again later ∧ size later < size state) exhausts) :
    (loop size body last value).Meets state returns exhausts := by
  have all : ∀ (fuel : Nat) (value : α) (state : σ), size state < fuel → invariant value state →
      (iterate body last fuel value).Meets state returns exhausts := by
    intro fuel
    induction fuel with
    | zero => exact fun _ _ small => absurd small (Nat.not_lt_zero _)
    | succ fuel ih =>
      intro value state small holds
      rw [iterate]
      refine (step value state holds).bind fun outcome later kept => ?_
      match outcome, kept with
      | .inl result, kept => exact kept
      | .inr again, kept =>
        exact ih again later (Nat.lt_of_lt_of_le kept.2 (Nat.le_of_lt_succ small)) kept.1
  exact all _ value state (Nat.lt_succ_self _) start

/-- The second reader comes to each outcome of the first, but for failures of a kind. -/
def Agrees (limit : ε → Prop) (reader other : Descent ε σ α) : Prop :=
  ∀ state outcome, reader state = some outcome →
    (∀ failure, outcome = .error failure → ¬limit failure) → other state = some outcome

variable {limit : ε → Prop} {other : Descent ε σ α}

theorem Agrees.refl (reader : Descent ε σ α) : Agrees limit reader reader := fun _ _ here _ => here

theorem Agrees.of_exhausted : Agrees limit (exhausted : Descent ε σ α) other :=
  fun _ _ here => nomatch here

/-- Programs agree in sequence if their parts do. -/
theorem Agrees.bind {next next' : α → Descent ε σ β} (agrees : Agrees limit reader other)
    (goOn : ∀ value, Agrees limit (next value) (next' value)) :
    Agrees limit (reader >>= next) (other >>= next') := by
  intro state outcome here within
  match found : reader state with
  | none => exact nomatch (bind_none found next).symm.trans here
  | some (.error failure) =>
    rw [bind_error found] at here
    cases here
    exact bind_error (agrees state _ found fun _ same => by cases same; exact within _ rfl) _
  | some (.ok (value, later)) =>
    rw [bind_ok found] at here
    rw [bind_ok (agrees state _ found nofun)]
    exact goOn value later outcome here within

theorem Agrees.loop {body' : α → Descent ε σ (β ⊕ α)}
    (agrees : ∀ value, Agrees limit (body value) (body' value)) (value : α) :
    Agrees limit (loop size body last value) (loop size body' last value) := by
  have all (fuel : Nat) :
      ∀ value, Agrees limit (iterate body last fuel value) (iterate body' last fuel value) := by
    induction fuel with
    | zero => exact fun _ => .refl _
    | succ fuel ih =>
      intro value
      refine (agrees value).bind fun outcome => ?_
      match outcome with
      | .inl result => exact .refl _
      | .inr again => exact ih again
  exact fun state => all _ value state

end Descent

end Mdbase.Library
