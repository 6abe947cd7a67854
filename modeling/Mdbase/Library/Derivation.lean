import Mathlib

/-!
# Tables that are derived from a state

A state gives every key a value or none, and a value gives its key rows. A table is derived
from the state when its rows are those of the entries of the state. Replacing the rows of
one key keeps a derived table derived from the state with the new entry.
-/

namespace Mdbase.Library

variable {κ β ρ : Type}

/-- The rows of a table are those that the entries of a state give, each to its own key. -/
def Derives (owner : ρ → κ) (rows : κ → β → List ρ) (state : κ → Option β) (table : List ρ) :
    Prop :=
  ∀ row, row ∈ table ↔ ∃ value, state (owner row) = some value ∧ row ∈ rows (owner row) value

/-- A table without rows for a key is as it was but for the rows of the key. -/
def Clears (owner : ρ → κ) (key : κ) (before after : List ρ) : Prop :=
  ∀ row, row ∈ after ↔ row ∈ before ∧ owner row ≠ key

/-- A table has other rows for a key and is as it was but for them. -/
def Replaces (owner : ρ → κ) (key : κ) (added before after : List ρ) : Prop :=
  ∀ row, row ∈ after ↔ (row ∈ before ∧ owner row ≠ key) ∨ row ∈ added

variable {owner : ρ → κ} {rows : κ → β → List ρ} {state : κ → Option β} {table after : List ρ}

theorem Derives.empty : Derives owner rows (fun _ => none) [] := by
  intro row
  simp

variable {other : List ρ}

theorem Derives.same (left : Derives owner rows state table)
    (right : Derives owner rows state other) (row : ρ) : row ∈ table ↔ row ∈ other :=
  (left row).trans (right row).symm

theorem Derives.of_same (derives : Derives owner rows state table)
    (same : ∀ row, row ∈ other ↔ row ∈ table) : Derives owner rows state other :=
  fun row => (same row).trans (derives row)

variable [DecidableEq κ]

theorem Derives.clear (derives : Derives owner rows state table) {key : κ}
    (clears : Clears owner key table after) :
    Derives owner rows (Function.update state key none) after := by
  intro row
  rw [clears, derives]
  by_cases here : owner row = key
  · simp [here]
  · simp [here]

theorem Derives.replace (derives : Derives owner rows state table) {key : κ} {value : β}
    (owned : ∀ row ∈ rows key value, owner row = key)
    (replaces : Replaces owner key (rows key value) table after) :
    Derives owner rows (Function.update state key (some value)) after := by
  intro row
  rw [replaces, derives]
  by_cases here : owner row = key
  · simp [here]
  · have elsewhere : row ∉ rows key value := fun member => here (owned row member)
    simp [here, elsewhere]

/-- The rows of every key in a table are those of its entry, as often. -/
def DerivesBag (owner : ρ → κ) (rows : κ → β → List ρ) (state : κ → Option β)
    (table : List ρ) : Prop :=
  ∀ key, (table.filter (owner · = key)).Perm (((state key).map (rows key)).getD [])

theorem DerivesBag.empty : DerivesBag owner rows (fun _ => none) [] := fun _ => .nil

theorem filter_filter_ne (key other : κ) (table : List ρ) :
    (table.filter (owner · ≠ key)).filter (owner · = other) =
      if other = key then [] else table.filter (owner · = other) := by
  rw [List.filter_filter]
  split
  next same =>
    refine List.filter_eq_nil_iff.mpr fun row _ => ?_
    simp [same]
  rename_i different
  refine List.filter_congr fun row _ => ?_
  by_cases here : owner row = other
  · simp [here, different]
  · simp [here]

theorem DerivesBag.clear (derives : DerivesBag owner rows state table) (key : κ) :
    DerivesBag owner rows (Function.update state key none) (table.filter (owner · ≠ key)) := by
  intro other
  rw [filter_filter_ne]
  by_cases here : other = key
  · simp [here]
  · simpa [here] using derives other

theorem DerivesBag.replace (derives : DerivesBag owner rows state table) {key : κ} {value : β}
    (owned : ∀ row ∈ rows key value, owner row = key) :
    DerivesBag owner rows (Function.update state key (some value))
      (table.filter (owner · ≠ key) ++ rows key value) := by
  intro other
  rw [List.filter_append, filter_filter_ne]
  by_cases here : other = key
  · subst here
    have all : (rows other value).filter (owner · = other) = rows other value :=
      List.filter_eq_self.mpr fun row member => decide_eq_true (owned row member)
    simp [all]
  · have none_ : (rows key value).filter (owner · = other) = [] := by
      refine List.filter_eq_nil_iff.mpr fun row member same => here ?_
      rw [← of_decide_eq_true same, owned row member]
    simpa [here, none_] using derives other

theorem DerivesBag.mem (derives : DerivesBag owner rows state table) {row : ρ} :
    row ∈ table ↔ ∃ value, state (owner row) = some value ∧ row ∈ rows (owner row) value := by
  have here : row ∈ table ↔ row ∈ table.filter (owner · = owner row) := by simp
  rw [here, (derives (owner row)).mem_iff]
  cases state (owner row) <;> simp

/-- The rows of a bag may be given otherwise where the state has no entry. -/
theorem DerivesBag.congr {rows' : κ → β → List ρ} (derives : DerivesBag owner rows state table)
    (same : ∀ key value, state key = some value → rows key value = rows' key value) :
    DerivesBag owner rows' state table := by
  intro key
  refine (derives key).trans ?_
  cases here : state key with
  | none => rfl
  | some value => rw [Option.map_some, Option.map_some, same key value here]

theorem perm_of_filter_perm [DecidableEq ρ] {left right : List ρ}
    (agree : ∀ key, (left.filter (owner · = key)).Perm (right.filter (owner · = key))) :
    left.Perm right := by
  refine List.perm_iff_count.mpr fun row => ?_
  have counted : ∀ table : List ρ,
      (table.filter (owner · = owner row)).count row = table.count row := by
    intro table
    exact List.count_filter (by simp)
  rw [← counted left, ← counted right]
  exact (agree (owner row)).count_eq row

theorem DerivesBag.perm [DecidableEq ρ]
    (left : DerivesBag owner rows state table) (right : DerivesBag owner rows state other) :
    table.Perm other :=
  perm_of_filter_perm fun key => (left key).trans (right key).symm

theorem DerivesBag.of_perm (derives : DerivesBag owner rows state table)
    (same : other.Perm table) : DerivesBag owner rows state other :=
  fun key => (same.filter _).trans (derives key)

/-- A change of the rows that keeps their keys changes the rows of every entry. -/
theorem DerivesBag.map (derives : DerivesBag owner rows state table) {change : ρ → ρ}
    (keeps : ∀ row, owner (change row) = owner row) :
    DerivesBag owner (fun key value => (rows key value).map change) state (table.map change) := by
  intro key
  rw [List.filter_map]
  have same : ((fun row => decide (owner row = key)) ∘ change) = fun row => decide (owner row = key) :=
    funext fun row => by simp [keeps]
  rw [same]
  cases here : state key with
  | none | some value => simpa [here] using (derives key).map change

end Mdbase.Library
