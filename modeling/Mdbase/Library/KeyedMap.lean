import Mdbase.Library.Table

/-!
# Maps from ordered keys

A map binds keys to values. It is the table of its bindings, so maps that bind the same keys to
the same values are equal, and their bindings come in the order of their keys.
-/

namespace Mdbase.Library

variable {κ ν : Type} [LinearOrder κ]

/-- A map from keys to values: the table of its bindings. -/
abbrev KeyedMap (κ ν : Type) [LinearOrder κ] := Table fun binding : κ × ν => binding.1

namespace KeyedMap

/-- The value of a key. -/
def lookup (map : KeyedMap κ ν) (key : κ) : Option ν := (map.get? key).map (·.2)

/-- Bind a key to a value. -/
def store (map : KeyedMap κ ν) (key : κ) (value : ν) : KeyedMap κ ν := map.insert (key, value)

/-- Unbind a key. -/
def remove (map : KeyedMap κ ν) (key : κ) : KeyedMap κ ν := Table.erase map key

/-- The bindings of the keys that satisfy a test. -/
def restrict (map : KeyedMap κ ν) (test : κ → Bool) : KeyedMap κ ν :=
  Table.filter map fun binding => test binding.1

/-- The keys that have a value. -/
def keys (map : KeyedMap κ ν) : List κ := map.entries.map (·.1)

/-- Bind those of the keys for which there is a value. -/
def tabulate (keys : List κ) (read : κ → Option ν) : KeyedMap κ ν :=
  keys.foldr (fun key map => (read key).elim map (map.store key)) .empty

theorem entries_restrict (map : KeyedMap κ ν) (test : κ → Bool) :
    (map.restrict test).entries = map.entries.filter fun binding => test binding.1 := rfl

theorem get?_eq (map : KeyedMap κ ν) (key : κ) :
    map.get? key = (map.lookup key).map fun value => (key, value) := by
  unfold lookup
  cases found : map.get? key with
  | none => rfl
  | some binding =>
    have here : binding.1 = key := Table.key_of_get? found
    rw [← here]
    rfl

theorem ext_lookup {left right : KeyedMap κ ν}
    (same : ∀ key, left.lookup key = right.lookup key) : left = right :=
  Table.ext fun key => by rw [get?_eq, get?_eq, same]

@[simp] theorem lookup_empty (key : κ) : lookup (.empty : KeyedMap κ ν) key = none := rfl

theorem lookup_store (map : KeyedMap κ ν) (stored : κ) (value : ν) (key : κ) :
    (map.store stored value).lookup key = if key = stored then some value else map.lookup key := by
  rw [lookup, store, Table.get?_insert]
  split <;> rfl

theorem lookup_remove (map : KeyedMap κ ν) (removed key : κ) :
    (map.remove removed).lookup key = if key = removed then none else map.lookup key := by
  rw [lookup, remove, Table.get?_erase]
  split <;> rfl

theorem lookup_restrict (map : KeyedMap κ ν) (test : κ → Bool) (key : κ) :
    (map.restrict test).lookup key = if test key then map.lookup key else none := by
  rw [lookup, restrict, Table.get?_filter, get?_eq]
  cases map.lookup key with
  | none => exact (ite_self _).symm
  | some value =>
    rw [Option.map_some, Option.filter_some]
    split <;> rfl

/-- A table of some keys answers for these keys only. -/
theorem lookup_tabulate (bound : List κ) (read : κ → Option ν) (key : κ) :
    (tabulate bound read).lookup key = if key ∈ bound then read key else none := by
  induction bound with
  | nil => rfl
  | cons first rest ih =>
    have step : (tabulate (first :: rest) read).lookup key =
        if key = first then (read first).or ((tabulate rest read).lookup key)
        else (tabulate rest read).lookup key := by
      unfold tabulate
      rw [List.foldr_cons]
      cases read first with
      | none => exact (ite_self _).symm
      | some value => exact lookup_store _ _ _ _
    rw [step, ih]
    by_cases here : key = first
    · subst here
      rw [if_pos rfl, if_pos List.mem_cons_self]
      cases read key <;> simp
    · rw [if_neg here]
      exact if_congr (by rw [List.mem_cons, or_iff_right here]) rfl rfl

theorem mem_keys {map : KeyedMap κ ν} {key : κ} : key ∈ map.keys ↔ map.lookup key ≠ none := by
  rw [keys, List.mem_map, lookup, ne_eq, Option.map_eq_none_iff, Table.get?_eq_none_iff]
  simp only [not_forall, not_not, exists_prop]
  rfl

theorem lookup_of_mem {map : KeyedMap κ ν} {binding : κ × ν} (member : binding ∈ map.entries) :
    map.lookup binding.1 = some binding.2 := by
  rw [lookup, Table.get?_key (Table.mem_def.mpr member)]
  rfl

end KeyedMap

end Mdbase.Library
