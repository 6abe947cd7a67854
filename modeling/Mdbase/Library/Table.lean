import Mathlib

/-!
# Tables ordered by a key of their rows

A `Table key` is a finite collection of rows in which no two rows have the same
key. The rows are kept in strictly increasing key order, so enumeration order
is a function of the contents and tables with equal lookups are equal. The same
structure serves an ordered map whose values carry their own key and a database
table with a primary key.
-/

namespace Mdbase.Library

variable {κ ν : Type} [LinearOrder κ]

/-- Rows in strictly increasing order of `key`. -/
structure Table (key : ν → κ) where
  entries : List ν
  sorted : entries.Pairwise fun left right => key left < key right

namespace Table

variable {key : ν → κ}

instance : Membership ν (Table key) where
  mem table row := row ∈ table.entries

variable {table : Table key} {row : ν}

theorem mem_def : row ∈ table ↔ row ∈ table.entries := Iff.rfl

/-- The table with no rows. -/
def empty : Table key where
  entries := []
  sorted := .nil

/-- The row stored under a key. -/
def get? (table : Table key) (at_ : κ) : Option ν := table.entries.find? fun row => key row = at_

/-- Keep the rows that satisfy a predicate. -/
def filter (table : Table key) (keep : ν → Bool) : Table key where
  entries := table.entries.filter keep
  sorted := table.sorted.filter keep

/-- Remove the row stored under a key, if there is one. -/
def erase (table : Table key) (at_ : κ) : Table key := table.filter fun row => key row ≠ at_

/-- Store a row under its own key, replacing the row already there. -/
def insert (table : Table key) (row : ν) : Table key where
  entries := table.entries.filter (fun other => key other < key row) ++
    row :: table.entries.filter (fun other => key row < key other)
  sorted := by
    refine List.pairwise_append.mpr ⟨table.sorted.filter _, ?_, ?_⟩
    · refine List.pairwise_cons.mpr ⟨?_, table.sorted.filter _⟩
      intro other member
      simpa using (List.mem_filter.mp member).2
    · intro left leftMember right rightMember
      have below : key left < key row := by simpa using (List.mem_filter.mp leftMember).2
      rcases List.mem_cons.mp rightMember with rfl | rightMember
      · exact below
      · exact below.trans (by simpa using (List.mem_filter.mp rightMember).2)

/-- Replace the row under a key by its image. The image is stored under its own
key, which for the updates of a record in place is the key it had. -/
def modify (table : Table key) (at_ : κ) (change : ν → ν) : Table key :=
  match table.get? at_ with
  | none => table
  | some row => table.insert (change row)

/-- The table of the images of the rows under a function that keeps their keys. -/
def image {μ : Type} {other : μ → κ} (table : Table key) (change : ν → μ)
    (inPlace : ∀ row, other (change row) = key row) : Table other where
  entries := table.entries.map change
  sorted := by
    refine List.pairwise_map.mpr (table.sorted.imp ?_)
    intro left right below
    rw [inPlace, inPlace]
    exact below

/-- Two rows of a table with one key are one row. -/
theorem key_injective {left right : ν} (leftMember : left ∈ table)
    (rightMember : right ∈ table) (same : key left = key right) : left = right := by
  by_contra different
  have apart : table.entries.Pairwise fun left right => key left ≠ key right :=
    table.sorted.imp fun below => below.ne
  have : Std.Symm fun left right : ν => key left ≠ key right := ⟨fun _ _ => Ne.symm⟩
  exact apart.forall leftMember rightMember different same

variable {at_ : κ}

/-- A lookup succeeds exactly on the rows of the table, at their keys. -/
theorem get?_eq_some_iff : table.get? at_ = some row ↔ row ∈ table ∧ key row = at_ := by
  constructor
  · intro found
    have member := List.mem_of_find?_eq_some found
    have here := List.find?_some found
    exact ⟨member, by simpa using here⟩
  · rintro ⟨member, rfl⟩
    cases result : table.get? (key row) with
    | none =>
      have absent := List.find?_eq_none.mp result row member
      simp at absent
    | some other =>
      have otherMember : other ∈ table := List.mem_of_find?_eq_some result
      have same : key other = key row := by simpa using List.find?_some result
      rw [key_injective otherMember member same]

/-- A lookup finds nothing exactly if no row has the key. -/
theorem get?_eq_none_iff : table.get? at_ = none ↔ ∀ row ∈ table, key row ≠ at_ := by
  simp [get?, mem_def]

/-- What a lookup finds is a row of the table. -/
theorem mem_of_get? (found : table.get? at_ = some row) : row ∈ table :=
  (get?_eq_some_iff.mp found).1

/-- A lookup finds a row of the key that was asked for. -/
theorem key_of_get? (found : table.get? at_ = some row) : key row = at_ :=
  (get?_eq_some_iff.mp found).2

/-- Every row is found under its own key. -/
theorem get?_key (member : row ∈ table) : table.get? (key row) = some row :=
  get?_eq_some_iff.mpr ⟨member, rfl⟩

theorem mem_iff_get? : row ∈ table ↔ table.get? (key row) = some row := ⟨get?_key, mem_of_get?⟩

/-- Two rows of a table that share the key of a lookup are the same row. -/
theorem eq_of_get? {row other : ν} (member : other ∈ table)
    (found : table.get? (key other) = some row) : other = row := by
  rw [get?_key member] at found
  exact Option.some.inj found

@[simp] theorem not_mem_empty : row ∉ (empty : Table key) := by
  simp [mem_def, empty]

@[simp] theorem get?_empty (at_ : κ) : (empty : Table key).get? at_ = none := rfl

@[simp] theorem mem_filter {keep : ν → Bool} :
    row ∈ table.filter keep ↔ row ∈ table ∧ keep row = true := by
  simp [mem_def, filter]

@[simp] theorem mem_erase : row ∈ table.erase at_ ↔ row ∈ table ∧ key row ≠ at_ := by
  simp [erase]

@[simp] theorem mem_insert {row other : ν} :
    other ∈ table.insert row ↔ other = row ∨ (other ∈ table ∧ key other ≠ key row) := by
  simp only [mem_def, insert, List.mem_append, List.mem_cons, List.mem_filter, decide_eq_true_eq]
  constructor
  · rintro (⟨member, below⟩ | rfl | ⟨member, above⟩)
    · exact .inr ⟨member, below.ne⟩
    · exact .inl rfl
    · exact .inr ⟨member, above.ne'⟩
  · rintro (rfl | ⟨member, different⟩)
    · exact .inr (.inl rfl)
    · rcases lt_or_gt_of_ne different with below | above
      · exact .inl ⟨member, below⟩
      · exact .inr (.inr ⟨member, above⟩)

/-- Looking a key up among the rows kept is keeping the row found. -/
theorem get?_filter (table : Table key) (keep : ν → Bool) (at_ : κ) :
    (table.filter keep).get? at_ = (table.get? at_).filter keep := by
  cases found : table.get? at_ with
  | none =>
    rw [Option.filter_none, get?_eq_none_iff]
    intro row member
    exact get?_eq_none_iff.mp found row (mem_filter.mp member).1
  | some row =>
    obtain ⟨member, rfl⟩ := get?_eq_some_iff.mp found
    by_cases kept : keep row = true
    · rw [Option.filter_some_pos kept]
      exact get?_key (mem_filter.mpr ⟨member, kept⟩)
    · rw [Option.filter_some_neg (by simpa using kept), get?_eq_none_iff]
      intro other otherMember same
      obtain ⟨otherMember, otherKept⟩ := mem_filter.mp otherMember
      exact kept (key_injective otherMember member same ▸ otherKept)

/-- Only the removed key is missing afterwards. -/
theorem get?_erase (table : Table key) (removed at_ : κ) :
    (table.erase removed).get? at_ = if at_ = removed then none else table.get? at_ := by
  split
  next same =>
    subst same
    rw [get?_eq_none_iff]
    intro row member
    exact (mem_erase.mp member).2
  rename_i different
  cases found : table.get? at_ with
  | none =>
    rw [get?_eq_none_iff]
    intro row member
    exact get?_eq_none_iff.mp found row (mem_erase.mp member).1
  | some row =>
    obtain ⟨member, rfl⟩ := get?_eq_some_iff.mp found
    exact get?_key (mem_erase.mpr ⟨member, different⟩)

@[simp] theorem get?_erase_self (table : Table key) (at_ : κ) :
    (table.erase at_).get? at_ = none := by
  rw [get?_erase, if_pos rfl]

theorem get?_erase_of_ne (table : Table key) {removed at_ : κ} (different : at_ ≠ removed) :
    (table.erase removed).get? at_ = table.get? at_ := by
  rw [get?_erase, if_neg different]

/-- An insert changes the lookup of its own key only. -/
theorem get?_insert (table : Table key) (row : ν) (at_ : κ) :
    (table.insert row).get? at_ = if at_ = key row then some row else table.get? at_ := by
  split
  next same =>
    subst same
    exact get?_key (mem_insert.mpr (.inl rfl))
  rename_i different
  cases found : table.get? at_ with
  | none =>
    rw [get?_eq_none_iff]
    intro other member
    rcases mem_insert.mp member with rfl | ⟨member, _⟩
    · exact Ne.symm different
    · exact get?_eq_none_iff.mp found other member
  | some other =>
    obtain ⟨member, rfl⟩ := get?_eq_some_iff.mp found
    exact get?_key (mem_insert.mpr (.inr ⟨member, different⟩))

@[simp] theorem get?_insert_self (table : Table key) (row : ν) :
    (table.insert row).get? (key row) = some row := by
  rw [get?_insert, if_pos rfl]

theorem get?_insert_of_ne (table : Table key) (different : at_ ≠ key row) :
    (table.insert row).get? at_ = table.get? at_ := by
  rw [get?_insert, if_neg different]

/-- An update in place changes one lookup and leaves the others. -/
theorem get?_modify (table : Table key) {changed : κ} {change : ν → ν}
    (inPlace : ∀ row, key (change row) = key row) (at_ : κ) :
    (table.modify changed change).get? at_ =
      if at_ = changed then (table.get? at_).map change else table.get? at_ := by
  cases found : table.get? changed with
  | none =>
    simp only [modify, found]
    split
    next same => rw [same, found]; rfl
    next => rfl
  | some row =>
    have here : key (change row) = changed := by rw [inPlace, key_of_get? found]
    simp only [modify, found, get?_insert, here]
    split
    next same => rw [same, found]; rfl
    next => rfl

/-- A row of the image is found where the row of the table is. -/
theorem get?_image {μ : Type} {other : μ → κ} (table : Table key) {change : ν → μ}
    (inPlace : ∀ row, other (change row) = key row) (at_ : κ) :
    (table.image change inPlace).get? at_ = (table.get? at_).map change := by
  simp only [get?, image, List.find?_map, Function.comp_def, inPlace]

theorem nodup_keys (table : Table key) (keep : ν → Bool) :
    ((table.entries.filter keep).map key).Nodup := by
  refine List.Nodup.map_on ?_ ?_
  · intro left leftMember right rightMember same
    exact key_injective (List.mem_filter.mp leftMember).1 (List.mem_filter.mp rightMember).1 same
  · exact (table.sorted.imp fun {_ _} below equal =>
      absurd (congrArg key equal) below.ne).filter _

/-- Tables with the same lookups are the same. -/
@[ext] theorem ext {left right : Table key} (same : ∀ at_, left.get? at_ = right.get? at_) :
    left = right := by
  have members : ∀ row, row ∈ left.entries ↔ row ∈ right.entries := by
    intro row
    rw [← mem_def, ← mem_def, mem_iff_get?, mem_iff_get?, same]
  have leftNodup : left.entries.Nodup :=
    left.sorted.imp fun {_ _} below equal => absurd (congrArg key equal) below.ne
  have rightNodup : right.entries.Nodup :=
    right.sorted.imp fun {_ _} below equal => absurd (congrArg key equal) below.ne
  have equal : left.entries = right.entries :=
    ((List.perm_ext_iff_of_nodup leftNodup rightNodup).mpr members).eq_of_pairwise
      (fun _ _ _ _ below above => absurd below above.asymm) left.sorted right.sorted
  cases left
  cases right
  simpa using equal

theorem image_insert {μ : Type} {other : μ → κ} (table : Table key) {change : ν → μ}
    (inPlace : ∀ row, other (change row) = key row) (row : ν) :
    (table.insert row).image change inPlace = (table.image change inPlace).insert (change row) := by
  ext at_
  rw [get?_image, get?_insert, get?_insert, get?_image, inPlace]
  split
  next => rfl
  next => rfl

/-- The table of some rows: the last row of a key counts. -/
def collect (rows : List ν) : Table key := rows.foldl insert empty

theorem get?_collect (rows : List ν) (at_ : κ) :
    (collect rows : Table key).get? at_ = rows.reverse.find? fun row => key row = at_ := by
  induction rows using List.reverseRecOn with
  | nil => rfl
  | append_singleton rows row ih =>
    rw [collect, List.foldl_append, ← collect, List.foldl_cons, List.foldl_nil, get?_insert,
      ih, List.reverse_append, List.reverse_singleton, List.singleton_append,
      List.find?_cons]
    by_cases same : at_ = key row
    · rw [if_pos same, decide_eq_true same.symm]
    · rw [if_neg same, decide_eq_false (Ne.symm same)]

end Table
end Mdbase.Library
