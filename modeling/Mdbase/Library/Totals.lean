import Mdbase.Library.Table

/-!
# Totals of a table

The total of a weight over the rows of a table, and how it moves when a row is stored,
replaced or removed.
-/

namespace Mdbase.Library.Table

variable {κ ν : Type} [LinearOrder κ] {key : ν → κ}

/-- The total weight of the rows. -/
def total (table : Table key) (weight : ν → Nat) : Nat := (table.entries.map weight).sum

theorem sum_filter_add (rows : List ν) (weight : ν → Nat) (keep : ν → Bool) :
    ((rows.filter keep).map weight).sum + ((rows.filter fun row => !keep row).map weight).sum =
      (rows.map weight).sum := by
  induction rows with
  | nil => rfl
  | cons row rest ih => cases kept : keep row <;> simp [kept] <;> omega

theorem filter_key_eq (table : Table key) (at_ : κ) :
    table.entries.filter (fun row => key row = at_) = (table.get? at_).toList := by
  cases found : table.get? at_ with
  | none =>
    refine List.filter_eq_nil_iff.mpr fun row member => ?_
    simpa using get?_eq_none_iff.mp found row member
  | some row =>
    obtain ⟨member, here⟩ := get?_eq_some_iff.mp found
    have all : ∀ other ∈ table.entries.filter (fun row => key row = at_), other = row := by
      intro other filtered
      obtain ⟨otherMember, same⟩ := List.mem_filter.mp filtered
      exact key_injective otherMember member ((by simpa using same : key other = at_).trans here.symm)
    have nodup : (table.entries.filter fun row => key row = at_).Nodup :=
      (table.sorted.imp fun {_ _} below equal => absurd (congrArg key equal) below.ne).filter _
    have filtered : row ∈ table.entries.filter (fun row => key row = at_) :=
      List.mem_filter.mpr ⟨member, by simpa using here⟩
    refine List.perm_singleton.mp ((List.perm_ext_iff_of_nodup nodup (by simp)).mpr fun other => ?_)
    rw [List.mem_singleton]
    exact ⟨all other, fun same => same ▸ filtered⟩

theorem sum_erase_add (table : Table key) (weight : ν → Nat) (at_ : κ) :
    (table.erase at_).total weight + ((table.get? at_).map weight).getD 0 = table.total weight := by
  have parts := sum_filter_add table.entries weight fun row => decide (key row = at_)
  rw [filter_key_eq] at parts
  have rest : (table.erase at_).entries = table.entries.filter fun row => !decide (key row = at_) := by
    simp [erase, filter]
  unfold total
  rw [rest]
  cases found : table.get? at_ with
  | none | some row =>
    rw [found] at parts
    simp at parts ⊢
    omega

theorem entries_insert_perm (table : Table key) (row : ν) :
    (table.insert row).entries.Perm (row :: (table.erase (key row)).entries) := by
  have apart : (table.erase (key row)).entries.Perm
      (table.entries.filter (fun other => key other < key row) ++
        table.entries.filter (fun other => key row < key other)) := by
    have split := List.filter_append_perm (fun other => decide (key other < key row))
      (table.erase (key row)).entries
    refine split.symm.trans ?_
    simp only [erase, filter, List.filter_filter]
    refine List.Perm.append (.of_eq ?_) (.of_eq ?_)
    · refine List.filter_congr fun other _ => ?_
      by_cases below : key other < key row <;> simp [below, ne_of_lt]
    · refine List.filter_congr fun other _ => ?_
      rcases lt_trichotomy (key other) (key row) with below | same | above
      · simp [below, below.le]
      · simp [same]
      · simp [above, above.ne', above.le]
  exact List.perm_middle.trans (apart.symm.cons row)

theorem total_insert_add (table : Table key) (weight : ν → Nat) (row : ν) :
    (table.insert row).total weight + ((table.get? (key row)).map weight).getD 0 =
      table.total weight + weight row := by
  have stored : (table.insert row).total weight =
      weight row + (table.erase (key row)).total weight := by
    unfold total
    rw [((table.entries_insert_perm row).map weight).sum_eq]
    rfl
  have erased := table.sum_erase_add weight (key row)
  omega

theorem weight_le_total {table : Table key} {at_ : κ} {row : ν} (weight : ν → Nat)
    (found : table.get? at_ = some row) : weight row ≤ table.total weight := by
  have erased := table.sum_erase_add weight at_
  rw [found] at erased
  simp at erased
  omega

theorem length_eq_total (table : Table key) : table.entries.length = table.total fun _ => 1 := by
  simp [total]

end Mdbase.Library.Table
