import Mathlib

/-!
# Consecutive numbers

Lists whose elements carry consecutive numbers. Selecting by number is taking or
dropping a number of elements.
-/

namespace Mdbase.Library

variable {α : Type*}

/-- The elements carry the numbers from the first one on. -/
def Consecutive (number : α → Nat) (first : Nat) (items : List α) : Prop :=
  items.map number = List.range' first items.length

namespace Consecutive

variable {number : α → Nat} {first : Nat} {items : List α}

theorem nil : Consecutive number first ([] : List α) := rfl

theorem cons_iff {item : α} :
    Consecutive number first (item :: items) ↔
      number item = first ∧ Consecutive number (first + 1) items := by
  simp [Consecutive, List.range'_succ]

theorem append_iff {more : List α} :
    Consecutive number first (items ++ more) ↔
      Consecutive number first items ∧ Consecutive number (first + items.length) more := by
  induction items generalizing first with
  | nil => simp [nil]
  | cons item rest ih =>
    rw [List.cons_append, cons_iff, ih, cons_iff, List.length_cons, and_assoc]
    have same : first + 1 + rest.length = first + (rest.length + 1) := by omega
    rw [same]

theorem singleton_iff {item : α} : Consecutive number first [item] ↔ number item = first := by
  simp [cons_iff, nil]

theorem bounds (consecutive : Consecutive number first items) {item : α} (member : item ∈ items) :
    first ≤ number item ∧ number item < first + items.length := by
  have listed : number item ∈ items.map number := List.mem_map_of_mem member
  rw [consecutive, List.mem_range'_1] at listed
  exact listed

theorem nodup (consecutive : Consecutive number first items) : (items.map number).Nodup := by
  rw [consecutive]
  exact List.nodup_range'

theorem drop (consecutive : Consecutive number first items) {count : Nat}
    (le : count ≤ items.length) : Consecutive number (first + count) (items.drop count) := by
  have whole := consecutive
  rw [← List.take_append_drop count items, append_iff, List.length_take, min_eq_left le] at whole
  exact whole.2

theorem take (consecutive : Consecutive number first items) (count : Nat) :
    Consecutive number first (items.take count) := by
  have whole := consecutive
  rw [← List.take_append_drop count items, append_iff] at whole
  exact whole.1

theorem getLast? (consecutive : Consecutive number first items) :
    items.getLast?.map number = if items = [] then none else some (first + items.length - 1) := by
  induction items using List.reverseRecOn with
  | nil => simp
  | append_singleton items last _ =>
    have here := singleton_iff.mp (append_iff.mp consecutive).2
    simp [here]

theorem filter_gt (consecutive : Consecutive number first items) {bound : Nat}
    (le : first ≤ bound + 1) :
    items.filter (fun item => decide (number item > bound)) = items.drop (bound + 1 - first) := by
  induction items generalizing first with
  | nil => simp
  | cons item rest ih =>
    obtain ⟨here, later⟩ := cons_iff.mp consecutive
    by_cases below : first = bound + 1
    · have all : ∀ other ∈ item :: rest, decide (number other > bound) = true := by
        intro other member
        have lower := (consecutive.bounds member).1
        simp only [decide_eq_true_eq]
        omega
      rw [List.filter_eq_self.mpr all, below, Nat.sub_self, List.drop_zero]
    · have dropped : bound + 1 - first = bound + 1 - (first + 1) + 1 := by omega
      rw [List.filter_cons_of_neg (by simp; omega), ih later (by omega), dropped,
        List.drop_succ_cons]

end Consecutive

end Mdbase.Library
