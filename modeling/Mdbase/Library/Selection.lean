import Mathlib

/-!
# Selecting the first eligible element

Two ways to select from a finite collection by a key: the least eligible element,
and the first eligible one of a sorted list that is cut off after some length. A third one selects
the last greatest element by a comparison.
-/

namespace Mdbase.Library

variable {α κ : Type} [LinearOrder κ] {key : α → κ}

/-- In a sorted list the first eligible element is the least one. -/
theorem find?_eq_argmin {list : List α} (sorted : list.Pairwise fun left right => key left < key right)
    (eligible : α → Bool) : list.find? eligible = (list.filter eligible).argmin key := by
  classical
  induction list with
  | nil => rfl
  | cons head rest ih =>
    obtain ⟨below, restSorted⟩ := List.pairwise_cons.mp sorted
    cases here : eligible head with
    | true =>
      rw [List.find?_cons_of_pos here, List.filter_cons_of_pos here, eq_comm,
        List.argmin_eq_some_iff]
      refine ⟨List.mem_cons_self, ?_, ?_⟩
      · intro other member
        rcases List.mem_cons.mp member with rfl | member
        · exact le_rfl
        · exact (below other (List.mem_filter.mp member).1).le
      · intro other member le
        rcases List.mem_cons.mp member with rfl | later
        · exact le_rfl
        · exact absurd le (not_le.mpr (below other (List.mem_filter.mp later).1))
    | false =>
      rw [List.find?_cons_of_neg (by simp [here]), List.filter_cons_of_neg (by simp [here])]
      exact ih restSorted

/-- The least eligible element does not depend on the order of the list when no
two elements share a key. -/
theorem argmin_eq_of_perm {left right : List α} (perm : left.Perm right)
    (distinct : ∀ one ∈ left, ∀ other ∈ left, key one = key other → one = other) :
    left.argmin key = right.argmin key := by
  cases least : right.argmin key with
  | none =>
    rw [List.argmin_eq_none] at least ⊢
    rw [least] at perm
    exact perm.eq_nil
  | some one =>
    have oneMember := List.argmin_mem least
    cases found : left.argmin key with
    | none =>
      rw [List.argmin_eq_none] at found
      rw [found] at perm
      rw [perm.symm.eq_nil] at oneMember
      exact absurd oneMember List.not_mem_nil
    | some other =>
      have otherMember := List.argmin_mem found
      have below := List.le_of_mem_argmin (perm.mem_iff.mpr oneMember) found
      have above := List.le_of_mem_argmin (perm.mem_iff.mp otherMember) least
      rw [distinct other otherMember one (perm.mem_iff.mpr oneMember) (below.antisymm above)]

/-- Cutting a sorted list off and weakening the eligibility leave the selection
alone exactly when the selected element is before the cut and no element that is
eligible only in the weaker sense comes first. -/
theorem find?_eq_find?_take_iff {list : List α}
    (sorted : list.Pairwise fun left right => key left < key right) {eligible weaker : α → Bool}
    (implies : ∀ one ∈ list, eligible one = true → weaker one = true) (length : Nat) :
    list.find? eligible = (list.take length).find? weaker ↔
      (∀ one, list.find? eligible = some one → one ∈ list.take length) ∧
      (∀ one ∈ list.take length, weaker one = true →
        eligible one = true ∨ ∃ other ∈ list, key other < key one ∧ eligible other = true) := by
  induction list generalizing length with
  | nil => simp
  | cons head rest ih =>
    obtain ⟨below, restSorted⟩ := List.pairwise_cons.mp sorted
    cases length with
    | zero =>
      rw [List.take_zero, List.find?_nil, Option.eq_none_iff_forall_not_mem]
      simp [Option.mem_def]
    | succ length =>
      rw [List.take_succ_cons]
      cases here : eligible head with
      | true =>
        rw [List.find?_cons_of_pos here,
          List.find?_cons_of_pos (implies head List.mem_cons_self here)]
        refine iff_of_true rfl ⟨?_, ?_⟩
        · intro one same
          cases same
          exact List.mem_cons_self
        · intro one member _
          rcases List.mem_cons.mp member with rfl | member
          · exact .inl here
          · exact .inr ⟨head, List.mem_cons_self, below one (List.mem_of_mem_take member), here⟩
      | false =>
        rw [List.find?_cons_of_neg (by simp [here])]
        cases weak : weaker head with
        | true =>
          rw [List.find?_cons_of_pos weak]
          refine iff_of_false ?_ ?_
          · intro found
            exact lt_irrefl _ (below head (List.mem_of_find?_eq_some found))
          · rintro ⟨_, first⟩
            rcases first head List.mem_cons_self weak with eligible | ⟨other, member, lower, _⟩
            · rw [here] at eligible
              cases eligible
            · rcases List.mem_cons.mp member with rfl | member
              · exact lt_irrefl _ lower
              · exact lt_asymm lower (below other member)
        | false =>
          rw [List.find?_cons_of_neg (by simp [weak]),
            ih restSorted fun one member => implies one (List.mem_cons_of_mem _ member)]
          have apart : ∀ one, eligible one = true → one ≠ head := by
            rintro one isEligible rfl
            rw [here] at isEligible
            cases isEligible
          refine and_congr ?_ ?_
          · refine forall_congr' fun one => imp_congr_right fun found => ?_
            have different := apart one (List.find?_some found)
            simp [different]
          · constructor
            · intro first one member isWeak
              rcases List.mem_cons.mp member with rfl | member
              · rw [weak] at isWeak
                cases isWeak
              · refine (first one member isWeak).imp_right ?_
                rintro ⟨other, otherMember, lower⟩
                exact ⟨other, List.mem_cons_of_mem _ otherMember, lower⟩
            · intro first one member isWeak
              refine (first one (List.mem_cons_of_mem _ member) isWeak).imp_right ?_
              rintro ⟨other, otherMember, lower, isEligible⟩
              have different := apart other isEligible
              exact ⟨other, (List.mem_cons.mp otherMember).resolve_left different, lower,
                isEligible⟩

section

variable {compares : α → α → Ordering}

/-- The greater one of two elements, the second one if they compare as equal. -/
def laterMax (compares : α → α → Ordering) (left right : α) : α :=
  if compares left right = .gt then left else right

/-- The last one of the greatest elements of a list. -/
def maxBy (compares : α → α → Ordering) : List α → Option α
  | [] => none
  | first :: rest => some (rest.foldl (laterMax compares) first)

variable {list : List α}

@[simp] theorem maxBy_eq_none : maxBy compares list = none ↔ list = [] := by
  cases list <;> simp [maxBy]

theorem foldl_laterMax_mem (rest : List α) (first : α) :
    rest.foldl (laterMax compares) first ∈ first :: rest := by
  induction rest generalizing first with
  | nil => exact List.mem_cons_self
  | cons next rest ih =>
    have member := ih (laterMax compares first next)
    rw [List.foldl_cons]
    rcases List.mem_cons.mp member with same | later
    · rw [same, laterMax]
      split_ifs
      · exact List.mem_cons_self
      · exact List.mem_cons_of_mem _ List.mem_cons_self
    · exact List.mem_cons_of_mem _ (List.mem_cons_of_mem _ later)

theorem mem_of_maxBy {greatest : α} (found : maxBy compares list = some greatest) :
    greatest ∈ list := by
  cases list with
  | nil => cases found
  | cons first rest =>
    rw [← Option.some.inj found]
    exact foldl_laterMax_mem rest first

variable [Std.TransCmp compares]

theorem isLE_self (one : α) : (compares one one).isLE := by
  have same : compares one one = .eq := Std.ReflCmp.compare_self
  rw [same]
  rfl

theorem isLE_laterMax (left right : α) :
    (compares left (laterMax compares left right)).isLE ∧
      (compares right (laterMax compares left right)).isLE := by
  have swapped : compares right left = (compares left right).swap := Std.OrientedCmp.eq_swap
  rw [laterMax]
  split_ifs with greater
  · refine ⟨isLE_self left, ?_⟩
    rw [swapped, greater]
    rfl
  · exact ⟨Ordering.isLE_iff_ne_gt.mpr greater, isLE_self right⟩

theorem isLE_foldl_laterMax (rest : List α) (first : α) :
    ∀ one ∈ first :: rest, (compares one (rest.foldl (laterMax compares) first)).isLE := by
  induction rest generalizing first with
  | nil =>
    intro one member
    rw [List.mem_singleton.mp member]
    exact isLE_self first
  | cons next rest ih =>
    have above := ih (laterMax compares first next)
    have chosen := above _ List.mem_cons_self
    intro one member
    rw [List.foldl_cons]
    rcases List.mem_cons.mp member with rfl | later
    · exact Std.TransCmp.isLE_trans (isLE_laterMax one next).1 chosen
    · rcases List.mem_cons.mp later with rfl | later
      · exact Std.TransCmp.isLE_trans (isLE_laterMax first one).2 chosen
      · exact above one (List.mem_cons_of_mem _ later)

theorem isLE_of_maxBy {greatest : α} (found : maxBy compares list = some greatest)
    {one : α} (member : one ∈ list) : (compares one greatest).isLE := by
  cases list with
  | nil => cases found
  | cons first rest =>
    rw [← Option.some.inj found]
    exact isLE_foldl_laterMax rest first one member

/-- What is found in two lists with the same elements compares as equal. -/
theorem compares_maxBy {left right : List α} (same : ∀ one, one ∈ left ↔ one ∈ right)
    {here there : α} (foundHere : maxBy compares left = some here)
    (foundThere : maxBy compares right = some there) : compares here there = .eq :=
  Std.OrientedCmp.isLE_antisymm
    (isLE_of_maxBy foundThere ((same here).mp (mem_of_maxBy foundHere)))
    (isLE_of_maxBy foundHere ((same there).mpr (mem_of_maxBy foundThere)))

end

end Mdbase.Library
