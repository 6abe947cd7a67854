import Mathlib.Data.List.Count
import Mathlib.Data.List.Basic

/-!
# Slots

A list whose elements are known by their index and only ever change in place: what holds
of every element, what becomes of an element when some are changed, and how many of them
satisfy a test.
-/

namespace Mdbase.Library

variable {α : Type*}

/-- A property of every element with its index. -/
def Everywhere (holds : Nat → α → Prop) (slots : List α) : Prop :=
  ∀ index slot, slots[index]? = some slot → holds index slot

variable {slots : List α} {index : Nat}

/-- A slot of a list with a new slot is an old one or the new one. -/
theorem of_getElem?_append {new slot : α} (here : (slots ++ [new])[index]? = some slot) :
    slots[index]? = some slot ∨ index = slots.length ∧ slot = new := by
  rcases Nat.lt_trichotomy index slots.length with old | last | beyond
  · rw [List.getElem?_append_left old] at here
    exact .inl here
  · subst last
    rw [List.getElem?_append_right (Nat.le_refl _), Nat.sub_self] at here
    cases here
    exact .inr ⟨rfl, rfl⟩
  · rw [List.getElem?_eq_none (by simpa using Nat.succ_le_of_lt beyond)] at here
    cases here

theorem getElem?_append_of_some {slot : α} (here : slots[index]? = some slot) (more : List α) :
    (slots ++ more)[index]? = some slot :=
  (List.getElem?_append_left (List.getElem?_eq_some_iff.mp here).1).trans here

namespace Everywhere

variable {holds other : Nat → α → Prop} {slots : List α}

theorem nil : Everywhere holds [] := nofun

theorem imp (everywhere : Everywhere holds slots)
    (implies : ∀ index slot, slots[index]? = some slot → holds index slot → other index slot) :
    Everywhere other slots :=
  fun index slot here => implies index slot here (everywhere index slot here)

theorem modify {at_ : Nat} {change : α → α} (everywhere : Everywhere holds slots)
    (changed : ∀ slot, slots[at_]? = some slot → holds at_ (change slot)) :
    Everywhere holds (slots.modify at_ change) := by
  intro index slot here
  rw [List.getElem?_modify] at here
  obtain ⟨before, found, rfl⟩ := Option.map_eq_some_iff.mp here
  split
  next same =>
    subst same
    exact changed before found
  next => exact everywhere index before found

/-- What holds of all slots holds with a new one that has it. -/
theorem append {slot : α} (everywhere : Everywhere holds slots)
    (new : holds slots.length slot) : Everywhere holds (slots ++ [slot]) := by
  intro index found here
  rcases of_getElem?_append here with old | ⟨rfl, rfl⟩
  · exact everywhere index found old
  · exact new

end Everywhere

/-- The same change at each of some indices. -/
def changeAll (change : α → α) (slots : List α) (indices : List Nat) : List α :=
  indices.foldl (fun slots index => slots.modify index change) slots

variable {change : α → α}

theorem getElem?_changeAll (idempotent : ∀ slot, change (change slot) = change slot)
    (slots : List α) (indices : List Nat) (index : Nat) :
    (changeAll change slots indices)[index]? =
      slots[index]?.map fun slot => if index ∈ indices then change slot else slot := by
  induction indices generalizing slots with
  | nil => simp [changeAll]
  | cons first rest ih =>
    rw [changeAll, List.foldl_cons, ← changeAll, ih, List.getElem?_modify,
      Option.map_eq_map, Option.map_map]
    refine congrArg (slots[index]?.map ·) (funext fun slot => ?_)
    by_cases here : first = index
    · subst here
      by_cases again : first ∈ rest <;> simp [again, idempotent]
    · simp [here, Ne.symm here]

section Read

variable {β : Type*} {read : α → Option β} {change : α → α}

theorem bind_modify_of_same (same : ∀ slot, read (change slot) = read slot) (slots : List α)
    (at_ index : Nat) :
    ((slots.modify at_ change)[index]?).bind read = (slots[index]?).bind read := by
  rw [List.getElem?_modify]
  cases slots[index]? with
  | none => rfl
  | some slot =>
    show read (if at_ = index then change slot else slot) = read slot
    split
    next => exact same slot
    next => rfl

theorem bind_changeAll_of_same (same : ∀ slot, read (change slot) = read slot) (slots : List α)
    (indices : List Nat) (index : Nat) :
    ((changeAll change slots indices)[index]?).bind read = (slots[index]?).bind read := by
  induction indices generalizing slots with
  | nil => rfl
  | cons first rest ih => exact (ih _).trans (bind_modify_of_same same slots first index)

theorem bind_append_of_none {new : α} (none_ : read new = none) (slots : List α) (index : Nat) :
    ((slots ++ [new])[index]?).bind read = (slots[index]?).bind read := by
  cases here : (slots ++ [new])[index]? with
  | none =>
    rw [List.getElem?_eq_none_iff, List.length_append] at here
    rw [List.getElem?_eq_none (Nat.le_of_add_right_le here)]
  | some slot =>
    rcases of_getElem?_append here with old | ⟨rfl, rfl⟩
    · rw [old]
    · rw [List.getElem?_eq_none (Nat.le_refl _)]
      exact none_

end Read

variable {test : α → Bool}

theorem countP_modify_of_same (slots : List α) (index : Nat)
    (same : ∀ slot, slots[index]? = some slot → test (change slot) = test slot) :
    (slots.modify index change).countP test = slots.countP test := by
  induction slots generalizing index with
  | nil => simp
  | cons slot rest ih =>
    cases index with
    | zero => rw [List.modify_zero_cons, List.countP_cons, List.countP_cons, same slot rfl]
    | succ index => rw [List.modify_succ_cons, List.countP_cons, List.countP_cons, ih index same]

theorem countP_changeAll_of_same (slots : List α) (indices : List Nat)
    (same : ∀ slot, test (change slot) = test slot) :
    (changeAll change slots indices).countP test = slots.countP test := by
  induction indices generalizing slots with
  | nil => rfl
  | cons index indices ih =>
    exact (ih _).trans (countP_modify_of_same slots index fun slot _ => same slot)

theorem countP_modify_of_lost {slot : α} (here : slots[index]? = some slot)
    (before : test slot = true) (after : test (change slot) = false) :
    (slots.modify index change).countP test = slots.countP test - 1 := by
  induction slots generalizing index with
  | nil => cases here
  | cons first rest ih =>
    cases index with
    | zero =>
      cases here
      rw [List.modify_zero_cons, List.countP_cons, List.countP_cons, before, after]
      rfl
    | succ index =>
      have member : slot ∈ rest := List.mem_of_getElem? here
      have some_ : 0 < rest.countP test := List.countP_pos_iff.mpr ⟨slot, member, before⟩
      rw [List.modify_succ_cons, List.countP_cons, List.countP_cons, ih here]
      omega

theorem Everywhere.countP_eq_zero
    (fails : Everywhere (fun _ slot => test slot = false) slots) : slots.countP test = 0 := by
  refine List.countP_eq_zero.mpr fun slot member => ?_
  obtain ⟨index, here⟩ := List.mem_iff_getElem?.mp member
  rw [fails index slot here]
  exact Bool.false_ne_true

end Mdbase.Library
