import Mathlib

/-!
# Logs with retention

A log grows at its end and may forget its oldest entries. A reader that starts
anywhere and always continues behind the last entry it received gets the log
without gaps or repetitions, until an entry it still needs has been forgotten.
-/

namespace Mdbase.Library

/-- A log and the number of its oldest entries that were forgotten. -/
structure RetainedLog (α : Type*) where
  entries : List α
  retained : Nat
  bound : retained ≤ entries.length

namespace RetainedLog

variable {α : Type*}

def empty : RetainedLog α := ⟨[], 0, le_rfl⟩

/-- Add entries at the end. -/
@[simps]
def append (log : RetainedLog α) (added : List α) : RetainedLog α where
  entries := log.entries ++ added
  retained := log.retained
  bound := by
    rw [List.length_append]
    exact log.bound.trans (Nat.le_add_right _ _)

/-- Forget the entries up to a position, but none that is not there and without
recovering any. -/
@[simps]
def prune (log : RetainedLog α) (through : Nat) : RetainedLog α where
  entries := log.entries
  retained := max (min through log.entries.length) log.retained
  bound := max_le (min_le_right _ _) log.bound

@[simp] theorem append_nil (log : RetainedLog α) : log.append [] = log := by
  cases log
  simp [append]

@[simp] theorem append_append (log : RetainedLog α) (first second : List α) :
    (log.append first).append second = log.append (first ++ second) := by
  simp [append]

/-- The entries that are still there. -/
def kept (log : RetainedLog α) : List α := log.entries.drop log.retained

/-- The next entries behind a position, `none` when one of them was forgotten. -/
def page (log : RetainedLog α) (after limit : Nat) : Option (List α) :=
  if after < log.retained then none else some ((log.entries.drop after).take limit)

/-- A reader, with everything it received so far. -/
structure Reader (α : Type*) where
  start : Nat
  received : List α

namespace Reader

variable {log : RetainedLog α} {reader : Reader α}

/-- The position behind the last entry received. -/
def position (reader : Reader α) : Nat := reader.start + reader.received.length

/-- The reader received the entries behind its start, in order. -/
def Follows (reader : Reader α) (log : RetainedLog α) : Prop :=
  reader.received <+: log.entries.drop reader.start

theorem Follows.grow (follows : reader.Follows log) {later : RetainedLog α}
    (grows : log.entries <+: later.entries) : reader.Follows later := by
  obtain ⟨added, whole⟩ := grows
  unfold Follows at follows ⊢
  rw [← whole, List.drop_append]
  exact follows.trans (List.prefix_append _ _)

theorem Follows.read (follows : reader.Follows log) {limit : Nat} {events : List α}
    (answered : log.page reader.position limit = some events) :
    Follows ⟨reader.start, reader.received ++ events⟩ log := by
  unfold page at answered
  split at answered
  next => cases answered
  cases answered
  obtain ⟨rest, whole⟩ := follows
  have behind : log.entries.drop reader.position = rest := by
    rw [position, ← List.drop_drop, ← whole, List.drop_left]
  unfold Follows
  rw [behind, ← whole]
  exact List.prefix_append_right_inj _ |>.mpr (List.take_prefix limit rest)

end Reader

/-- The entries are numbered from one on. -/
def Numbered (number : α → Nat) (log : RetainedLog α) : Prop :=
  ∀ index entry, log.entries[index]? = some entry → number entry = index + 1

namespace Numbered

variable {number : α → Nat} {log : RetainedLog α}

theorem empty : Numbered number (empty : RetainedLog α) := by
  intro index entry found
  simp [RetainedLog.empty] at found

theorem append (numbered : Numbered number log) {entry : α}
    (next : number entry = log.entries.length + 1) : Numbered number (log.append [entry]) := by
  intro index other found
  rw [append_entries, List.getElem?_append] at found
  split at found
  next => exact numbered index other found
  rename_i beyond
  rw [List.getElem?_singleton] at found
  split at found
  next first =>
    cases found
    omega
  next => cases found

/-- Filtering by the number and dropping a prefix come to the same. -/
theorem filter_gt (numbered : Numbered number log) {first after : Nat} (le : first ≤ after) :
    (log.entries.drop first).filter (fun entry => after < number entry) =
      log.entries.drop after := by
  have early : ∀ entry ∈ (log.entries.drop first).take (after - first),
      ¬ (decide (after < number entry)) = true := by
    intro entry member
    obtain ⟨index, found⟩ := List.mem_iff_getElem?.mp member
    rw [List.getElem?_take] at found
    split at found
    next inside =>
      rw [List.getElem?_drop] at found
      have known := numbered _ entry found
      simp only [decide_eq_true_eq, not_lt]
      omega
    next => cases found
  have late : ∀ entry ∈ (log.entries.drop first).drop (after - first),
      decide (after < number entry) = true := by
    intro entry member
    obtain ⟨index, found⟩ := List.mem_iff_getElem?.mp member
    rw [List.getElem?_drop, List.getElem?_drop] at found
    have known := numbered _ entry found
    simp only [decide_eq_true_eq]
    omega
  calc (log.entries.drop first).filter (fun entry => after < number entry)
      = ((log.entries.drop first).take (after - first) ++
          (log.entries.drop first).drop (after - first)).filter
            (fun entry => after < number entry) := by rw [List.take_append_drop]
    _ = (log.entries.drop first).drop (after - first) := by
        rw [List.filter_append, List.filter_eq_nil_iff.mpr early, List.filter_eq_self.mpr late,
          List.nil_append]
    _ = log.entries.drop after := by
        rw [List.drop_drop, Nat.add_sub_cancel' le]

/-- An entry stands behind a position exactly when its number says so. -/
theorem mem_drop_iff (numbered : Numbered number log) {after : Nat} {entry : α}
    (member : entry ∈ log.entries) : entry ∈ log.entries.drop after ↔ after < number entry := by
  rw [← filter_gt numbered (Nat.zero_le after), List.drop_zero, List.mem_filter]
  simp [member]

/-- A reader that follows the log receives consecutive numbers. -/
theorem map_received (numbered : Numbered number log) {reader : Reader α}
    (follows : reader.Follows log) :
    reader.received.map number = List.range' (reader.start + 1) reader.received.length := by
  apply List.ext_getElem?
  intro index
  rw [List.getElem?_map]
  rcases Nat.lt_or_ge index reader.received.length with inside | outside
  · obtain ⟨entry, found⟩ : ∃ entry, reader.received[index]? = some entry :=
      ⟨_, List.getElem?_eq_getElem inside⟩
    have located : log.entries[reader.start + index]? = some entry := by
      rw [← List.getElem?_drop]
      obtain ⟨rest, whole⟩ := follows
      rw [← whole, List.getElem?_append_left inside]
      exact found
    rw [found, Option.map_some, numbered _ entry located, List.getElem?_range' inside]
    congr 1
    omega
  · rw [List.getElem?_eq_none outside, List.getElem?_eq_none (by simpa using outside)]
    rfl

/-- The position of a reader is the number of the last entry it received. -/
theorem position_eq (numbered : Numbered number log) {reader : Reader α}
    (follows : reader.Follows log) :
    reader.position = (reader.received.getLast?.map number).getD reader.start := by
  rw [← List.getLast?_map, map_received numbered follows, List.getLast?_range', Reader.position]
  split
  next none => rw [none]; rfl
  next some =>
    rw [Option.getD_some]
    omega

end Numbered

end RetainedLog

end Mdbase.Library
