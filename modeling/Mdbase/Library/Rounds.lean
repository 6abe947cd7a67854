import Mathlib

/-!
# Dependency rounds

A relation says what an item needs. An item settles in a round when all that it needs settled in
earlier rounds. On a finite carrier every item settles if and only if the relation has no cycle.
-/

namespace Mdbase.Library

variable {α : Type} {needs : α → α → Prop}

/-- The item settles within this many rounds. -/
def SettledIn (needs : α → α → Prop) : Nat → α → Prop
  | 0, _ => False
  | rounds + 1, item => ∀ needed, needs item needed → SettledIn needs rounds needed

/-- The relation leads from an item back to itself. -/
def Cyclic (needs : α → α → Prop) : Prop := ∃ item, Relation.TransGen needs item item

namespace SettledIn

variable {rounds : Nat} {item : α}

theorem succ (settled : SettledIn needs rounds item) : SettledIn needs (rounds + 1) item := by
  induction rounds generalizing item with
  | zero => cases settled
  | succ rounds ih => exact fun needed here => ih (settled needed here)

theorem mono {fewer more : Nat} (le : fewer ≤ more)
    (settled : SettledIn needs fewer item) : SettledIn needs more item := by
  induction le with
  | refl => exact settled
  | step _ ih => exact ih.succ

/-- What a settled item needs along a path settled in an earlier round. -/
theorem of_transGen {item needed : α} (settled : SettledIn needs rounds item)
    (path : Relation.TransGen needs item needed) :
    ∃ earlier < rounds, SettledIn needs earlier needed := by
  induction path with
  | single here =>
    cases rounds with
    | zero => cases settled
    | succ rounds => exact ⟨rounds, rounds.lt_succ_self, settled _ here⟩
  | tail _ here ih =>
    obtain ⟨earlier, before, settled⟩ := ih
    cases earlier with
    | zero => cases settled
    | succ earlier => exact ⟨earlier, earlier.lt_succ_self.trans before, settled _ here⟩

theorem not_of_cycle (cycle : Relation.TransGen needs item item) :
    ¬SettledIn needs rounds item := by
  induction rounds using Nat.strong_induction_on with
  | _ rounds ih =>
    intro settled
    obtain ⟨earlier, before, again⟩ := settled.of_transGen cycle
    exact ih earlier before again

theorem exists_first (settled : SettledIn needs rounds item) :
    ∃ first < rounds, SettledIn needs (first + 1) item ∧ ¬SettledIn needs first item := by
  induction rounds with
  | zero => cases settled
  | succ rounds ih =>
    by_cases earlier : SettledIn needs rounds item
    · obtain ⟨first, before, here⟩ := ih earlier
      exact ⟨first, before.trans rounds.lt_succ_self, here⟩
    · exact ⟨rounds, rounds.lt_succ_self, settled, earlier⟩

theorem of_stalled {inside : α → Prop} (closed : ∀ item needed, needs item needed → inside needed)
    {stalled : Nat} (still : ∀ item, inside item → SettledIn needs (stalled + 1) item →
      SettledIn needs stalled item)
    {rounds : Nat} {item : α} (member : inside item) (settled : SettledIn needs rounds item) :
    SettledIn needs stalled item := by
  induction rounds generalizing item with
  | zero => cases settled
  | succ rounds ih =>
    exact still item member fun needed here => ih (closed item needed here) (settled _ here)

/-- If what one relation settles in a round another finds settled before, then the other settles
no later. -/
theorem of_deeper {other : α → α → Prop}
    (deeper : ∀ rounds item needed, SettledIn needs (rounds + 1) item → other item needed →
      SettledIn needs rounds needed)
    (settled : SettledIn needs rounds item) :
    SettledIn other rounds item := by
  induction rounds generalizing item with
  | zero => cases settled
  | succ rounds ih => exact fun needed here => ih (deeper rounds item needed settled here)

end SettledIn

/-- Among finitely many items, all of them settle in one number of rounds if each does. -/
theorem exists_rounds (items : List α) (settles : ∀ item ∈ items, ∃ rounds,
    SettledIn needs rounds item) : ∃ rounds, ∀ item ∈ items, SettledIn needs rounds item := by
  induction items with
  | nil => exact ⟨0, fun item none => by cases none⟩
  | cons first rest ih =>
    obtain ⟨many, others⟩ := ih fun item member =>
      settles item (List.mem_cons_of_mem _ member)
    obtain ⟨own, settled⟩ := settles first List.mem_cons_self
    refine ⟨max own many, fun item member => ?_⟩
    rcases List.mem_cons.mp member with rfl | member
    · exact settled.mono (le_max_left _ _)
    · exact (others item member).mono (le_max_right _ _)

/-- Of finitely many items one does not settle if and only if there is a cycle. -/
theorem exists_unsettled_iff_cyclic {items : List α}
    (within : ∀ item needed, needs item needed → item ∈ items ∧ needed ∈ items) :
    (∃ item ∈ items, ∀ rounds, ¬SettledIn needs rounds item) ↔ Cyclic needs := by
  constructor
  · rintro ⟨item, member, never⟩
    by_contra acyclic
    -- without a cycle some unsettled item needs none
    let Unsettled : Type := { item // item ∈ items ∧ ∀ rounds, ¬SettledIn needs rounds item }
    have : Finite Unsettled :=
      Set.Finite.subset items.finite_toSet fun unsettled (both : _ ∧ _) => both.1
    let Below : Unsettled → Unsettled → Prop :=
      fun needed item => Relation.TransGen needs item.1 needed.1
    have : IsTrans Unsettled Below := ⟨fun _ _ _ second first => first.trans second⟩
    have : Std.Irrefl Below := ⟨fun unsettled cycle => acyclic ⟨unsettled.1, cycle⟩⟩
    obtain ⟨least, -, minimal⟩ := (Finite.wellFounded_of_trans_of_irrefl Below).has_min Set.univ
      ⟨⟨item, member, never⟩, trivial⟩
    have settles : ∀ needed ∈ items, needs least.1 needed →
        ∃ rounds, SettledIn needs rounds needed := by
      intro needed here needed'
      by_contra unsettled
      exact minimal ⟨needed, here, fun rounds settled => unsettled ⟨rounds, settled⟩⟩ trivial
        (.single needed')
    classical
    obtain ⟨rounds, all⟩ := @exists_rounds _ needs
      (items.filter fun needed => needs least.1 needed) (fun needed member =>
        settles needed (List.mem_filter.mp member).1 (by simpa using (List.mem_filter.mp member).2))
    refine least.2.2 (rounds + 1) fun needed here => all needed ?_
    exact List.mem_filter.mpr ⟨(within _ _ here).2, by simpa using here⟩
  · rintro ⟨item, cycle⟩
    have member : item ∈ items := by
      obtain ⟨next, here, -⟩ := Relation.TransGen.head'_iff.mp cycle
      exact (within _ _ here).1
    exact ⟨item, member, fun rounds => SettledIn.not_of_cycle cycle⟩

end Mdbase.Library
