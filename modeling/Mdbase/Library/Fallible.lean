import Mathlib

/-!
# Mapping a list with a computation that can fail

When mapping a list does not fail, each element has an image and each image is that of an
element.
-/

namespace Mdbase.Library

variable {α β ε : Type} {lower : α → Except ε β} {items : List α} {lowered : List β}

/-- Each element of a list has an image when mapping the list does not fail. -/
theorem forall₂_of_mapM_ok (all : items.mapM lower = .ok lowered) :
    List.Forall₂ (fun item image => lower item = .ok image) items lowered := by
  induction items generalizing lowered with
  | nil =>
    rw [List.mapM_nil] at all
    cases all
    exact .nil
  | cons item rest ih =>
    rw [List.mapM_cons] at all
    cases head : lower item with
    | error failure =>
      rw [head] at all
      cases all
    | ok image =>
      cases tail : rest.mapM lower with
      | error failure =>
        rw [head, tail] at all
        cases all
      | ok images =>
        rw [head, tail] at all
        cases all
        exact .cons head (ih tail)

/-- What stands in a list has its counterpart in a list that is related item by item. -/
theorem exists_of_forall₂ {α β : Type} {Related : α → β → Prop} {items : List α} {images : List β}
    (all : List.Forall₂ Related items images) {item : α} (member : item ∈ items) :
    ∃ image ∈ images, Related item image := by
  induction all with
  | nil => cases member
  | cons head _ ih =>
    rcases List.mem_cons.mp member with rfl | later
    · exact ⟨_, List.mem_cons_self, head⟩
    · obtain ⟨image, inside, related⟩ := ih later
      exact ⟨image, List.mem_cons_of_mem _ inside, related⟩

theorem exists_image_of_mapM_ok (all : items.mapM lower = .ok lowered) {item : α}
    (member : item ∈ items) : ∃ image ∈ lowered, lower item = .ok image :=
  exists_of_forall₂ (forall₂_of_mapM_ok all) member

theorem exists_item_of_mapM_ok (all : items.mapM lower = .ok lowered) {image : β}
    (member : image ∈ lowered) : ∃ item ∈ items, lower item = .ok image :=
  exists_of_forall₂ (forall₂_of_mapM_ok all).flip member

theorem mapM_ok_of_forall {image : α → β} (each : ∀ item ∈ items, lower item = .ok (image item)) :
    items.mapM lower = .ok (items.map image) := by
  induction items with
  | nil => rfl
  | cons item rest ih =>
    rw [List.mapM_cons, each item List.mem_cons_self,
      ih fun other member => each other (List.mem_cons_of_mem _ member)]
    rfl

/-- Mapping a list fails as the first of its elements that does. -/
theorem mapM_eq_error_iff {failure : ε} :
    items.mapM lower = .error failure ↔
      ∃ before item after, items = before ++ item :: after ∧ lower item = .error failure ∧
        ∀ other ∈ before, ∃ image, lower other = .ok image := by
  induction items with
  | nil =>
    refine iff_of_false nofun ?_
    rintro ⟨before, item, after, parts, -⟩
    exact absurd parts.symm (by simp)
  | cons item rest ih =>
    rw [List.mapM_cons]
    cases head : lower item with
    | error error =>
      constructor
      · intro failed
        cases failed
        exact ⟨[], item, rest, rfl, head, nofun⟩
      · rintro ⟨before, other, after, parts, here, succeed⟩
        cases before with
        | nil =>
          cases parts
          rw [head] at here
          cases here
          rfl
        | cons first before =>
          cases parts
          obtain ⟨image, same⟩ := succeed item List.mem_cons_self
          rw [head] at same
          cases same
    | ok image =>
      have tail : (.ok image >>= fun image => rest.mapM lower >>= fun images =>
          pure (image :: images)) = .error failure ↔ rest.mapM lower = .error failure := by
        cases rest.mapM lower <;> simp [bind, Except.bind, pure, Except.pure]
      rw [tail, ih]
      constructor
      · rintro ⟨before, other, after, rfl, here, succeed⟩
        exact ⟨item :: before, other, after, rfl, here,
          List.forall_mem_cons.mpr ⟨⟨image, head⟩, succeed⟩⟩
      · rintro ⟨before, other, after, parts, here, succeed⟩
        cases before with
        | nil =>
          cases parts
          rw [head] at here
          cases here
        | cons first before =>
          cases parts
          exact ⟨before, other, after, rfl, here, (List.forall_mem_cons.mp succeed).2⟩

theorem exists_error_of_mapM {failure : ε} (failed : items.mapM lower = .error failure) :
    ∃ item ∈ items, lower item = .error failure := by
  obtain ⟨before, item, after, rfl, here, -⟩ := mapM_eq_error_iff.mp failed
  exact ⟨item, by simp, here⟩

/-- A composition succeeds exactly if both of its parts do. -/
theorem bind_eq_ok {first : Except ε α} {next : α → Except ε β} {result : β} :
    first >>= next = .ok result ↔ ∃ value, first = .ok value ∧ next value = .ok result := by
  cases first with
  | error failure | ok value => simp [bind, Except.bind]

theorem map_eq_ok {first : Except ε α} {change : α → β} {result : β} :
    first.map change = .ok result ↔ ∃ value, first = .ok value ∧ change value = result := by
  cases first with
  | error failure | ok value => simp [Except.map]

/-- Where the first computation succeeds, the second one has the same result. -/
def Follows (first second : Except ε α) : Prop := ∀ result, first = .ok result → second = .ok result

namespace Follows

variable {first second : Except ε α}

theorem refl (first : Except ε α) : Follows first first := fun _ => id

theorem of_eq (same : first = second) : Follows first second := fun _ succeeds => same ▸ succeeds

theorem of_toOption (same : first.toOption = second.toOption) : Follows first second := by
  intro result succeeds
  rw [succeeds] at same
  cases reached : second with
  | error failure =>
    rw [reached] at same
    cases same
  | ok value =>
    rw [reached] at same
    cases same
    rfl

theorem bind {next other : α → Except ε β} (follows : Follows first second)
    (rest : ∀ value, first = .ok value → Follows (next value) (other value)) :
    Follows (first >>= next) (second >>= other) := by
  intro result succeeds
  cases reached : first with
  | error failure =>
    rw [reached] at succeeds
    cases succeeds
  | ok value =>
    rw [reached] at succeeds
    rw [follows value reached]
    exact rest value reached result succeeds

theorem mapError {φ : Type} {translate : ε → φ} (follows : Follows first second) :
    Follows (first.mapError translate) (second.mapError translate) := by
  intro result succeeds
  cases reached : first with
  | error failure =>
    rw [reached] at succeeds
    cases succeeds
  | ok value =>
    rw [reached] at succeeds
    rw [follows value reached]
    exact succeeds

theorem mapM {lower other : α → Except ε β}
    (each : ∀ item ∈ items, Follows (lower item) (other item)) :
    Follows (items.mapM lower) (items.mapM other) := by
  induction items with
  | nil => exact refl _
  | cons item rest ih =>
    rw [List.mapM_cons, List.mapM_cons]
    refine bind (each item List.mem_cons_self) fun image _ => ?_
    refine bind (ih fun item member => each item (List.mem_cons_of_mem _ member)) ?_
    exact fun images _ => refl _

end Follows

end Mdbase.Library
