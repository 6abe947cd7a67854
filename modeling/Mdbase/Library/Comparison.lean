import Mathlib

/-!
# Sorting by a comparison

A comparison answers with an `Ordering`. `sortBy` is a stable sort; what it
returns is determined by the elements alone as soon as the comparison is a total
order on the elements at hand, which is weaker than being one everywhere.
-/

namespace Mdbase.Library

variable {α β : Type}

/-- A stable sort by a comparison: equal elements keep their order. -/
def sortBy (compares : α → α → Ordering) (items : List α) : List α :=
  items.insertionSort fun left right => (compares left right).isLE

/-- A comparison restricted to the elements of a list. -/
def restricted (compares : α → α → Ordering) (items : List α) :
    (left right : {item // item ∈ items}) → Ordering :=
  fun left right => compares left.1 right.1

/-- The comparison is a total preorder on the elements of the list. -/
def OrdersOn (compares : α → α → Ordering) (items : List α) : Prop :=
  Std.TransCmp (restricted compares items)

/-- Elements of the list that compare as equal are the same. -/
def SeparatesOn (compares : α → α → Ordering) (items : List α) : Prop :=
  ∀ left ∈ items, ∀ right ∈ items, compares left right = .eq → left = right

/-- Sorting rearranges the items. -/
theorem sortBy_perm (compares : α → α → Ordering) (items : List α) :
    (sortBy compares items).Perm items :=
  List.perm_insertionSort _ items

variable {compares : α → α → Ordering} {items : List α}

@[simp] theorem mem_sortBy {item : α} : item ∈ sortBy compares items ↔ item ∈ items :=
  (sortBy_perm compares items).mem_iff

@[simp] theorem length_sortBy (compares : α → α → Ordering) (items : List α) :
    (sortBy compares items).length = items.length :=
  (sortBy_perm compares items).length_eq

variable {here : α → α → Ordering} {there : β → β → Ordering}

/-- Sorting commutes with a map along which the comparisons agree. -/
theorem map_sortBy (change : α → β) (agree : ∀ left ∈ items, ∀ right ∈ items,
      here left right = there (change left) (change right)) :
    (sortBy here items).map change = sortBy there (items.map change) := by
  apply List.map_insertionSort
  intro left leftMember right rightMember
  rw [agree left leftMember right rightMember]

theorem sortBy_congr {here there : α → α → Ordering}
    (agree : ∀ left ∈ items, ∀ right ∈ items, here left right = there left right) :
    sortBy here items = sortBy there items := by
  simpa using map_sortBy id agree

/-- Lists that correspond element by element are sorted alike when the comparisons
agree on corresponding elements. -/
theorem forall₂_sortBy {related : α → β → Prop}
    {lefts : List α} {rights : List β} (correspond : List.Forall₂ related lefts rights)
    (agree : ∀ {left other right another}, related left right → related other another →
      here left other = there right another) :
    List.Forall₂ related (sortBy here lefts) (sortBy there rights) := by
  have insert : ∀ {left right lefts rights}, related left right → List.Forall₂ related lefts rights →
      List.Forall₂ related (lefts.orderedInsert (fun left right => (here left right).isLE) left)
        (rights.orderedInsert (fun left right => (there left right).isLE) right) := by
    intro left right lefts rights matched correspond
    induction correspond with
    | nil => exact .cons matched .nil
    | cons first rest ih =>
      rw [List.orderedInsert_cons, List.orderedInsert_cons, agree matched first]
      split
      · exact .cons matched (.cons first rest)
      · exact .cons first ih
  induction correspond with
  | nil => exact .nil
  | cons first rest ih => exact insert first ih

theorem SeparatesOn.mono {items fewer : List α}
    (separates : SeparatesOn compares items) (included : ∀ item ∈ fewer, item ∈ items) :
    SeparatesOn compares fewer :=
  fun left leftMember right rightMember =>
    separates left (included left leftMember) right (included right rightMember)

namespace OrdersOn

variable {compares here there : α → α → Ordering} {items : List α} {left right : α}

/-- On the items that it orders a comparison answers the reverse when its sides change. -/
theorem eq_swap (orders : OrdersOn compares items) (leftMember : left ∈ items)
    (rightMember : right ∈ items) : compares left right = (compares right left).swap := by
  have oriented := orders.toOrientedCmp
  exact oriented.eq_swap (a := ⟨left, leftMember⟩) (b := ⟨right, rightMember⟩)

/-- On the items that it orders a comparison is transitive. -/
theorem isLE_trans (orders : OrdersOn compares items) {first second third : α}
    (firstMember : first ∈ items) (secondMember : second ∈ items) (thirdMember : third ∈ items)
    (below : (compares first second).isLE) (above : (compares second third).isLE) :
    (compares first third).isLE := by
  have transitive : Std.TransCmp (restricted compares items) := orders
  exact transitive.isLE_trans (a := ⟨first, firstMember⟩) (b := ⟨second, secondMember⟩)
    (c := ⟨third, thirdMember⟩) below above

/-- Elements that a total preorder takes round are equal under it. -/
theorem eq_of_round (orders : OrdersOn compares items) {first second third : α}
    (firstMember : first ∈ items) (secondMember : second ∈ items) (thirdMember : third ∈ items)
    (one : (compares first second).isLE) (two : (compares second third).isLE)
    (three : (compares third first).isLE) : compares first second = .eq := by
  have back := orders.isLE_trans secondMember thirdMember firstMember two three
  rw [orders.eq_swap secondMember firstMember] at back
  revert one back
  cases compares first second <;> simp

/-- A total preorder on the elements of a list, from its two laws. -/
theorem intro (oriented : ∀ left ∈ items, ∀ right ∈ items,
      compares left right = (compares right left).swap)
    (transitive : ∀ first ∈ items, ∀ second ∈ items, ∀ third ∈ items,
      (compares first second).isLE → (compares second third).isLE →
        (compares first third).isLE) : OrdersOn compares items where
  eq_swap := fun {left right} => oriented left.1 left.2 right.1 right.2
  isLE_trans := fun {first second third} =>
    transitive first.1 first.2 second.1 second.2 third.1 third.2

theorem mono (orders : OrdersOn compares items) {fewer : List α}
    (included : ∀ item ∈ fewer, item ∈ items) : OrdersOn compares fewer :=
  intro
    (fun _ leftMember _ rightMember =>
      orders.eq_swap (included _ leftMember) (included _ rightMember))
    (fun _ firstMember _ secondMember _ thirdMember =>
      orders.isLE_trans (included _ firstMember) (included _ secondMember)
        (included _ thirdMember))

theorem congr (orders : OrdersOn here items)
    (agree : ∀ left ∈ items, ∀ right ∈ items, here left right = there left right) :
    OrdersOn there items := by
  refine intro ?_ ?_
  · intro left leftMember right rightMember
    rw [← agree _ leftMember _ rightMember, ← agree _ rightMember _ leftMember]
    exact orders.eq_swap leftMember rightMember
  · intro first firstMember second secondMember third thirdMember
    rw [← agree _ firstMember _ secondMember, ← agree _ secondMember _ thirdMember,
      ← agree _ firstMember _ thirdMember]
    exact orders.isLE_trans firstMember secondMember thirdMember

theorem swap (orders : OrdersOn compares items) :
    OrdersOn (fun left right => (compares left right).swap) items := by
  have transitive : Std.TransCmp (restricted compares items) := orders
  have opposite : OrdersOn (fun left right => compares right left) items :=
    @Std.TransCmp.opposite _ (restricted compares items) transitive
  exact opposite.congr fun left leftMember right rightMember =>
    orders.eq_swap rightMember leftMember

/-- Refining one total preorder by another gives a total preorder. -/
theorem refined (coarse : OrdersOn here items) (fine : OrdersOn there items) :
    OrdersOn (fun left right => (here left right).then (there left right)) items := by
  have first : Std.TransCmp (restricted here items) := coarse
  have second : Std.TransCmp (restricted there items) := fine
  exact inferInstanceAs (Std.TransCmp (compareLex (restricted here items) (restricted there items)))

/-- Comparing a feature of the elements is a total preorder when comparing the
features is one. -/
theorem comap {features : β → β → Ordering} (feature : α → β)
    (orders : OrdersOn features (items.map feature)) :
    OrdersOn (fun left right => features (feature left) (feature right)) items :=
  intro
    (fun _ leftMember _ rightMember =>
      orders.eq_swap (List.mem_map_of_mem leftMember) (List.mem_map_of_mem rightMember))
    (fun _ firstMember _ secondMember _ thirdMember =>
      orders.isLE_trans (List.mem_map_of_mem firstMember) (List.mem_map_of_mem secondMember)
        (List.mem_map_of_mem thirdMember))

/-- Elements are ordered by their features if others that cover these features are. -/
theorem of_features {γ : Type} (features : γ → γ → Ordering) {feature : α → γ} {other : β → γ}
    {others : List β} (covered : ∀ item ∈ items, ∃ same ∈ others, other same = feature item)
    (orders : OrdersOn (fun left right => features (other left) (other right)) others) :
    OrdersOn (fun left right => features (feature left) (feature right)) items := by
  refine intro ?_ ?_
  · intro left leftMember right rightMember
    obtain ⟨leftOther, leftHere, leftSame⟩ := covered left leftMember
    obtain ⟨rightOther, rightHere, rightSame⟩ := covered right rightMember
    rw [← leftSame, ← rightSame]
    exact orders.eq_swap leftHere rightHere
  · intro first firstMember second secondMember third thirdMember
    obtain ⟨firstOther, firstHere, firstSame⟩ := covered first firstMember
    obtain ⟨secondOther, secondHere, secondSame⟩ := covered second secondMember
    obtain ⟨thirdOther, thirdHere, thirdSame⟩ := covered third thirdMember
    rw [← firstSame, ← secondSame, ← thirdSame]
    exact orders.isLE_trans firstHere secondHere thirdHere

theorem of_key {κ : Type} [Ord κ] [Std.TransOrd κ] (key : α → κ) :
    OrdersOn (fun left right => compare (key left) (key right)) items :=
  intro (fun _ _ _ _ => Std.OrientedCmp.eq_swap) (fun _ _ _ _ _ _ => Std.TransCmp.isLE_trans)

theorem total (orders : OrdersOn compares items) (leftMember : left ∈ items)
    (rightMember : right ∈ items) :
    (compares left right).isLE ∨ (compares right left).isLE := by
  rw [orders.eq_swap rightMember leftMember]
  cases compares left right <;> simp

/-- Under a total preorder the sort puts no element before a smaller one. -/
theorem pairwise_sortBy (orders : OrdersOn compares items) :
    (sortBy compares items).Pairwise fun left right => (compares left right).isLE := by
  have transitive : Std.TransCmp (restricted compares items) := orders
  let below : (left right : {item // item ∈ items}) → Prop :=
    fun left right => (restricted compares items left right).isLE
  have isTrans : IsTrans _ below := ⟨fun _ _ _ => Std.TransCmp.isLE_trans⟩
  have isTotal : Std.Total below := ⟨fun left right => orders.total left.2 right.2⟩
  have sorted := List.pairwise_insertionSort below items.attach
  have mapped : (sortBy (restricted compares items) items.attach).map Subtype.val =
      sortBy compares (items.attach.map Subtype.val) :=
    map_sortBy Subtype.val fun _ _ _ _ => rfl
  rw [List.attach_map_subtype_val] at mapped
  rw [← mapped, List.pairwise_map]
  exact sorted

/-- The sort returns the one sorted arrangement of the elements. -/
theorem sortBy_eq (orders : OrdersOn compares items) (separates : SeparatesOn compares items)
    {sorted : List α} (perm : sorted.Perm items)
    (pairwise : sorted.Pairwise fun left right => (compares left right).isLE) :
    sortBy compares items = sorted := by
  apply List.Perm.eq_of_pairwise _ orders.pairwise_sortBy pairwise
    ((sortBy_perm compares items).trans perm.symm)
  intro left right leftMember rightMember below above
  have leftHere := mem_sortBy.mp leftMember
  have rightHere := perm.mem_iff.mp rightMember
  apply separates left leftHere right rightHere
  rw [orders.eq_swap rightHere leftHere] at above
  cases answer : compares left right <;> simp_all

/-- Whatever order the elements arrive in, the sort returns the same list. -/
theorem sortBy_eq_of_perm (orders : OrdersOn compares items)
    (separates : SeparatesOn compares items) {other : List α} (perm : other.Perm items) :
    sortBy compares other = sortBy compares items := by
  have included : ∀ item ∈ other, item ∈ items := fun item member => perm.mem_iff.mp member
  exact (orders.sortBy_eq separates ((sortBy_perm compares other).trans perm)
    (orders.mono included).pairwise_sortBy).symm

theorem compare_self (orders : OrdersOn compares items) {item : α} (member : item ∈ items) :
    compares item item = .eq := by
  have oriented := orders.eq_swap member member
  cases answer : compares item item <;> simp_all

/-- Total orders that sort the elements alike compare them alike. -/
theorem agree_of_sortBy_eq (hereOrders : OrdersOn here items) (thereOrders : OrdersOn there items)
    (hereSeparates : SeparatesOn here items) (thereSeparates : SeparatesOn there items)
    (same : sortBy here items = sortBy there items) (leftMember : left ∈ items)
    (rightMember : right ∈ items) : here left right = there left right := by
  by_cases equal : left = right
  · rw [equal, hereOrders.compare_self rightMember, thereOrders.compare_self rightMember]
  · let together : α → α → Prop := fun left right =>
      ((here left right).isLE ∧ (there left right).isLE) ∨
        ((here right left).isLE ∧ (there right left).isLE)
    have symmetric : Std.Symm together := ⟨fun _ _ => Or.symm⟩
    have sorted : (sortBy here items).Pairwise together := by
      refine (hereOrders.pairwise_sortBy.and ?_).imp fun both => .inl both
      rw [same]
      exact thereOrders.pairwise_sortBy
    have answers := sorted.forall (mem_sortBy.mpr leftMember) (mem_sortBy.mpr rightMember) equal
    have hereApart := mt (hereSeparates left leftMember right rightMember) equal
    have thereApart := mt (thereSeparates left leftMember right rightMember) equal
    simp only [together, hereOrders.eq_swap rightMember leftMember,
      thereOrders.eq_swap rightMember leftMember] at answers
    cases one : here left right <;> cases other : there left right <;> simp_all [Ordering.isLE]

end OrdersOn

/-- A comparison and its opposite, both refined by a third, tell which comparison
it was. -/
theorem eq_of_then_eq {here there finer : Ordering} (forward : here.then finer = there.then finer)
    (backward : here.swap.then finer = there.swap.then finer) : here = there := by
  cases here <;> cases there <;> cases finer <;> simp_all [Ordering.then]

end Mdbase.Library
