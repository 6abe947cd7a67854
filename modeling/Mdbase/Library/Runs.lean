import Mathlib
import Mdbase.Library.Delimited

/-!
# Spans between equal runs of a mark

A text is cut into its items and its maximal runs of a mark. A run opens a span that goes up to the
next run of the same length; a run without one is kept. Reading such a text is a walk over the
states "outside" and "in a span of some length", in which every run swaps two states, so that two
readings that differ once never agree again.

A scan that gives a run up may also lose what it looked at. It still finds the same text when there
was nothing to look at, and only then.
-/

namespace Mdbase.Library

/-- A piece of a text: an item that is no mark, or a maximal run of marks. -/
inductive Piece (α : Type) where
  | plain (item : α)
  | run (length : Nat)
  deriving DecidableEq

variable {α : Type}

namespace Piece

/-- The text of a piece. -/
def text (mark : α) : Piece α → List α
  | plain item => [item]
  | run length => List.replicate length mark

/-- The length of a piece. -/
def width : Piece α → Nat
  | plain _ => 1
  | run length => length

/-- A piece is a run. -/
def IsRun : Piece α → Prop
  | plain _ => False
  | run _ => True

/-- A piece is what it should be. -/
def Proper (mark : α) : Piece α → Prop
  | plain item => item ≠ mark
  | run length => 0 < length

end Piece

/-- The text of some pieces. -/
def render (mark : α) (pieces : List (Piece α)) : List α := pieces.flatMap (Piece.text mark)

/-- The length of some pieces. -/
def width (pieces : List (Piece α)) : Nat := (pieces.map Piece.width).sum

/-- Pieces of a text: runs are maximal. -/
structure Maximal (mark : α) (pieces : List (Piece α)) : Prop where
  proper : ∀ piece ∈ pieces, piece.Proper mark
  apart : pieces.IsChain fun left right => left.IsRun → ¬right.IsRun

/-- The pieces behind the next run of some length. -/
def afterRun (length : Nat) : List (Piece α) → Option (List (Piece α))
  | [] => none
  | .plain _ :: rest => afterRun length rest
  | .run other :: rest => if other = length then some rest else afterRun length rest

variable {length : Nat} {pieces later : List (Piece α)}

/-- What stands behind the first run of a length. -/
theorem afterRun_eq_some (found : afterRun length pieces = some later) :
    ∃ inside, pieces = inside ++ .run length :: later ∧ .run length ∉ inside := by
  induction pieces with
  | nil => cases found
  | cons piece rest ih =>
    cases piece with
    | plain item =>
      obtain ⟨inside, rfl, free⟩ := ih found
      exact ⟨.plain item :: inside, rfl, by simp [free]⟩
    | run other =>
      rw [afterRun] at found
      split_ifs at found with same
      · cases found
        exact ⟨[], by rw [same]; rfl, List.not_mem_nil⟩
      · obtain ⟨inside, rfl, free⟩ := ih found
        refine ⟨.run other :: inside, rfl, ?_⟩
        simpa [free] using Ne.symm same

theorem afterRun_append {length : Nat} {inside later : List (Piece α)}
    (free : .run length ∉ inside) :
    afterRun length (inside ++ .run length :: later) = some later := by
  induction inside with
  | nil => exact if_pos rfl
  | cons piece rest ih =>
    rw [List.mem_cons, not_or] at free
    cases piece with
    | plain item => exact ih free.2
    | run other =>
      rw [List.cons_append, afterRun, if_neg fun same => free.1 (by rw [same])]
      exact ih free.2

theorem afterRun_eq_none_iff {pieces : List (Piece α)} :
    afterRun length pieces = none ↔ .run length ∉ pieces := by
  induction pieces with
  | nil => simp [afterRun]
  | cons piece rest ih =>
    cases piece with
    | plain item => simpa [afterRun] using ih
    | run other =>
      rw [afterRun]
      split_ifs with same
      · simp [same]
      · simpa [Ne.symm same] using ih

/-- The search for a closing run goes forward. -/
theorem length_afterRun_lt
    (found : afterRun length pieces = some later) : later.length < pieces.length := by
  obtain ⟨inside, rfl, -⟩ := afterRun_eq_some found
  rw [List.length_append, List.length_cons]
  omega

/-- The pieces without the spans: a run that opens no span is kept. -/
def withoutSpans : List (Piece α) → List (Piece α)
  | [] => []
  | .plain item :: rest => .plain item :: withoutSpans rest
  | .run length :: rest =>
    match _found : afterRun length rest with
    | some later => withoutSpans later
    | none => .run length :: withoutSpans rest
termination_by pieces => pieces.length
decreasing_by
  · exact Nat.lt_succ_self _
  · exact Nat.lt_succ_of_lt (length_afterRun_lt _found)
  · exact Nat.lt_succ_self _

/-- The pieces from where less than some length is left. -/
def skip (length : Nat) : List (Piece α) → List (Piece α)
  | [] => []
  | piece :: rest => if length ≤ width (piece :: rest) then skip length rest else piece :: rest

theorem suffix_skip (length : Nat) (pieces : List (Piece α)) : skip length pieces <:+ pieces := by
  induction pieces with
  | nil => exact List.suffix_refl _
  | cons piece rest ih =>
    rw [skip]
    split_ifs
    · exact ih.trans (List.suffix_cons _ _)
    · exact List.suffix_refl _

/-- The pieces that are left by a scan that gives up the runs that open no span: what it looked at
is lost. -/
def scanned : List (Piece α) → List (Piece α)
  | [] => []
  | .plain item :: rest => .plain item :: scanned rest
  | .run length :: rest =>
    match _found : afterRun length rest with
    | some later => scanned later
    | none => .run length :: scanned (skip length rest)
termination_by pieces => pieces.length
decreasing_by
  · exact Nat.lt_succ_self _
  · exact Nat.lt_succ_of_lt (length_afterRun_lt _found)
  · exact Nat.lt_succ_of_le (suffix_skip _ _).length_le

/-- Every run that opens no span has less behind it than its own length. -/
def Settled : List (Piece α) → Prop
  | [] => True
  | .plain _ :: rest => Settled rest
  | .run length :: rest =>
    match _found : afterRun length rest with
    | some later => Settled later
    | none => width rest < length ∧ Settled rest
termination_by pieces => pieces.length
decreasing_by
  · exact Nat.lt_succ_self _
  · exact Nat.lt_succ_of_lt (length_afterRun_lt _found)
  · exact Nat.lt_succ_self _

variable {length : Nat} {rest later : List (Piece α)}

theorem withoutSpans_of_found (found : afterRun length rest = some later) :
    withoutSpans (.run length :: rest) = withoutSpans later := by
  rw [withoutSpans]
  split <;> simp_all

theorem withoutSpans_of_none (alone : afterRun length rest = none) :
    withoutSpans (.run length :: rest) = .run length :: withoutSpans rest := by
  rw [withoutSpans]
  split <;> simp_all

theorem scanned_of_found (found : afterRun length rest = some later) :
    scanned (.run length :: rest) = scanned later := by
  rw [scanned]
  split <;> simp_all

theorem scanned_of_none (alone : afterRun length rest = none) :
    scanned (.run length :: rest) = .run length :: scanned (skip length rest) := by
  rw [scanned]
  split <;> simp_all

theorem settled_of_found (found : afterRun length rest = some later) :
    Settled (.run length :: rest) ↔ Settled later := by
  rw [Settled]
  split <;> simp_all

theorem settled_of_none (alone : afterRun length rest = none) :
    Settled (.run length :: rest) ↔ width rest < length ∧ Settled rest := by
  rw [Settled]
  split <;> simp_all

/-- The state behind some pieces: outside, or in a span of some length. -/
def phase (state : Option Nat) : List (Piece α) → Option Nat
  | [] => state
  | .plain _ :: rest => phase state rest
  | .run length :: rest => phase (Equiv.swap none (some length) state) rest

/-- The items outside of spans. -/
def kept (state : Option Nat) : List (Piece α) → List α
  | [] => []
  | .plain item :: rest => if state = none then item :: kept state rest else kept state rest
  | .run length :: rest => kept (Equiv.swap none (some length) state) rest

theorem phase_append (state : Option Nat) (before after : List (Piece α)) :
    phase state (before ++ after) = phase (phase state before) after := by
  induction before generalizing state with
  | nil => rfl
  | cons piece before ih =>
    cases piece with
    | plain item => exact ih state
    | run length => exact ih _

theorem kept_append (state : Option Nat) (before after : List (Piece α)) :
    kept state (before ++ after) = kept state before ++ kept (phase state before) after := by
  induction before generalizing state with
  | nil => rfl
  | cons piece before ih =>
    cases piece with
    | plain item =>
      rw [List.cons_append, kept, kept, phase, ih]
      split_ifs <;> rfl
    | run length => exact ih _

theorem phase_injective (pieces : List (Piece α)) :
    Function.Injective fun state => phase state pieces := by
  induction pieces with
  | nil => exact fun _ _ same => same
  | cons piece rest ih =>
    cases piece with
    | plain item => exact ih
    | run length => exact ih.comp (Equiv.swap none (some length)).injective

/-- A span goes on until the next run of its length, and nothing in it is kept. -/
theorem walk_inside {inside : List (Piece α)} (free : .run length ∉ inside) :
    phase (some length) inside = some length ∧ kept (some length) inside = [] := by
  induction inside with
  | nil => exact ⟨rfl, rfl⟩
  | cons piece rest ih =>
    rw [List.mem_cons, not_or] at free
    cases piece with
    | plain item => simpa [phase, kept] using ih free.2
    | run other =>
      have stays : Equiv.swap none (some other) (some length) = some length :=
        Equiv.swap_apply_of_ne_of_ne nofun fun same => free.1 (by rw [Option.some.inj same])
      rw [phase, kept, stays]
      exact ih free.2

theorem walk_span (found : afterRun length rest = some later) :
    phase none (.run length :: rest) = phase none later ∧
      kept none (.run length :: rest) = kept none later := by
  obtain ⟨inside, rfl, free⟩ := afterRun_eq_some found
  have walk := walk_inside free
  rw [phase, kept, Equiv.swap_apply_left, phase_append, kept_append, walk.1, walk.2, phase, kept,
    Equiv.swap_apply_right, List.nil_append]
  exact ⟨rfl, rfl⟩

/-- A way to read pieces: spans are left out, and it goes on somewhere behind a run that is kept. -/
structure Reading (read : List (Piece α) → List (Piece α))
    (onward : Nat → List (Piece α) → List (Piece α)) : Prop where
  empty : read [] = []
  item : ∀ item rest, read (.plain item :: rest) = .plain item :: read rest
  span : ∀ {length rest later}, afterRun length rest = some later →
    read (.run length :: rest) = read later
  alone : ∀ {length rest}, afterRun length rest = none →
    read (.run length :: rest) = .run length :: read (onward length rest)

theorem reading_withoutSpans : Reading (withoutSpans (α := α)) fun _ rest => rest where
  empty := by rw [withoutSpans]
  item := fun _ _ => by rw [withoutSpans]
  span := withoutSpans_of_found
  alone := withoutSpans_of_none

theorem reading_scanned : Reading (scanned (α := α)) skip where
  empty := by rw [scanned]
  item := fun _ _ => by rw [scanned]
  span := scanned_of_found
  alone := scanned_of_none

variable {read : List (Piece α) → List (Piece α)}
  {onward : Nat → List (Piece α) → List (Piece α)}

/-- What is read starts with the items outside of spans. Then either all is read, or a run is kept
that is the last of its length. -/
theorem Reading.walk (reading : Reading read onward) (pieces : List (Piece α)) :
    (phase none pieces = none ∧ read pieces = (kept none pieces).map .plain) ∨
      ∃ before length after, pieces = before ++ .run length :: after ∧
        phase none before = none ∧ .run length ∉ after ∧
          read pieces = (kept none before).map .plain ++ .run length :: read (onward length after) := by
  induction size : pieces.length using Nat.strong_induction_on generalizing pieces with
  | _ size ih =>
    cases pieces with
    | nil => exact .inl ⟨rfl, reading.empty⟩
    | cons piece rest =>
      cases piece with
      | plain item =>
        rw [reading.item]
        rcases ih rest.length (by simp [← size]) rest rfl with
          ⟨outside, whole⟩ | ⟨before, length, after, rfl, outside, last, whole⟩
        · exact .inl ⟨outside, by rw [whole]; rfl⟩
        · exact .inr ⟨.plain item :: before, length, after, rfl, outside, last, by rw [whole]; rfl⟩
      | run length =>
        cases found : afterRun length rest with
        | none =>
          exact .inr ⟨[], length, rest, rfl, rfl, afterRun_eq_none_iff.mp found,
            reading.alone found⟩
        | some later =>
          have walk := walk_span found
          have shorter := length_afterRun_lt found
          rw [reading.span found, walk.1, walk.2]
          rcases ih later.length (by simp only [← size, List.length_cons]; omega)
            later rfl with
            ⟨outside, whole⟩ | ⟨before, other, after, rfl, outside, last, whole⟩
          · exact .inl ⟨outside, whole⟩
          · obtain ⟨inside, rfl, free⟩ := afterRun_eq_some found
            have span := walk_span (@afterRun_append α length inside before free)
            refine .inr ⟨.run length :: inside ++ .run length :: before, other, after,
              by simp, ?_, last, ?_⟩
            · exact span.1.trans outside
            · rw [whole, ← span.2]
              rfl

variable {mark : α} {pieces : List (Piece α)}

@[simp] theorem render_nil : render mark [] = [] := rfl

@[simp] theorem render_cons (piece : Piece α) (rest : List (Piece α)) :
    render mark (piece :: rest) = piece.text mark ++ render mark rest := List.flatMap_cons

@[simp] theorem render_append (before after : List (Piece α)) :
    render mark (before ++ after) = render mark before ++ render mark after :=
  List.flatMap_append

theorem render_plain (items : List α) : render mark (items.map .plain) = items := by
  induction items with
  | nil => rfl
  | cons item items ih => exact congrArg (List.cons item) ih

theorem length_render (pieces : List (Piece α)) : (render mark pieces).length = width pieces := by
  induction pieces with
  | nil => rfl
  | cons piece rest ih =>
    rw [render_cons, List.length_append, ih]
    cases piece <;> simp [Piece.text, width, Piece.width]

theorem Maximal.suffix (maximal : Maximal mark pieces) (suffix : rest <:+ pieces) :
    Maximal mark rest where
  proper := fun piece member => maximal.proper piece (suffix.subset member)
  apart := maximal.apart.suffix suffix

theorem Maximal.tail {piece : Piece α} (maximal : Maximal mark (piece :: rest)) :
    Maximal mark rest :=
  maximal.suffix (List.suffix_cons _ _)

theorem Maximal.behind_run (maximal : Maximal mark (.run length :: rest)) (more : rest ≠ []) :
    ∃ item others, rest = .plain item :: others := by
  cases rest with
  | nil => exact absurd rfl more
  | cons piece others =>
    cases piece with
    | plain item => exact ⟨item, others, rfl⟩
    | run other => exact absurd trivial ((List.isChain_cons_cons.mp maximal.apart).1 trivial)

theorem Maximal.head?_render (maximal : Maximal mark (.run length :: rest)) :
    (render mark rest).head? ≠ some mark := by
  by_cases more : rest = []
  · rw [more]
    nofun
  · obtain ⟨item, others, rfl⟩ := maximal.behind_run more
    exact fun same => maximal.tail.proper _ List.mem_cons_self (Option.some.inj same)

theorem Reading.head?_behind (reading : Reading read onward)
    (maximal : Maximal mark (.run length :: rest)) :
    (render mark (read rest)).head? ≠ some mark := by
  by_cases more : rest = []
  · rw [more, reading.empty]
    nofun
  · obtain ⟨item, others, rfl⟩ := maximal.behind_run more
    rw [reading.item, render_cons]
    exact fun same => maximal.tail.proper _ List.mem_cons_self (Option.some.inj same)

variable {item : α}

theorem mem_of_mem_kept {state : Option Nat} (member : item ∈ kept state pieces) :
    .plain item ∈ pieces := by
  induction pieces generalizing state with
  | nil => cases member
  | cons piece rest ih =>
    cases piece with
    | plain other =>
      rw [kept] at member
      split_ifs at member
      · rcases List.mem_cons.mp member with rfl | later
        · exact List.mem_cons_self
        · exact List.mem_cons_of_mem _ (ih later)
      · exact List.mem_cons_of_mem _ (ih member)
    | run other => exact List.mem_cons_of_mem _ (ih member)

theorem Maximal.not_mem_kept (maximal : Maximal mark pieces) (state : Option Nat) :
    mark ∉ kept state pieces :=
  fun member => maximal.proper _ (mem_of_mem_kept member) rfl

/-- Two walks that start at different pieces and end outside keep different items. -/
theorem kept_ne {lost before : List (Piece α)} (outside : phase none before = none)
    (whole : phase none (.plain item :: lost ++ before) = none) :
    kept none (.plain item :: lost ++ before) ≠ kept none before := by
  rw [phase_append] at whole
  have start := phase_injective before (whole.trans outside.symm)
  intro same
  rw [kept_append, start] at same
  have lengths := congrArg List.length same
  rw [kept, if_pos rfl] at lengths
  simp only [List.length_append, List.length_cons] at lengths
  omega

theorem replicate_append_eq {fewer more : Nat} {left right : List α} (le : fewer ≤ more)
    (same : List.replicate fewer mark ++ left = List.replicate more mark ++ right) :
    left = List.replicate (more - fewer) mark ++ right := by
  obtain ⟨extra, rfl⟩ := Nat.exists_eq_add_of_le le
  rw [List.replicate_add, List.append_assoc] at same
  rw [Nat.add_sub_cancel_left]
  exact List.append_cancel_left same

theorem head?_replicate_append {count : Nat} (positive : 0 < count) (after : List α) :
    (List.replicate count mark ++ after).head? = some mark := by
  obtain ⟨more, rfl⟩ := Nat.exists_eq_succ_of_ne_zero positive.ne'
  rfl

/-- Where a run of marks is rendered, the scan goes on behind it. -/
theorem exists_onward {count : Nat} {after : List α} (positive : 0 < count)
    (maximal : Maximal mark pieces) (stops : after.head? ≠ some mark)
    (same : render mark (scanned pieces) = List.replicate count mark ++ after) :
    ∃ rest, rest <:+ pieces ∧ rest.length < pieces.length ∧ render mark (scanned rest) = after := by
  induction size : pieces.length using Nat.strong_induction_on generalizing pieces count with
  | _ size ih =>
    cases pieces with
    | nil =>
      have starts := congrArg List.head? same
      rw [head?_replicate_append positive, reading_scanned.empty] at starts
      cases starts
    | cons piece rest =>
      cases piece with
      | plain item =>
        have starts := congrArg List.head? same
        rw [head?_replicate_append positive, reading_scanned.item] at starts
        exact absurd (Option.some.inj starts) (maximal.proper _ List.mem_cons_self)
      | run length =>
        cases found : afterRun length rest with
        | some later =>
          obtain ⟨inside, rfl, -⟩ := afterRun_eq_some found
          have behind := maximal.tail.suffix (List.suffix_append inside _)
          rw [scanned_of_found found] at same
          refine absurd ?_ (reading_scanned.head?_behind behind)
          rw [same, head?_replicate_append positive]
        | none =>
          have onward := suffix_skip length rest
          have shorter := onward.length_le
          rw [scanned_of_none found, render_cons, Piece.text] at same
          rcases Nat.lt_trichotomy length count with fewer | rfl | more
          · obtain ⟨last, suffix, within, text⟩ := ih (skip length rest).length
              (by simp only [← size, List.length_cons]; omega) (by omega)
              (maximal.tail.suffix onward) (replicate_append_eq fewer.le same) rfl
            refine ⟨last, (suffix.trans onward).trans (List.suffix_cons _ _), ?_, text⟩
            rw [← size, List.length_cons]
            omega
          · refine ⟨skip length rest, onward.trans (List.suffix_cons _ _), ?_,
              List.append_cancel_left same⟩
            rw [← size, List.length_cons]
            omega
          · rw [replicate_append_eq more.le same.symm, head?_replicate_append (by omega)] at stops
            exact absurd rfl stops

theorem append_replicate_inj {left right : List α} {leftCount rightCount : Nat}
    {leftRest rightRest : List α} (leftFree : mark ∉ left) (rightFree : mark ∉ right)
    (leftPositive : 0 < leftCount) (rightPositive : 0 < rightCount)
    (same : left ++ (List.replicate leftCount mark ++ leftRest) =
      right ++ (List.replicate rightCount mark ++ rightRest)) :
    left = right ∧
      List.replicate leftCount mark ++ leftRest = List.replicate rightCount mark ++ rightRest := by
  obtain ⟨more, rfl⟩ := Nat.exists_eq_succ_of_ne_zero leftPositive.ne'
  obtain ⟨others, rfl⟩ := Nat.exists_eq_succ_of_ne_zero rightPositive.ne'
  rw [List.replicate_succ, List.replicate_succ, List.cons_append, List.cons_append] at same ⊢
  obtain ⟨start, rest⟩ := cut_first_inj leftFree rightFree same
  exact ⟨start, congrArg (List.cons mark) rest⟩

theorem lost_of_same_run {lost left leftRest right rightRest : List (Piece α)}
    (leftLast : .run length ∉ leftRest) (rightLast : .run length ∉ rightRest)
    (leftOutside : phase none left = none) (rightOutside : phase none right = none)
    (parts : left ++ .run length :: leftRest =
      .plain item :: lost ++ (right ++ .run length :: rightRest)) :
    kept none left ≠ kept none right := by
  rw [← List.append_assoc] at parts
  obtain ⟨rfl, -⟩ := cut_last_inj leftLast rightLast parts
  exact kept_ne rightOutside leftOutside

theorem width_le_of_suffix (suffix : rest <:+ pieces) : width rest ≤ width pieces := by
  obtain ⟨before, rfl⟩ := suffix
  simp [width]

theorem le_width_of_mem (member : .run length ∈ pieces) : length ≤ width pieces :=
  List.le_sum_of_mem (List.mem_map_of_mem (f := Piece.width) member)

theorem skip_of_narrow (narrow : width rest < length) : skip length rest = rest := by
  cases rest with
  | nil => rfl
  | cons piece others => rw [skip, if_neg (Nat.not_le_of_lt narrow)]

theorem width_skip_lt (positive : 0 < length) (pieces : List (Piece α)) :
    width (skip length pieces) < length := by
  induction pieces with
  | nil => exact positive
  | cons piece rest ih =>
    rw [skip]
    split_ifs with wide
    · exact ih
    · exact Nat.lt_of_not_le wide

/-- A scan that went on behind a shorter run ended behind a longer one. -/
theorem length_lt_of_onward {whole left right last : List (Piece α)} {longer shorter : Nat}
    (leftSuffix : .run longer :: left <:+ whole) (rightSuffix : .run shorter :: right <:+ whole)
    (less : shorter < longer) (positive : 0 < shorter)
    (within : last.length < (skip shorter right).length) : last.length < left.length := by
  have onward := suffix_skip shorter right
  have bound := onward.length_le
  have differ : Piece.run (α := α) longer ≠ .run shorter := fun same =>
    less.ne' (Piece.run.inj same)
  rcases List.suffix_or_suffix_of_suffix leftSuffix rightSuffix with inner | inner
  · rcases List.suffix_cons_iff.mp inner with same | inner
    · exact absurd (List.cons.inj same).1 differ
    · by_contra beyond
      have covered : .run longer :: left <:+ skip shorter right :=
        List.suffix_of_suffix_length_le inner onward (by rw [List.length_cons]; omega)
      have narrow := width_skip_lt positive right
      have wide := width_le_of_suffix covered
      simp only [width, List.map_cons, Piece.width, List.sum_cons] at wide narrow
      omega
  · rcases List.suffix_cons_iff.mp inner with same | inner
    · exact absurd (List.cons.inj same).1.symm differ
    · have := inner.length_le
      rw [List.length_cons] at this
      omega

/-- Reading behind a lost item never gives the text without spans. -/
theorem render_ne {lost rest : List (Piece α)}
    (maximal : Maximal mark (.plain item :: lost ++ rest)) :
    render mark (withoutSpans (.plain item :: lost ++ rest)) ≠ render mark (scanned rest) := by
  induction size : (.plain item :: lost ++ rest).length using Nat.strong_induction_on
    generalizing item lost rest with
  | _ size ih =>
    intro same
    have restMaximal := maximal.suffix (List.suffix_append (.plain item :: lost) rest)
    rcases reading_withoutSpans.walk (.plain item :: lost ++ rest) with
      ⟨leftOutside, leftRead⟩ | ⟨left, leftCount, leftRest, leftParts, leftOutside, leftLast, leftRead⟩
    · rcases reading_scanned.walk rest with
        ⟨rightOutside, rightRead⟩ | ⟨right, count, rightRest, rfl, rightOutside, rightLast, rightRead⟩
      · rw [leftRead, rightRead, render_plain, render_plain] at same
        exact kept_ne rightOutside leftOutside same
      · have positive := restMaximal.proper (.run count) (by simp)
        rw [leftRead, rightRead, render_append, render_plain, render_plain] at same
        refine maximal.not_mem_kept none (same ▸ List.mem_append_right _ ?_)
        exact List.mem_append_left _ (List.mem_replicate.mpr ⟨positive.ne', rfl⟩)
    · have leftSuffix : .run leftCount :: leftRest <:+ .plain item :: lost ++ rest :=
        leftParts ▸ List.suffix_append _ _
      have leftMaximal := maximal.suffix leftSuffix
      have leftPositive := leftMaximal.proper (.run leftCount) List.mem_cons_self
      have leftFree : mark ∉ kept none left := by
        intro member
        refine maximal.proper (.plain mark) ?_ rfl
        rw [leftParts]
        exact List.mem_append_left _ (mem_of_mem_kept member)
      rcases reading_scanned.walk rest with
        ⟨rightOutside, rightRead⟩ | ⟨right, count, rightRest, rfl, rightOutside, rightLast, rightRead⟩
      · rw [leftRead, rightRead, render_append, render_plain, render_plain] at same
        refine restMaximal.not_mem_kept none (same ▸ List.mem_append_right _ ?_)
        exact List.mem_append_left _ (List.mem_replicate.mpr ⟨leftPositive.ne', rfl⟩)
      · have rightSuffix : .run count :: rightRest <:+
            .plain item :: lost ++ (right ++ .run count :: rightRest) :=
          (List.suffix_append right _).trans (List.suffix_append _ _)
        have rightMaximal := maximal.suffix rightSuffix
        have positive := rightMaximal.proper (.run count) List.mem_cons_self
        have rightFree : mark ∉ kept none right := fun member =>
          restMaximal.proper (.plain mark) (List.mem_append_left _ (mem_of_mem_kept member)) rfl
        rw [leftRead, rightRead, render_append, render_append, render_plain, render_plain] at same
        obtain ⟨start, runs⟩ := append_replicate_inj leftFree rightFree leftPositive positive same
        rcases Nat.lt_trichotomy leftCount count with fewer | rfl | more
        · refine reading_withoutSpans.head?_behind leftMaximal ?_
          have behind : render mark (withoutSpans leftRest) = List.replicate (count - leftCount)
              mark ++ render mark (scanned (skip count rightRest)) :=
            replicate_append_eq fewer.le runs
          rw [behind, head?_replicate_append (by omega)]
        · exact lost_of_same_run leftLast rightLast leftOutside rightOutside leftParts.symm start
        · obtain ⟨last, suffix, within, text⟩ := exists_onward (by omega)
            (rightMaximal.tail.suffix (suffix_skip count rightRest))
            (reading_withoutSpans.head?_behind leftMaximal)
            (replicate_append_eq more.le runs.symm)
          have shorter := length_lt_of_onward leftSuffix rightSuffix more positive within
          have inner : last <:+ leftRest := by
            refine List.suffix_of_suffix_length_le ?_ ((List.suffix_cons _ _).trans leftSuffix)
              shorter.le
            exact (suffix.trans (suffix_skip count rightRest)).trans
              ((List.suffix_cons _ _).trans rightSuffix)
          obtain ⟨lostHere, parts⟩ := inner
          cases lostHere with
          | nil =>
            rw [← parts] at shorter
            exact absurd shorter (Nat.lt_irrefl _)
          | cons piece others =>
            obtain ⟨next, rest, begins⟩ := leftMaximal.behind_run (by rw [← parts]; nofun)
            have first : piece = .plain next := by
              rw [begins] at parts
              exact (List.cons.inj parts).1
            subst first
            rw [← parts] at leftMaximal text shorter
            refine ih _ ?_ leftMaximal.tail rfl text.symm
            rw [← size, leftParts, ← parts]
            simp only [List.length_append, List.length_cons]
            omega

/-- A scan that gives runs up finds the text without spans exactly when every run that opens no
span has less behind it than its own length. -/
theorem scanned_eq_iff (maximal : Maximal mark pieces) :
    render mark (scanned pieces) = render mark (withoutSpans pieces) ↔ Settled pieces := by
  induction size : pieces.length using Nat.strong_induction_on generalizing pieces with
  | _ size ih =>
    cases pieces with
    | nil =>
      rw [scanned, withoutSpans, Settled]
      exact iff_of_true rfl trivial
    | cons piece rest =>
      have smaller : rest.length < (piece :: rest).length := Nat.lt_succ_self _
      rw [size] at smaller
      cases piece with
      | plain item =>
        rw [scanned, withoutSpans, Settled, render_cons, render_cons, List.append_cancel_left_eq]
        exact ih _ smaller maximal.tail rfl
      | run length =>
        cases found : afterRun length rest with
        | some later =>
          obtain ⟨inside, rfl, -⟩ := afterRun_eq_some found
          have shorter := length_afterRun_lt found
          rw [scanned_of_found found, withoutSpans_of_found found, settled_of_found found]
          refine ih _ (by omega) ?_ rfl
          exact (maximal.tail.suffix (List.suffix_append inside _)).tail
        | none =>
          rw [scanned_of_none found, withoutSpans_of_none found, settled_of_none found,
            render_cons, render_cons, List.append_cancel_left_eq]
          by_cases narrow : width rest < length
          · rw [and_iff_right narrow, skip_of_narrow narrow]
            exact ih _ smaller maximal.tail rfl
          · refine iff_of_false (fun same => ?_) fun facts => narrow facts.1
            have positive := maximal.proper (.run length) List.mem_cons_self
            obtain ⟨item, others, rfl⟩ := maximal.behind_run (by
              rintro rfl
              exact narrow positive)
            rw [skip, if_pos (Nat.le_of_not_lt narrow)] at same
            obtain ⟨lost, parts⟩ := suffix_skip length others
            have whole : .plain item :: lost ++ skip length others = .plain item :: others :=
              congrArg (List.cons (Piece.plain item)) parts
            rw [← whole] at same
            exact render_ne (whole ▸ maximal.tail) same.symm

variable [DecidableEq α]

/-- The pieces of a text. -/
def piecesOf (mark : α) : List α → List (Piece α)
  | [] => []
  | item :: rest =>
    if item = mark then
      .run ((rest.takeWhile (· = mark)).length + 1) :: piecesOf mark (rest.dropWhile (· = mark))
    else .plain item :: piecesOf mark rest
termination_by text => text.length
decreasing_by
  · exact Nat.lt_succ_of_le (List.dropWhile_sublist _).length_le
  · exact Nat.lt_succ_self _

theorem takeWhile_eq_replicate (text : List α) :
    text.takeWhile (· = mark) = List.replicate (text.takeWhile (· = mark)).length mark :=
  List.eq_replicate_of_mem fun item member => by simpa using List.mem_takeWhile_imp member

theorem render_piecesOf (text : List α) : render mark (piecesOf mark text) = text := by
  fun_induction piecesOf mark text with
  | case1 => rfl
  | case2 rest ih =>
    rw [render_cons, ih, Piece.text, List.replicate_succ, ← takeWhile_eq_replicate,
      List.cons_append, List.takeWhile_append_dropWhile]
  | case3 item rest other ih =>
    rw [render_cons, ih]
    rfl

/-- The runs that a text is cut into are maximal. -/
theorem maximal_piecesOf (text : List α) : Maximal mark (piecesOf mark text) := by
  fun_induction piecesOf mark text with
  | case1 => exact ⟨nofun, .nil⟩
  | case2 rest ih =>
    refine ⟨List.forall_mem_cons.mpr ⟨Nat.succ_pos _, ih.proper⟩, ?_⟩
    refine List.isChain_cons.mpr ⟨fun piece first _ => ?_, ih.apart⟩
    cases behind : rest.dropWhile (· = mark) with
    | nil =>
      rw [behind, piecesOf] at first
      cases first
    | cons item others =>
      have other : item ≠ mark := by
        have stops := List.head?_dropWhile_not (· = mark) rest
        rw [behind] at stops
        simpa using stops
      rw [behind, piecesOf, if_neg other] at first
      cases first
      exact id
  | case3 item rest other ih =>
    refine ⟨List.forall_mem_cons.mpr ⟨other, ih.proper⟩, ?_⟩
    exact List.isChain_cons.mpr ⟨fun _ _ => False.elim, ih.apart⟩

end Mdbase.Library
