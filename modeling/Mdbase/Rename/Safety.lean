import Mdbase.Rename.Segments

/-!
# Panics of the rewriting

A body is cut into the segments of its lines, with fenced lines as they are and a segment for every
line end. Rewriting it is rewriting its segments, so that the only panic is that of a link whose
opening parenthesis ends its line.
-/

namespace Mdbase.Rename

open Library

variable {ε : Type}

/-- The segments of every line: a line in a fenced block, and one that opens it, is a text. -/
def lineSegments : Option Fence → List Text → List (List Segment)
  | _, [] => []
  | none, line :: lines =>
    match fenceOpened line with
    | some fence => [.text line] :: lineSegments (some fence) lines
    | none => segments line :: lineSegments none lines
  | some fence, line :: lines =>
    [.text line] :: lineSegments (if fence.closedBy line then none else some fence) lines

/-- The segments of a body. -/
def bodySegments (body : Text) : List Segment :=
  [.text ['\n']].intercalate (lineSegments none (body.splitOn '\n'))

theorem sources_lineSegments (fence : Option Fence) (lines : List Text) :
    (lineSegments fence lines).map (·.flatMap Segment.source) = lines := by
  fun_induction lineSegments fence lines with
  | case1 => rfl
  | case2 line lines fence opened ih => simp [ih, Segment.source]
  | case3 line lines opened ih => simp [ih, source_segments]
  | case4 fence line lines ih =>
    simp only [List.map_cons, ih]
    simp [Segment.source]

theorem flatMap_concat {α : Type} {mark : α} {lines : List (List α)} (nonempty : lines ≠ []) :
    lines.flatMap (· ++ [mark]) = [mark].intercalate lines ++ [mark] := by
  induction lines with
  | nil => exact absurd rfl nonempty
  | cons line lines ih =>
    cases lines with
    | nil => simp
    | cons next rest =>
      rw [List.flatMap_cons, ih (List.cons_ne_nil _ _), List.intercalate_cons_cons,
        List.append_assoc, List.append_assoc, List.append_assoc]

theorem mapM_intercalate {α β φ : Type} {compute : α → Except φ β} {mark : α} {image : β}
    (marks : compute mark = .ok image) (parts : List (List α)) :
    ([mark].intercalate parts).mapM compute =
      (parts.mapM fun part : List α => part.mapM compute).map [image].intercalate := by
  induction parts with
  | nil => rfl
  | cons part parts ih =>
    cases parts with
    | nil =>
      rw [List.intercalate_singleton, List.mapM_cons]
      cases part.mapM compute with
      | error _ => rfl
      | ok images => simp [Except.map, bind, Except.bind, pure, Except.pure]
    | cons next rest =>
      have whole : (part :: next :: rest).mapM (fun part : List α => part.mapM compute) =
          part.mapM compute >>= fun images =>
            (next :: rest).mapM (fun part : List α => part.mapM compute) >>= fun others =>
              pure (images :: others) := List.mapM_cons
      rw [List.intercalate_cons_cons, List.mapM_append, List.mapM_append, ih, whole]
      cases part.mapM compute with
      | error _ => rfl
      | ok images =>
        cases rows : (next :: rest).mapM fun part : List α => part.mapM compute with
        | error _ => simp [Except.map, bind, Except.bind, pure, Except.pure, marks]
        | ok others =>
          have nonempty : others ≠ [] := by
            rintro rfl
            cases forall₂_of_mapM_ok rows
          simp [Except.map, bind, Except.bind, pure, Except.pure, marks,
            List.intercalate_cons_of_ne_nil nonempty]

theorem flatMap_intercalate {α β : Type} (image : α → List β) (mark : α) (parts : List (List α)) :
    ([mark].intercalate parts).flatMap image =
      (image mark).intercalate (parts.map (·.flatMap image)) := by
  induction parts with
  | nil => rfl
  | cons part parts ih =>
    cases parts with
    | nil => simp
    | cons next rest =>
      rw [List.intercalate_cons_cons, List.flatMap_append, List.flatMap_append, ih,
        List.flatMap_singleton]
      exact List.intercalate_cons_cons.symm

theorem source_bodySegments (body : Text) : (bodySegments body).flatMap Segment.source = body := by
  rw [bodySegments, flatMap_intercalate, sources_lineSegments]
  exact List.intercalate_splitOn '\n'

variable {rewriting : Rewriting ε}

theorem mapM_text (line : Text) :
    [Segment.text line].mapM (Segment.rewrite rewriting) = .ok [line] := rfl

/-- The lines of a body are rewritten segment by segment. -/
theorem foldlM_bodyStep (state : BodyState) (lines : List Text) :
    ∃ fence, lines.foldlM (bodyStep rewriting) state =
      ((lineSegments state.fence lines).mapM fun line : List Segment =>
          line.mapM (Segment.rewrite rewriting)).map fun pieces =>
        { fence := fence
          changed := state.changed || decide (pieces.map List.flatten ≠ lines)
          result := state.result ++ pieces.flatMap fun line => line.flatten ++ ['\n'] } := by
  induction lines generalizing state with
  | nil => exact ⟨state.fence, by simp [lineSegments, Except.map, pure, Except.pure]⟩
  | cons line lines ih =>
    obtain ⟨fence, changed, result⟩ := state
    cases fence with
    | none =>
      cases opened : fenceOpened line with
      | some fence =>
        obtain ⟨last, rest⟩ := ih ⟨some fence, changed, result ++ line ++ ['\n']⟩
        refine ⟨last, ?_⟩
        rw [List.foldlM_cons, lineSegments, opened, List.mapM_cons, mapM_text]
        simp only [bodyStep, opened, bind, Except.bind]
        rw [rest]
        dsimp only
        cases (lineSegments (some fence) lines).mapM
          fun line : List Segment => line.mapM (Segment.rewrite rewriting) with
        | error _ => rfl
        | ok pieces => simp [Except.map, pure, Except.pure]
      | none =>
        rw [List.foldlM_cons, lineSegments, opened, List.mapM_cons]
        simp only [bodyStep, opened, replaceLinksInLine_eq]
        cases (segments line).mapM (Segment.rewrite rewriting) with
        | error _ => exact ⟨none, rfl⟩
        | ok parts =>
          obtain ⟨last, rest⟩ := ih ⟨none, changed || parts.flatten ≠ line,
            result ++ parts.flatten ++ ['\n']⟩
          refine ⟨last, ?_⟩
          simp only [Except.map, bind, Except.bind, pure, Except.pure]
          rw [rest]
          dsimp only
          cases (lineSegments none lines).mapM
            fun line : List Segment => line.mapM (Segment.rewrite rewriting) with
          | error _ => rfl
          | ok pieces => simp [Except.map, Bool.or_assoc, imp_iff_not_or]
    | some fence =>
      obtain ⟨last, rest⟩ := ih ⟨if fence.closedBy line then none else some fence,
        changed, result ++ line ++ ['\n']⟩
      refine ⟨last, ?_⟩
      rw [List.foldlM_cons, lineSegments, List.mapM_cons, mapM_text]
      simp only [bodyStep, bind, Except.bind]
      rw [rest]
      dsimp only
      cases (lineSegments (if fence.closedBy line then none else some fence) lines).mapM
        fun line : List Segment => line.mapM (Segment.rewrite rewriting) with
      | error _ => rfl
      | ok pieces => simp [Except.map, pure, Except.pure]

theorem splitOn_joined (mark : Char) {parts : List Text} (nonempty : parts ≠ []) :
    ([mark].intercalate parts).splitOn mark = parts.flatMap (·.splitOn mark) := by
  induction parts with
  | nil => exact absurd rfl nonempty
  | cons part parts ih =>
    cases parts with
    | nil => simp
    | cons next rest =>
      rw [List.intercalate_cons_cons, List.append_assoc, List.singleton_append,
        List.splitOn_append_cons_self, ih (List.cons_ne_nil _ _)]
      rfl

theorem splitOn_pos (mark : Char) (part : Text) : 0 < (part.splitOn mark).length :=
  List.length_pos_iff.mpr (List.splitOn_ne_nil _ _)

theorem length_le_flatMap_splitOn (mark : Char) (parts : List Text) :
    parts.length ≤ (parts.flatMap (·.splitOn mark)).length := by
  induction parts with
  | nil => exact Nat.le_refl _
  | cons part parts ih =>
    have := splitOn_pos mark part
    rw [List.flatMap_cons, List.length_append, List.length_cons]
    omega

theorem flatMap_splitOn_eq {mark : Char} {parts : List Text}
    (length : (parts.flatMap (·.splitOn mark)).length = parts.length) :
    parts.flatMap (·.splitOn mark) = parts := by
  induction parts with
  | nil => rfl
  | cons part parts ih =>
    have positive := splitOn_pos mark part
    have rest := length_le_flatMap_splitOn mark parts
    rw [List.flatMap_cons, List.length_append, List.length_cons] at length
    obtain ⟨whole, only⟩ := List.length_eq_one_iff.mp (show (part.splitOn mark).length = 1 by omega)
    have same := @List.intercalate_splitOn _ part _ _ mark
    rw [only, List.intercalate_singleton] at same
    rw [List.flatMap_cons, only, ih (by omega), same, List.singleton_append]

theorem joined_eq_iff_lines {body : Text} {lines : List Text}
    (length : lines.length = (body.splitOn '\n').length) :
    ['\n'].intercalate lines = body ↔ lines = body.splitOn '\n' := by
  constructor
  · intro same
    have nonempty : lines ≠ [] := by
      rintro rfl
      exact List.splitOn_ne_nil '\n' body (List.length_eq_zero_iff.mp length.symm)
    have split := splitOn_joined '\n' nonempty
    rw [same] at split
    rw [split] at length ⊢
    exact (flatMap_splitOn_eq length.symm).symm
  · rintro rfl
    exact List.intercalate_splitOn '\n'

theorem flatten_rewrite_nil {line : List Segment} {pieces : List Text}
    (empty : line.flatMap Segment.source = [])
    (rewritten : line.mapM (Segment.rewrite rewriting) = .ok pieces) : pieces.flatten = [] := by
  induction line generalizing pieces with
  | nil =>
    cases rewritten
    rfl
  | cons segment line ih =>
    rw [List.flatMap_cons, List.append_eq_nil_iff] at empty
    cases segment with
    | text chars =>
      cases empty.1
      rw [List.mapM_cons] at rewritten
      obtain ⟨piece, first, rest⟩ := bind_eq_ok.mp rewritten
      cases first
      obtain ⟨others, later, same⟩ := bind_eq_ok.mp rest
      cases same
      have ended := ih empty.2 later
      exact ended
    | wikilink embed inner | markdown label href closing
    | dangling label => simp [Segment.source] at empty

theorem endsWith_iff (text suffix : Text) : endsWith text suffix = true ↔ suffix <:+ text := by
  rw [endsWith, List.isSuffixOf_iff_suffix]

theorem intercalate_concat {α : Type} {mark : α} {parts : List (List α)} (nonempty : parts ≠ [])
    (last : List α) :
    [mark].intercalate (parts ++ [last]) = [mark].intercalate parts ++ mark :: last := by
  induction parts with
  | nil => exact absurd rfl nonempty
  | cons part parts ih =>
    cases parts with
    | nil => simp
    | cons next rest =>
      rw [List.cons_append, List.cons_append, List.intercalate_cons_cons,
        List.intercalate_cons_cons, ← List.cons_append, ih (List.cons_ne_nil _ _)]
      simp

theorem lineSegments_concat (fence : Option Fence) (lines : List Text) (last : Text) :
    ∃ before segments, lineSegments fence (lines ++ [last]) = before ++ [segments] ∧
      before.length = lines.length ∧ segments.flatMap Segment.source = last := by
  have sources := sources_lineSegments fence (lines ++ [last])
  obtain ⟨before, after, parts, left, right⟩ := List.map_eq_append_iff.mp sources
  obtain ⟨segments, rest, rfl, whole, none⟩ := List.map_eq_cons_iff.mp right
  rw [List.map_eq_nil_iff.mp none] at parts
  exact ⟨before, segments, parts, by rw [← left, List.length_map], whole⟩

theorem endsWith_of_endsWith {body : Text} {pieces : List (List Text)}
    (ended : endsWith body ['\n'] = true)
    (rewritten : ((lineSegments none (body.splitOn '\n')).mapM fun line : List Segment =>
      line.mapM (Segment.rewrite rewriting)) = .ok pieces) :
    endsWith (['\n'].intercalate (pieces.map List.flatten)) ['\n'] = true := by
  obtain ⟨before, rfl⟩ := (endsWith_iff _ _).mp ended
  rw [show before ++ ['\n'] = before ++ '\n' :: [] from rfl, List.splitOn_append_cons_self,
    List.splitOn_nil] at rewritten
  obtain ⟨first, last, parts, length, source⟩ := lineSegments_concat none (before.splitOn '\n') []
  rw [parts, List.mapM_append] at rewritten
  obtain ⟨images, firstImages, rest⟩ := bind_eq_ok.mp rewritten
  obtain ⟨others, lastImage, same⟩ := bind_eq_ok.mp rest
  cases same
  rw [List.mapM_cons] at lastImage
  obtain ⟨image, here, rest⟩ := bind_eq_ok.mp lastImage
  obtain ⟨none, nothing, same⟩ := bind_eq_ok.mp rest
  cases nothing
  cases same
  have nonempty : images.map List.flatten ≠ [] := by
    have images := (forall₂_of_mapM_ok firstImages).length_eq
    have present := splitOn_pos '\n' before
    rw [← List.length_pos_iff, List.length_map]
    omega
  have last : (image :: [].reverse).map List.flatten = [[]] :=
    congrArg (fun text => [text]) (flatten_rewrite_nil source here)
  rw [List.map_append, last, intercalate_concat nonempty, endsWith_iff]
  exact List.suffix_append _ _

theorem popIf_popIf {body out : Text}
    (ends : endsWith body ['\n'] = true → endsWith out ['\n'] = true) :
    popIf (endsWith body ['\n'] &&
        endsWith (popIf (endsWith (out ++ ['\n']) ['\n'] && !endsWith body ['\n'])
          (out ++ ['\n'])) ['\n', '\n'] && !endsWith body ['\n', '\n'])
        (popIf (endsWith (out ++ ['\n']) ['\n'] && !endsWith body ['\n']) (out ++ ['\n'])) =
      out ++ if endsWith body ['\n', '\n'] then ['\n'] else [] := by
  have added : endsWith (out ++ ['\n']) ['\n'] = true := (endsWith_iff _ _).mpr
    (List.suffix_append _ _)
  cases ended : endsWith body ['\n'] with
  | false =>
    have single : endsWith body ['\n', '\n'] = false := by
      rw [Bool.eq_false_iff, Ne, endsWith_iff] at ended ⊢
      exact fun two => ended ((List.suffix_append ['\n'] ['\n']).trans two)
    simp [added, single, popIf]
  | true =>
    obtain ⟨before, rfl⟩ := (endsWith_iff _ _).mp (ends ended)
    have two : endsWith (before ++ ['\n', '\n']) ['\n', '\n'] = true := (endsWith_iff _ _).mpr
      (List.suffix_append _ _)
    cases double : endsWith body ['\n', '\n'] with
    | false => simp [popIf, two]
    | true => simp [popIf]

/-- Rewriting a body is rewriting its segments: the body changes when its text does, and then it
gains a line end if it ends with two. -/
theorem updateBodyLinks_eq (rewriting : Rewriting ε) (body : Text) :
    updateBodyLinks rewriting body =
      ((bodySegments body).mapM (Segment.rewrite rewriting)).map fun pieces =>
        if pieces.flatten = body then (false, body)
        else (true, pieces.flatten ++ if endsWith body ['\n', '\n'] then ['\n'] else []) := by
  obtain ⟨fence, run⟩ := @foldlM_bodyStep ε rewriting ⟨none, false, []⟩ (body.splitOn '\n')
  have marks : Segment.rewrite rewriting (.text ['\n']) = .ok ['\n'] := rfl
  rw [updateBodyLinks, run, bodySegments, mapM_intercalate marks]
  cases rewritten : (lineSegments none (body.splitOn '\n')).mapM
    fun line : List Segment => line.mapM (Segment.rewrite rewriting) with
  | error _ => rfl
  | ok pieces =>
    have length : (pieces.map List.flatten).length = (body.splitOn '\n').length := by
      rw [List.length_map, ← (forall₂_of_mapM_ok rewritten).length_eq,
        ← List.length_map, sources_lineSegments]
    have nonempty : pieces.map List.flatten ≠ [] := by
      have present := splitOn_pos '\n' body
      rw [← List.length_pos_iff]
      omega
    have whole : ([['\n']].intercalate pieces).flatten =
        ['\n'].intercalate (pieces.map List.flatten) := by
      simpa [List.flatMap_id'] using flatMap_intercalate id ['\n'] pieces
    have result : (pieces.flatMap fun line => line.flatten ++ ['\n']) =
        ['\n'].intercalate (pieces.map List.flatten) ++ ['\n'] := by
      rw [← flatMap_concat nonempty, List.flatMap_map]
    have ends := fun ended => @endsWith_of_endsWith ε rewriting body pieces ended rewritten
    have changes := joined_eq_iff_lines length
    simp only [Except.map, bind, Except.bind, pure, Except.pure, result, List.nil_append, whole,
      popIf_popIf ends, Bool.false_or]
    by_cases same : pieces.map List.flatten = body.splitOn '\n'
    · rw [if_pos (changes.mpr same)]
      simp [same]
    · rw [if_neg fun text => same (changes.mp text)]
      simp [same]

/-- A run over segments comes to a link whose opening parenthesis ends its line: no link before it
is one whose resolution fails. -/
def Dangles (rewriting : Rewriting ε) (segments : List Segment) : Prop :=
  ∃ before label after, segments = before ++ .dangling label :: after ∧
    ∀ segment ∈ before, ∃ accepted, segment.accepted rewriting = .ok accepted

variable {segment : Segment}

theorem accepted_panics_iff :
    segment.accepted rewriting = .error .panic ↔ ∃ label, segment = .dangling label := by
  have resolves : ∀ link, rewriting.resolves link ≠ .error .panic := by
    intro link
    unfold Rewriting.resolves
    cases rewriting.bodyLinkResolvesTo link <;> simp [Except.mapError]
  cases segment with
  | text chars => simp [Segment.accepted]
  | wikilink embed inner => simpa [Segment.accepted] using resolves _
  | markdown label href closing =>
    simp only [Segment.accepted, Rewriting.accepts, reduceCtorEq, exists_false, iff_false]
    split_ifs
    · simp
    · exact resolves href
  | dangling label => simp [Segment.accepted]

theorem rewrite_eq_error_iff {failure : Failure ε} :
    segment.rewrite rewriting = .error failure ↔ segment.accepted rewriting = .error failure := by
  unfold Segment.rewrite
  cases segment.accepted rewriting <;> simp [Except.map]

theorem rewrite_isOk_iff :
    (∃ piece, segment.rewrite rewriting = .ok piece) ↔
      ∃ accepted, segment.accepted rewriting = .ok accepted := by
  unfold Segment.rewrite
  cases segment.accepted rewriting <;> simp [Except.map]

theorem mapM_rewrite_eq_error_iff {segments : List Segment} {failure : Failure ε} :
    segments.mapM (Segment.rewrite rewriting) = .error failure ↔
      ∃ before link after, segments = before ++ link :: after ∧
        link.accepted rewriting = .error failure ∧
          ∀ segment ∈ before, ∃ accepted, segment.accepted rewriting = .ok accepted := by
  simp only [mapM_eq_error_iff, rewrite_eq_error_iff, rewrite_isOk_iff]

theorem mapM_panics_iff (segments : List Segment) :
    segments.mapM (Segment.rewrite rewriting) = .error .panic ↔ Dangles rewriting segments := by
  rw [mapM_rewrite_eq_error_iff]
  constructor
  · rintro ⟨before, link, after, parts, panics, resolves⟩
    obtain ⟨label, rfl⟩ := accepted_panics_iff.mp panics
    exact ⟨before, label, after, parts, resolves⟩
  · rintro ⟨before, label, after, parts, resolves⟩
    exact ⟨before, .dangling label, after, parts, rfl, resolves⟩

theorem map_eq_panic_iff {α β : Type} {outcome : Except (Failure ε) α} {change : α → β} :
    outcome.map change = .error .panic ↔ outcome = .error .panic := by
  cases outcome <;> simp [Except.map]

/-- Rewriting the links of a line and of a body terminates, and panics exactly when it comes to a
link whose opening parenthesis ends its line. -/
theorem rewriting_safe_iff (rewriting : Rewriting ε) :
    (∀ line, replaceLinksInLine rewriting line ≠ .error .panic ↔
      ¬Dangles rewriting (segments line)) ∧
    ∀ body, updateBodyLinks rewriting body ≠ .error .panic ↔
      ¬Dangles rewriting (bodySegments body) := by
  refine ⟨fun line => not_congr ?_, fun body => not_congr ?_⟩
  · rw [replaceLinksInLine_eq, map_eq_panic_iff, mapM_panics_iff]
  · rw [updateBodyLinks_eq, map_eq_panic_iff, mapM_panics_iff]

/-- A line that ends within a link. -/
theorem rewriting_panics :
    ¬∀ (rewriting : Rewriting Unit) (line : Text),
      replaceLinksInLine rewriting line ≠ .error .panic := by
  intro safe
  exact safe ⟨fun _ => .ok true, [], [], []⟩ ['[', 'x', ']', '('] (by decide +kernel)

end Mdbase.Rename
