import Mdbase.Rename.Safety

/-!
# What the rewriting leaves alone

A rewritten body is the body with new targets in the links that are accepted, and nothing else is
touched. The rewriting breaks this at an accepted markdown link that runs to the end of its line,
whose last character becomes a parenthesis, and in a body that ends with two line ends, which
gains a third one.
-/

namespace Mdbase.Rename

open Library

variable {ε : Type}

namespace Segment

/-- What stands before the target of a link. -/
def before : Segment → Text
  | text chars => chars
  | wikilink embed _ => marker embed ++ ['[', '[']
  | markdown label _ _ => label ++ ['(']
  | dangling label => label ++ ['(']

/-- The target of a link, without its anchor. -/
def target : Segment → Text
  | wikilink _ inner => (cutAt '#' (cutAt '|' inner).1).1
  | markdown _ href _ => (cutAt '#' href).1
  | _ => []

/-- What stands behind the target of a link: the anchor, the alias and what closes the link. -/
def after : Segment → Text
  | wikilink _ inner => (cutAt '#' (cutAt '|' inner).1).2 ++ (cutAt '|' inner).2 ++ [']', ']']
  | markdown _ href closing => (cutAt '#' href).2 ++ [closing]
  | _ => []

/-- The target that a link to the renamed file has afterwards. -/
def newTarget (rewriting : Rewriting ε) (segment : Segment) : Text :=
  match segment with
  | markdown _ _ _ => rewriting.newRel
  | segment => if '/' ∈ segment.target then rewriting.toNoExt else rewriting.toStem

/-- A segment with the target that it is to have. -/
def retargeted (rewriting : Rewriting ε) (segment : Segment) : Text :=
  match segment.accepted rewriting with
  | .ok true => segment.before ++ segment.newTarget rewriting ++ segment.after
  | _ => segment.source

/-- A markdown link ends with its parenthesis. -/
def Closed : Segment → Prop
  | markdown _ _ closing => closing = ')'
  | _ => True

end Segment

/-- A body with new targets in its accepted links. -/
def retargetedBody (rewriting : Rewriting ε) (body : Text) : Text :=
  (bodySegments body).flatMap (Segment.retargeted rewriting)

/-- A rewriting writes the new targets and nothing else, and tells whether the text changed. -/
structure OnlyTargets (rewriting : Rewriting ε) (body : Text) (changed : Bool) (out : Text) :
    Prop where
  text : out = retargetedBody rewriting body
  changes : changed = true ↔ out ≠ body
  unaccepted : (∀ segment ∈ bodySegments body, segment.accepted rewriting ≠ .ok true) → out = body

/-- What may come of rewriting a body: a failed resolution writes nothing. -/
def TouchesOnlyTargets (rewriting : Rewriting ε) (body : Text) :
    Except (Failure ε) (Bool × Text) → Prop
  | .ok (changed, out) => OnlyTargets rewriting body changed out
  | .error (.selector _) => True
  | .error .panic => False

/-- A run over segments comes to a link whose resolution fails. -/
def Fails (rewriting : Rewriting ε) (segments : List Segment) : Prop :=
  ∃ before link after error, segments = before ++ link :: after ∧
    link.accepted rewriting = .error (.selector error) ∧
      ∀ segment ∈ before, ∃ accepted, segment.accepted rewriting = .ok accepted

/-- A body whose links can be rewritten: a resolution fails before anything is written, or no link
dangles, every accepted markdown link is closed, and there is nothing to change in a body that ends
with two line ends. -/
def Rewritable (rewriting : Rewriting ε) (body : Text) : Prop :=
  Fails rewriting (bodySegments body) ∨
    (∀ label, .dangling label ∉ bodySegments body) ∧
      (∀ segment ∈ bodySegments body, segment.accepted rewriting = .ok true → segment.Closed) ∧
        (endsWith body ['\n', '\n'] = true → retargetedBody rewriting body = body)

variable {rewriting : Rewriting ε} {segment : Segment}

theorem retargeted_of_accepted (resolved : segment.accepted rewriting = .ok true) :
    segment.retargeted rewriting =
      segment.before ++ segment.newTarget rewriting ++ segment.after := by
  rw [Segment.retargeted, resolved]

theorem retargeted_of_other {segment : Segment} (other : segment.accepted rewriting ≠ .ok true) :
    segment.retargeted rewriting = segment.source := by
  unfold Segment.retargeted
  split
  next resolved => exact absurd resolved other
  next => rfl

/-- A rewritten link is as long as the link with its new target, and is that link exactly when it is
closed. -/
theorem rewritten_retargeted (resolved : segment.accepted rewriting = .ok true) :
    (segment.rewritten rewriting).length = (segment.retargeted rewriting).length ∧
      (segment.rewritten rewriting = segment.retargeted rewriting ↔ segment.Closed) := by
  rw [retargeted_of_accepted resolved]
  cases segment with
  | text chars | dangling label => cases resolved
  | wikilink embed inner =>
    have same : (Segment.wikilink embed inner).rewritten rewriting =
        (Segment.wikilink embed inner).before ++
          (Segment.wikilink embed inner).newTarget rewriting ++
            (Segment.wikilink embed inner).after := by
      simp only [Segment.rewritten, Segment.before, Segment.newTarget, Segment.target,
        Segment.after, rewriteWikilinkInner, List.append_assoc]
      congr
    exact ⟨congrArg List.length same, iff_of_true same trivial⟩
  | markdown label href closing =>
    simp [Segment.rewritten, Segment.before, Segment.newTarget, Segment.after, Segment.Closed,
      eq_comm]

/-- What the scan writes for a segment: it is as long as the segment with its new target, and that
text exactly when the link is closed. -/
theorem rewrite_retargeted {piece : Text} (rewritten : segment.rewrite rewriting = .ok piece) :
    piece.length = (segment.retargeted rewriting).length ∧
      (piece = segment.retargeted rewriting ↔
        (segment.accepted rewriting = .ok true → segment.Closed)) := by
  unfold Segment.rewrite at rewritten
  cases resolved : segment.accepted rewriting with
  | error failure =>
    rw [resolved] at rewritten
    cases rewritten
  | ok accepted =>
    rw [resolved] at rewritten
    cases rewritten
    cases accepted with
    | true => simpa using rewritten_retargeted resolved
    | false =>
      have same := @retargeted_of_other ε rewriting segment (by simp [resolved])
      simp [same]

variable {pieces : List Text}

theorem flatten_eq_flatMap_iff {α : Type} {items : List α} {image : α → Text}
    {related : α → Text → Prop} (all : List.Forall₂ related items pieces)
    (length : ∀ item piece, related item piece → piece.length = (image item).length) :
    pieces.flatten = items.flatMap image ↔
      List.Forall₂ (fun item piece => piece = image item) items pieces := by
  induction all with
  | nil => simp
  | cons here _ ih =>
    rw [List.flatten_cons, List.flatMap_cons, List.forall₂_cons, ← ih]
    refine ⟨fun same => List.append_inj same (length _ _ here), fun same => ?_⟩
    rw [same.1, same.2]

variable {body : Text}

theorem retargetedBody_of_unaccepted
    (unaccepted : ∀ segment ∈ bodySegments body, segment.accepted rewriting ≠ .ok true) :
    retargetedBody rewriting body = body := by
  have sources : (bodySegments body).flatMap (Segment.retargeted rewriting) =
      (bodySegments body).flatMap Segment.source :=
    List.flatMap_congr fun segment member => retargeted_of_other (unaccepted segment member)
  rw [retargetedBody, sources, source_bodySegments]

theorem mapM_fails_iff (segments : List Segment) :
    (∃ error, segments.mapM (Segment.rewrite rewriting) = .error (.selector error)) ↔
      Fails rewriting segments := by
  simp only [mapM_rewrite_eq_error_iff, Fails]
  constructor
  · rintro ⟨error, before, link, after, parts, fails, resolves⟩
    exact ⟨before, link, after, error, parts, fails, resolves⟩
  · rintro ⟨before, link, after, error, parts, fails, resolves⟩
    exact ⟨error, before, link, after, parts, fails, resolves⟩

theorem pieces_retargeted {segments : List Segment}
    (all : List.Forall₂ (fun segment piece => segment.rewrite rewriting = .ok piece)
      segments pieces) :
    pieces.flatten.length = (segments.flatMap (Segment.retargeted rewriting)).length ∧
      (List.Forall₂ (fun segment piece => piece = segment.retargeted rewriting) segments pieces ↔
        ∀ segment ∈ segments, segment.accepted rewriting = .ok true → segment.Closed) := by
  induction all with
  | nil => simp
  | cons here _ ih =>
    have first := rewrite_retargeted here
    rw [List.flatten_cons, List.flatMap_cons, List.length_append, List.length_append,
      List.forall₂_cons, List.forall_mem_cons, first.1, ih.1]
    exact ⟨rfl, and_congr first.2 ih.2⟩

theorem flatten_eq_retargetedBody_iff
    (rewritten : (bodySegments body).mapM (Segment.rewrite rewriting) = .ok pieces) :
    pieces.flatten = retargetedBody rewriting body ↔
      ∀ segment ∈ bodySegments body, segment.accepted rewriting = .ok true → segment.Closed := by
  have all := forall₂_of_mapM_ok rewritten
  rw [retargetedBody, flatten_eq_flatMap_iff all fun _ _ here => (rewrite_retargeted here).1]
  exact (pieces_retargeted all).2

/-- A run over a body that succeeds touches nothing but targets exactly when the accepted links are
closed and a body that ends with two line ends does not change. -/
theorem onlyTargets_iff
    (rewritten : (bodySegments body).mapM (Segment.rewrite rewriting) = .ok pieces) :
    (TouchesOnlyTargets rewriting body (.ok (if pieces.flatten = body then (false, body)
        else (true, pieces.flatten ++ if endsWith body ['\n', '\n'] then ['\n'] else [])))) ↔
      (∀ segment ∈ bodySegments body, segment.accepted rewriting = .ok true → segment.Closed) ∧
        (endsWith body ['\n', '\n'] = true → retargetedBody rewriting body = body) := by
  have closed := flatten_eq_retargetedBody_iff rewritten
  have length : pieces.flatten.length = (retargetedBody rewriting body).length :=
    (pieces_retargeted (forall₂_of_mapM_ok rewritten)).1
  rw [← closed]
  by_cases same : pieces.flatten = body
  · rw [if_pos same]
    constructor
    · intro only
      exact ⟨same.trans only.text, fun _ => only.text.symm⟩
    · intro facts
      exact ⟨same.symm.trans facts.1, by simp, fun _ => rfl⟩
  · rw [if_neg same]
    constructor
    · intro only
      have text := only.text
      cases double : endsWith body ['\n', '\n'] with
      | false =>
        rw [double] at text
        exact ⟨by simpa using text, nofun⟩
      | true =>
        rw [double] at text
        have longer := congrArg List.length text
        rw [List.length_append, length] at longer
        exact absurd longer (by simp)
    · rintro ⟨text, double⟩
      have single : endsWith body ['\n', '\n'] = false := by
        rw [Bool.eq_false_iff]
        exact fun ended => same (text.trans (double ended))
      rw [single]
      refine ⟨by simpa using text, by simpa using same, fun unaccepted => ?_⟩
      exact absurd (text.trans (retargetedBody_of_unaccepted unaccepted)) same

/-- Rewriting touches nothing but the targets of accepted links exactly in the bodies whose links
can be rewritten. -/
theorem touchesOnlyTargets_iff (rewriting : Rewriting ε) (body : Text) :
    TouchesOnlyTargets rewriting body (updateBodyLinks rewriting body) ↔
      Rewritable rewriting body := by
  have fails := @mapM_fails_iff ε rewriting (bodySegments body)
  have panics := @mapM_panics_iff ε rewriting (bodySegments body)
  rw [updateBodyLinks_eq, Rewritable, ← fails]
  cases run : (bodySegments body).mapM (Segment.rewrite rewriting) with
  | ok pieces =>
    have links : ∀ label, .dangling label ∉ bodySegments body := by
      intro label member
      obtain ⟨piece, _, here⟩ := exists_image_of_mapM_ok run member
      cases here
    refine (onlyTargets_iff run).trans ?_
    rw [or_iff_right (by simp), and_iff_right links]
  | error failure =>
    cases failure with
    | selector error => exact iff_of_true trivial (.inl ⟨error, rfl⟩)
    | panic =>
      obtain ⟨before, label, after, parts, -⟩ := panics.mp run
      refine iff_of_false nofun ?_
      rintro (⟨error, ⟨⟩⟩ | ⟨links, -⟩)
      exact links label (by simp [parts])

/-- The rewriting of links from `a` to `b`. -/
def renamesToB : Rewriting Unit where
  bodyLinkResolvesTo := fun link => .ok (link = "[[a]]".toList ∨ link = "a.md".toList)
  toStem := ['b']
  toNoExt := ['b']
  newRel := "./b.md".toList

/-- A body that ends with two line ends gains a third one. -/
theorem line_end_gained :
    ¬∀ (rewriting : Rewriting Unit) (body : Text),
      TouchesOnlyTargets rewriting body (updateBodyLinks rewriting body) := by
  intro all
  have run : updateBodyLinks renamesToB "[[a]]\n\n".toList =
      .ok (true, "[[b]]\n\n\n".toList) := by decide +kernel
  have only := all renamesToB "[[a]]\n\n".toList
  rw [run] at only
  exact absurd only.text (by decide +kernel)

end Mdbase.Rename
