import Mdbase.Library.Whitespace
import Mdbase.Library.Fallible

/-!
# Rewriting the links of a body

A rename scans the bodies of all records for links to the renamed file. A line is scanned by the
positions of its characters: where the source reads a character or takes a slice without a guard,
a position outside the line is a panic. The counters of nested brackets are those of lines shorter
than 2^31 characters.
-/

namespace Mdbase.Rename

open Library

/-- Why a scan stops. -/
inductive Failure (ε : Type) where
  | panic
  | selector (error : ε)
  deriving DecidableEq

/-- What the links of a record are rewritten with: `body_link_resolves_to` at the arguments of the
record, the new names and `compute_relative_path(source_dir, to)`. -/
structure Rewriting (ε : Type) where
  bodyLinkResolvesTo : Text → Except ε Bool
  toStem : Text
  toNoExt : Text
  newRel : Text

variable {ε : Type}

/-- A text before the first of some mark, and the mark with what follows. -/
def cutAt (mark : Char) (text : Text) : Text × Text :=
  (text.takeWhile (· ≠ mark), text.dropWhile (· ≠ mark))

/-- `rewrite_wikilink_inner`. -/
def rewriteWikilinkInner (rewriting : Rewriting ε) (inner : Text) : Text :=
  let (targetPart, rest) := cutAt '|' inner
  let (namePart, anchor) := cutAt '#' targetPart
  let newName := if '/' ∈ namePart then rewriting.toNoExt else rewriting.toStem
  newName ++ anchor ++ rest

/-- `chars[start..stop]`. -/
def slice (chars : Text) (start stop : Nat) : Except (Failure ε) Text :=
  if start ≤ stop ∧ stop ≤ chars.length then .ok ((chars.drop start).take (stop - start))
  else .error .panic

/-- `chars[i..].iter().take_while(..).count()` for backticks. -/
def tickCount (chars : Text) (i : Nat) : Nat := ((chars.drop i).takeWhile (· = '`')).length

theorem tickCount_pos {chars : Text} {i : Nat} (tick : chars[i]? = some '`') :
    0 < tickCount chars i := by
  obtain ⟨inside, here⟩ := List.getElem?_eq_some_iff.mp tick
  rw [tickCount, List.drop_eq_getElem_cons inside, here, List.takeWhile_cons_of_pos (by decide)]
  exact Nat.succ_pos _

/-- The end of the next run of just so many backticks. -/
def findClose (chars : Text) (btCount i : Nat) : Except (Failure ε) (Option Nat) :=
  if i + btCount ≤ chars.length then
    match here : chars[i]? with
    | none => .error .panic
    | some char =>
      if tick : char = '`' then
        let closeCount := tickCount chars i
        if closeCount = btCount then .ok (some (i + closeCount))
        else findClose chars btCount (i + closeCount)
      else findClose chars btCount (i + 1)
  else .ok none
termination_by chars.length - i
decreasing_by
  · have inside := (List.getElem?_eq_some_iff.mp here).1
    have := tickCount_pos (tick ▸ here)
    omega
  · have inside := (List.getElem?_eq_some_iff.mp here).1
    omega

/-- The position of the next two closing brackets, or the end. -/
def findBrackets (chars : Text) (i : Nat) : Nat :=
  if inside : i < chars.length then
    if chars[i] = ']' ∧ chars[i + 1]? = some ']' then i else findBrackets chars (i + 1)
  else i
termination_by chars.length - i

/-- The open brackets after a character. -/
def depthAfter (opening closing char : Char) (depth : Nat) : Nat :=
  let depth := if char = opening then depth + 1 else depth
  if char = closing then depth - 1 else depth

/-- The position after the bracket that closes so many open ones, or the end. -/
def findBalanced (opening closing : Char) (chars : Text) (i depth : Nat) : Nat :=
  if more : i < chars.length ∧ 0 < depth then
    findBalanced opening closing chars (i + 1) (depthAfter opening closing chars[i] depth)
  else i
termination_by chars.length - i

/-- What a construct appends to the result, and where the scan goes on: nothing ends it. -/
structure Step where
  pushed : Text
  next : Option Nat
  deriving DecidableEq

/-- The branch of inline code. -/
def inlineCode (chars : Text) (i : Nat) : Except (Failure ε) Step := do
  let start := i
  let btCount := tickCount chars i
  match ← findClose chars btCount (i + btCount) with
  | some stop => return ⟨← slice chars start stop, some stop⟩
  | none => return ⟨← slice chars start chars.length, none⟩

/-- A call of the predicate. -/
def Rewriting.resolves (rewriting : Rewriting ε) (link : Text) : Except (Failure ε) Bool :=
  (rewriting.bodyLinkResolvesTo link).mapError .selector

/-- The branches of `[[target]]` and `![[target]]`. -/
def wikilink (rewriting : Rewriting ε) (chars marker : Text) (linkStart contentStart : Nat) :
    Except (Failure ε) Step := do
  let i := findBrackets chars contentStart
  if i < chars.length then
    let inner ← slice chars contentStart i
    let i := i + 2
    if ← rewriting.resolves (['[', '['] ++ inner ++ [']', ']']) then
      let newInner := rewriteWikilinkInner rewriting inner
      return ⟨marker ++ ['[', '['] ++ newInner ++ [']', ']'], some i⟩
    else
      return ⟨← slice chars linkStart i, some i⟩
  else
    return ⟨← slice chars linkStart chars.length, none⟩

/-- A link to the web. -/
def isWeb (href : Text) : Bool :=
  "http://".toList.isPrefixOf href || "https://".toList.isPrefixOf href

/-- The condition of the branches of markdown links. -/
def Rewriting.accepts (rewriting : Rewriting ε) (href : Text) : Except (Failure ε) Bool :=
  if isWeb href then .ok false else rewriting.resolves href

/-- The branches of `[text](path)` and `![alt](path)`. -/
def markdownLink (rewriting : Rewriting ε) (chars : Text) (linkStart labelStart : Nat) :
    Except (Failure ε) Step := do
  let i := findBalanced '[' ']' chars labelStart 1
  if chars[i]? = some '(' then
    let parenStart := i + 1
    let i := findBalanced '(' ')' chars parenStart 1
    let href ← slice chars parenStart (i - 1)
    if ← rewriting.accepts href then
      let textPart ← slice chars linkStart (parenStart - 1)
      let (_, anchor) := cutAt '#' href
      return ⟨textPart ++ ['('] ++ rewriting.newRel ++ anchor ++ [')'], some i⟩
    else
      return ⟨← slice chars linkStart i, some i⟩
  else
    return ⟨← slice chars linkStart i, some i⟩

/-- One turn of the loop of `replace_links_in_line`, at a character of the line. -/
def scanStep (rewriting : Rewriting ε) (chars : Text) (i : Nat) (char : Char) :
    Except (Failure ε) Step :=
  if char = '`' then inlineCode chars i
  else if char = '!' ∧ chars[i + 1]? = some '[' then
    if chars[i + 2]? = some '[' then wikilink rewriting chars ['!'] i (i + 3)
    else markdownLink rewriting chars i (i + 2)
  else if char = '[' ∧ chars[i + 1]? = some '[' then wikilink rewriting chars [] i (i + 2)
  else if char = '[' then markdownLink rewriting chars i (i + 1)
  else .ok ⟨[char], some (i + 1)⟩

theorem le_findBrackets (chars : Text) (i : Nat) : i ≤ findBrackets chars i := by
  fun_induction findBrackets chars i with
  | case1 => exact Nat.le_refl _
  | case2 i _ _ ih => omega
  | case3 => exact Nat.le_refl _

theorem le_findBalanced (opening closing : Char) (chars : Text) (i depth : Nat) :
    i ≤ findBalanced opening closing chars i depth := by
  fun_induction findBalanced opening closing chars i depth with
  | case1 i _ _ ih => omega
  | case2 => exact Nat.le_refl _

theorem lt_of_findClose {chars : Text} {btCount i stop : Nat}
    (found : findClose (ε := ε) chars btCount i = .ok (some stop)) : i < stop := by
  fun_induction findClose (ε := ε) chars btCount i with
  | case1 => cases found
  | case2 i =>
    cases found
    exact Nat.lt_add_of_pos_right (tickCount_pos ‹chars[i]? = some '`'›)
  | case3 i _ _ _ _ ih =>
    have := ih found
    omega
  | case4 i _ _ _ _ ih =>
    have := ih found
    omega
  | case5 => cases found

variable {chars pushed : Text}

theorem lt_of_inlineCode {i next : Nat}
    (stepped : inlineCode (ε := ε) chars i = .ok ⟨pushed, some next⟩) : i < next := by
  obtain ⟨close, found, rest⟩ := bind_eq_ok.mp stepped
  cases close with
  | none =>
    obtain ⟨source, _, same⟩ := bind_eq_ok.mp rest
    cases same
  | some stop =>
    obtain ⟨source, _, same⟩ := bind_eq_ok.mp rest
    cases same
    have := lt_of_findClose found
    omega

variable {rewriting : Rewriting ε}

theorem lt_of_wikilink {chars marker pushed : Text}
    {linkStart contentStart next : Nat} (before : linkStart ≤ contentStart)
    (stepped : wikilink rewriting chars marker linkStart contentStart = .ok ⟨pushed, some next⟩) :
    linkStart < next := by
  have after := le_findBrackets chars contentStart
  unfold wikilink at stepped
  dsimp only at stepped
  split at stepped
  · obtain ⟨inner, _, rest⟩ := bind_eq_ok.mp stepped
    obtain ⟨accepted, _, rest⟩ := bind_eq_ok.mp rest
    cases accepted with
    | true =>
      cases rest
      omega
    | false =>
      obtain ⟨source, _, same⟩ := bind_eq_ok.mp rest
      cases same
      omega
  · obtain ⟨source, _, same⟩ := bind_eq_ok.mp stepped
    cases same

theorem lt_of_markdownLink {linkStart labelStart next : Nat} (before : linkStart < labelStart)
    (stepped : markdownLink rewriting chars linkStart labelStart = .ok ⟨pushed, some next⟩) :
    linkStart < next := by
  have label := le_findBalanced '[' ']' chars labelStart 1
  have destination := le_findBalanced '(' ')' chars (findBalanced '[' ']' chars labelStart 1 + 1) 1
  unfold markdownLink at stepped
  dsimp only at stepped
  split at stepped
  · obtain ⟨href, _, rest⟩ := bind_eq_ok.mp stepped
    obtain ⟨accepted, _, rest⟩ := bind_eq_ok.mp rest
    cases accepted with
    | true =>
      obtain ⟨textPart, _, same⟩ := bind_eq_ok.mp rest
      cases same
      omega
    | false =>
      obtain ⟨source, _, same⟩ := bind_eq_ok.mp rest
      cases same
      omega
  · obtain ⟨source, _, same⟩ := bind_eq_ok.mp stepped
    cases same
    omega

theorem lt_of_scanStep {i next : Nat} {char : Char}
    (stepped : scanStep rewriting chars i char = .ok ⟨pushed, some next⟩) : i < next := by
  unfold scanStep at stepped
  split_ifs at stepped
  · exact lt_of_inlineCode stepped
  · exact lt_of_wikilink (by omega) stepped
  · exact lt_of_markdownLink (by omega) stepped
  · exact lt_of_wikilink (by omega) stepped
  · exact lt_of_markdownLink (by omega) stepped
  · cases stepped
    exact Nat.lt_succ_self i

/-- The loop of `replace_links_in_line`. -/
def scanFrom (rewriting : Rewriting ε) (chars : Text) (i : Nat) (result : Text) :
    Except (Failure ε) Text :=
  if inside : i < chars.length then
    match stepped : scanStep rewriting chars i chars[i] with
    | .error failure => .error failure
    | .ok ⟨pushed, none⟩ => .ok (result ++ pushed)
    | .ok ⟨pushed, some next⟩ => scanFrom rewriting chars next (result ++ pushed)
  else .ok result
termination_by chars.length - i
decreasing_by
  have := lt_of_scanStep stepped
  omega

/-- `replace_links_in_line`. -/
def replaceLinksInLine (rewriting : Rewriting ε) (line : Text) : Except (Failure ε) Text :=
  scanFrom rewriting line 0 []

/-- The marker of an open fence and its length. -/
structure Fence where
  marker : Char
  count : Nat
  deriving DecidableEq

/-- The fence that a line opens. -/
def fenceOpened (line : Text) : Option Fence :=
  let trimmed := line.dropWhile isWhitespace
  if ['`', '`', '`'].isPrefixOf trimmed then
    some ⟨'`', (trimmed.takeWhile (· = '`')).length⟩
  else if ['~', '~', '~'].isPrefixOf trimmed then
    some ⟨'~', (trimmed.takeWhile (· = '~')).length⟩
  else none

/-- A line closes a fence. -/
def Fence.closedBy (fence : Fence) (line : Text) : Bool :=
  let trimmed := line.dropWhile isWhitespace
  let count := (trimmed.takeWhile (· = fence.marker)).length
  [fence.marker].isPrefixOf trimmed && fence.count ≤ count &&
    (Library.trimmed (trimmed.drop count)).isEmpty

/-- The loop variables of `update_body_links`. -/
structure BodyState where
  fence : Option Fence
  changed : Bool
  result : Text

/-- One turn of the loop of `update_body_links`. -/
def bodyStep (rewriting : Rewriting ε) (state : BodyState) (line : Text) :
    Except (Failure ε) BodyState :=
  match state.fence with
  | none =>
    match fenceOpened line with
    | some fence => .ok { state with fence := some fence, result := state.result ++ line ++ ['\n'] }
    | none => do
        let newLine ← replaceLinksInLine rewriting line
        return { state with
          changed := state.changed || newLine ≠ line
          result := state.result ++ newLine ++ ['\n'] }
  | some fence =>
    .ok { state with
      fence := if fence.closedBy line then none else some fence
      result := state.result ++ line ++ ['\n'] }

/-- `ends_with`. -/
def endsWith (text suffix : Text) : Bool := suffix.isSuffixOf text

/-- `result.pop()` under a condition. -/
def popIf (condition : Bool) (result : Text) : Text := if condition then result.dropLast else result

/-- `update_body_links`: whether the body changed, and the body after it. -/
def updateBodyLinks (rewriting : Rewriting ε) (body : Text) : Except (Failure ε) (Bool × Text) := do
  let state ← (body.splitOn '\n').foldlM (bodyStep rewriting) ⟨none, false, []⟩
  let result := popIf (endsWith state.result ['\n'] && !endsWith body ['\n']) state.result
  let result := popIf (endsWith body ['\n'] && endsWith result ['\n', '\n'] &&
    !endsWith body ['\n', '\n']) result
  return (state.changed, if state.changed then result else body)

end Mdbase.Rename
