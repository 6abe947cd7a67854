import Mdbase.Library.Runs
import Mdbase.Library.Lines
import Mdbase.Library.Whitespace

/-!
# Stripping code from a body

Tags, links and embeds are read from a body without its fenced blocks and inline code. The first
pass drops fenced lines, and takes a line that starts with a span of three backticks for a fence.
The second one looks for the span of every run of backticks by positions; where it finds none it
keeps the run and loses the text that it looked at, so that code is all that is stripped exactly
in a body where such a run has less behind it than its own length.
-/

namespace Mdbase.Expressions

open Library

/-- A line without what ends it. -/
def unterminated (line : Text) : Text :=
  if line.getLast? = some '\n' then
    if line.dropLast.getLast? = some '\r' then line.dropLast.dropLast else line.dropLast
  else line

/-- `str::lines`. -/
def lines (text : Text) : List Text := (splitInclusive '\n' text).map unterminated

/-- `detect_fence_open`: the marker of a fence and its length. -/
def detectFenceOpen (trimmed : Text) : Option (Char × Nat) :=
  if ['`', '`', '`'].isPrefixOf trimmed then
    some ('`', (trimmed.takeWhile (· = '`')).length)
  else if ['~', '~', '~'].isPrefixOf trimmed then
    some ('~', (trimmed.takeWhile (· = '~')).length)
  else none

/-- `is_fence_close`. -/
def isFenceClose (trimmed : Text) (marker : Char) (minCount : Nat) : Bool :=
  if trimmed.head? ≠ some marker then false
  else
    let count := (trimmed.takeWhile (· = marker)).length
    if count < minCount then false else (Library.trimmed (trimmed.drop count)).isEmpty

/-- The first pass of `strip_code_blocks_and_inline_code`, in or outside of a fence. -/
def linesOutside : Option (Char × Nat) → List Text → List Text
  | _, [] => []
  | none, line :: rest =>
    match detectFenceOpen (line.dropWhile isWhitespace) with
    | some fence => linesOutside (some fence) rest
    | none => line :: linesOutside none rest
  | some (marker, count), line :: rest =>
    if isFenceClose (line.dropWhile isWhitespace) marker count then linesOutside none rest
    else linesOutside (some (marker, count)) rest

/-- The backticks from a position on: `while i < len && chars[i] == '`' { i += 1 }`. -/
def ticksAt (chars : Text) (i : Nat) : Nat := ((chars.drop i).takeWhile (· = '`')).length

theorem ticksAt_pos {chars : Text} {i : Nat} (tick : chars[i]? = some '`') :
    0 < ticksAt chars i := by
  obtain ⟨inside, here⟩ := List.getElem?_eq_some_iff.mp tick
  rw [ticksAt, List.drop_eq_getElem_cons inside, here, List.takeWhile_cons_of_pos (by decide)]
  exact Nat.succ_pos _

/-- The search for the backticks that close a span: whether they are found, and the position
behind the search. Nothing stands for an index out of bounds. -/
def findClose (chars : Text) (backtickCount i : Nat) : Option (Bool × Nat) :=
  if chars.length < backtickCount then none
  else if i ≤ chars.length - backtickCount then
    match here : chars[i]? with
    | none => none
    | some char =>
      if tick : char = '`' then
        let closeCount := ticksAt chars i
        if closeCount = backtickCount then some (true, i + closeCount)
        else findClose chars backtickCount (i + closeCount)
      else findClose chars backtickCount (i + 1)
  else some (false, i)
termination_by chars.length - i
decreasing_by
  · have inside := (List.getElem?_eq_some_iff.mp here).1
    have := ticksAt_pos (tick ▸ here)
    omega
  · have inside := (List.getElem?_eq_some_iff.mp here).1
    omega

theorem le_of_findClose {chars : Text} {backtickCount i stop : Nat} {found : Bool}
    (searched : findClose chars backtickCount i = some (found, stop)) : i ≤ stop := by
  fun_induction findClose chars backtickCount i with
  | case1 => cases searched
  | case2 => cases searched
  | case3 =>
    cases searched
    exact Nat.le_add_right _ _
  | case4 =>
    rename_i ih
    exact (Nat.le_add_right _ _).trans (ih searched)
  | case5 =>
    rename_i ih
    exact (Nat.le_succ _).trans (ih searched)
  | case6 =>
    cases searched
    exact Nat.le_refl _

/-- The second pass of `strip_code_blocks_and_inline_code`. -/
def stripFrom (chars : Text) (i : Nat) (result : Text) : Option Text :=
  if inside : i < chars.length then
    if tick : chars[i] = '`' then
      let start := i
      let searchStart := i + ticksAt chars i
      match searched : findClose chars (searchStart - start) searchStart with
      | none => none
      | some (true, next) => stripFrom chars next result
      | some (false, next) =>
        -- `&chars[start..search_start]`
        if searchStart ≤ chars.length then
          stripFrom chars next (result ++ (chars.drop start).take (searchStart - start))
        else none
    else stripFrom chars (i + 1) (result ++ [chars[i]])
  else some result
termination_by chars.length - i
decreasing_by
  · have := ticksAt_pos (tick ▸ List.getElem?_eq_getElem inside)
    have := le_of_findClose searched
    omega
  · have := ticksAt_pos (tick ▸ List.getElem?_eq_getElem inside)
    have := le_of_findClose searched
    omega
  · omega

/-- `strip_code_blocks_and_inline_code`: nothing stands for an index out of bounds. -/
def stripCodeBlocksAndInlineCode (body : Text) : Option Text :=
  stripFrom (['\n'].intercalate (linesOutside none (lines body))) 0 []

/-- A line of white space, marks, and a text behind them that starts with something else. -/
def Marks (line : Text) (marker : Char) (count : Nat) (info : Text) : Prop :=
  (∃ indent : Text, line = indent ++ (List.replicate count marker ++ info) ∧
    ∀ space ∈ indent, isWhitespace space = true) ∧ info.head? ≠ some marker

/-- A line opens a fence: at least three marks, with a text behind them in which no backtick stands
behind backticks. -/
def Opens (line : Text) (marker : Char) (count : Nat) : Prop :=
  (marker = '`' ∨ marker = '~') ∧ 3 ≤ count ∧
    ∃ info, Marks line marker count info ∧ (marker = '`' → '`' ∉ info)

/-- A line closes a fence: at least as many marks, with white space alone behind them. -/
def Closes (marker : Char) (count : Nat) (line : Text) : Prop :=
  ∃ more info, count ≤ more ∧ Marks line marker more info ∧
    ∀ space ∈ info, isWhitespace space = true

/-- A line that starts with a span of code: three backticks or more, and a backtick behind them. -/
def StartsSpan (line : Text) : Prop :=
  ∃ count info, 3 ≤ count ∧ Marks line '`' count info ∧ '`' ∈ info

/-- Some lines without fenced blocks. A block goes from the line that opens it to the first one
that closes it, or to the end. -/
inductive Unfenced : List Text → List Text → Prop where
  | nil : Unfenced [] []
  | line {line : Text} {rest kept : List Text} (plain : ∀ marker count, ¬Opens line marker count)
      (more : Unfenced rest kept) : Unfenced (line :: rest) (line :: kept)
  | block {line closing : Text} {content rest kept : List Text} {marker : Char} {count : Nat}
      (opens : Opens line marker count) (inside : ∀ other ∈ content, ¬Closes marker count other)
      (closes : Closes marker count closing) (more : Unfenced rest kept) :
      Unfenced (line :: (content ++ closing :: rest)) kept
  | unclosed {line : Text} {content : List Text} {marker : Char} {count : Nat}
      (opens : Opens line marker count) (inside : ∀ other ∈ content, ¬Closes marker count other) :
      Unfenced (line :: content) []

variable {line info : Text} {marker : Char} {count : Nat}

/-- What the marks of a line are once the white space before them is gone. -/
theorem Marks.trimmed (marks : Marks line marker count info) (visible : isWhitespace marker = false)
    (positive : 0 < count) :
    line.dropWhile isWhitespace = List.replicate count marker ++ info ∧
      ((line.dropWhile isWhitespace).takeWhile (· = marker)).length = count := by
  obtain ⟨⟨indent, rfl, white⟩, other⟩ := marks
  obtain ⟨fewer, rfl⟩ := Nat.exists_eq_succ_of_ne_zero positive.ne'
  have text : (indent ++ (List.replicate fewer.succ marker ++ info)).dropWhile isWhitespace =
      List.replicate fewer.succ marker ++ info := by
    rw [List.dropWhile_append_of_pos white, List.replicate_succ, List.cons_append,
      List.dropWhile_cons_of_neg (by simp [visible])]
  refine ⟨text, ?_⟩
  have ticks : ∀ char ∈ List.replicate fewer.succ marker, decide (char = marker) = true :=
    fun char member => decide_eq_true (List.eq_of_mem_replicate member)
  have stops : info.takeWhile (· = marker) = [] := by
    cases info with
    | nil => rfl
    | cons char later => exact List.takeWhile_cons_of_neg (by simpa using other)
  rw [text, List.takeWhile_append_of_pos ticks, stops, List.append_nil, List.length_replicate]

/-- The marks that a line starts with behind its white space. -/
theorem marks_of_trimmed (line : Text) (marker : Char) :
    Marks line marker ((line.dropWhile isWhitespace).takeWhile (· = marker)).length
      ((line.dropWhile isWhitespace).dropWhile (· = marker)) := by
  refine ⟨⟨line.takeWhile isWhitespace, ?_, fun space member => List.mem_takeWhile_imp member⟩, ?_⟩
  · rw [← takeWhile_eq_replicate, List.takeWhile_append_dropWhile,
      List.takeWhile_append_dropWhile]
  · intro same
    obtain ⟨rest, text⟩ := List.head?_eq_some_iff.mp same
    have kept := List.dropWhile_get_zero_not (· = marker) (line.dropWhile isWhitespace)
      (by rw [text]; exact Nat.succ_pos _)
    simp [text] at kept

theorem visible_of_marker (fence : marker = '`' ∨ marker = '~') : isWhitespace marker = false := by
  rcases fence with rfl | rfl <;> decide

/-- A fence is opened by at least three marks of one kind. -/
theorem detectFenceOpen_eq_some_iff :
    detectFenceOpen (line.dropWhile isWhitespace) = some (marker, count) ↔
      (marker = '`' ∨ marker = '~') ∧ 3 ≤ count ∧ ∃ info, Marks line marker count info := by
  constructor
  · intro opened
    have long (mark : Char) (three : [mark, mark, mark].isPrefixOf
        (line.dropWhile isWhitespace) = true) :
        3 ≤ ((line.dropWhile isWhitespace).takeWhile (· = mark)).length := by
      obtain ⟨rest, text⟩ := List.isPrefixOf_iff_prefix.mp three
      rw [← text]
      simp
    unfold detectFenceOpen at opened
    split_ifs at opened with ticks tildes
    · cases opened
      exact ⟨.inl rfl, long _ ticks, _, marks_of_trimmed line '`'⟩
    · cases opened
      exact ⟨.inr rfl, long _ tildes, _, marks_of_trimmed line '~'⟩
  · rintro ⟨fence, three, info, marks⟩
    obtain ⟨text, length⟩ := marks.trimmed (visible_of_marker fence) (by omega)
    obtain ⟨more, rfl⟩ := Nat.exists_eq_add_of_le' three
    have starts : List.replicate (more + 3) marker ++ info =
        marker :: marker :: marker :: (List.replicate more marker ++ info) := rfl
    unfold detectFenceOpen
    rw [starts] at text
    rcases fence with rfl | rfl
    · rw [if_pos (by rw [text]; rfl), length]
    · rw [if_neg (by rw [text]; simp), if_pos (by rw [text]; rfl), length]

theorem Opens.detected (opens : Opens line marker count) :
    detectFenceOpen (line.dropWhile isWhitespace) = some (marker, count) := by
  obtain ⟨fence, three, info, marks, -⟩ := opens
  exact detectFenceOpen_eq_some_iff.mpr ⟨fence, three, info, marks⟩

theorem StartsSpan.detected (starts : StartsSpan line) :
    detectFenceOpen (line.dropWhile isWhitespace) ≠ none := by
  obtain ⟨count, info, three, marks, -⟩ := starts
  rw [detectFenceOpen_eq_some_iff.mpr ⟨.inl rfl, three, info, marks⟩]
  exact Option.some_ne_none _

theorem not_opens (plain : detectFenceOpen (line.dropWhile isWhitespace) = none) :
    ∀ marker count, ¬Opens line marker count := by
  intro marker count opens
  rw [opens.detected] at plain
  cases plain

/-- A line that neither opens a fence nor starts with a span is not taken for a fence. -/
theorem detectFenceOpen_eq_none (plain : ∀ marker count, ¬Opens line marker count)
    (spanless : ¬StartsSpan line) : detectFenceOpen (line.dropWhile isWhitespace) = none := by
  cases opened : detectFenceOpen (line.dropWhile isWhitespace) with
  | none => rfl
  | some fence =>
    obtain ⟨marker, count⟩ := fence
    obtain ⟨fence, three, info, marks⟩ := detectFenceOpen_eq_some_iff.mp opened
    refine absurd ⟨fence, three, info, marks, ?_⟩ (plain marker count)
    rintro rfl member
    exact spanless ⟨count, info, three, marks, member⟩

/-- The code closes a fence at the lines that the specification names. -/
theorem isFenceClose_iff (visible : isWhitespace marker = false) (positive : 0 < count) :
    isFenceClose (line.dropWhile isWhitespace) marker count = true ↔ Closes marker count line := by
  have blank (text : Text) : (Library.trimmed text).isEmpty = true ↔
      ∀ space ∈ text, isWhitespace space = true := by
    rw [List.isEmpty_iff, Library.trimmed, trimmedEnd, List.rdropWhile_eq_nil_iff]
    constructor
    · intro white space member
      rw [← @List.takeWhile_append_dropWhile _ isWhitespace text] at member
      rcases List.mem_append.mp member with before | behind
      · exact List.mem_takeWhile_imp before
      · exact white space behind
    · intro white space member
      exact white space (List.dropWhile_suffix _ |>.mem member)
  constructor
  · intro closes
    unfold isFenceClose at closes
    dsimp only at closes
    split at closes
    next => cases closes
    split at closes
    next => cases closes
    rename_i enough
    refine ⟨_, _, not_lt.mp enough, marks_of_trimmed line marker, ?_⟩
    have rest : (line.dropWhile isWhitespace).drop
        ((line.dropWhile isWhitespace).takeWhile (· = marker)).length =
        (line.dropWhile isWhitespace).dropWhile (· = marker) := by
      have split := @List.drop_left _ ((line.dropWhile isWhitespace).takeWhile (· = marker))
        ((line.dropWhile isWhitespace).dropWhile (· = marker))
      rwa [List.takeWhile_append_dropWhile] at split
    rw [rest] at closes
    exact (blank _).mp closes
  · rintro ⟨more, info, enough, marks, white⟩
    obtain ⟨text, length⟩ := marks.trimmed visible (by omega)
    have first : (line.dropWhile isWhitespace).head? = some marker := by
      rw [text, head?_replicate_append (by omega)]
    unfold isFenceClose
    rw [if_neg (not_not.mpr first)]
    dsimp only
    rw [if_neg (by omega), length, text, List.drop_left' List.length_replicate]
    exact (blank info).mpr white

theorem Opens.closes_iff (opens : Opens line marker count) (other : Text) :
    isFenceClose (other.dropWhile isWhitespace) marker count = true ↔ Closes marker count other :=
  isFenceClose_iff (visible_of_marker opens.1) (Nat.lt_of_lt_of_le (by decide) opens.2.1)

theorem linesOutside_block {content : List Text}
    (inside : ∀ other ∈ content, ¬isFenceClose (other.dropWhile isWhitespace) marker count = true)
    (rest : List Text) :
    linesOutside (some (marker, count)) (content ++ rest) =
      linesOutside (some (marker, count)) rest := by
  induction content with
  | nil => rfl
  | cons line content ih =>
    obtain ⟨open', later⟩ := List.forall_mem_cons.mp inside
    rw [List.cons_append, linesOutside]
    exact (if_neg open').trans (ih later)

/-- Where no line outside of a block starts with a span, the first pass leaves the lines outside
of the blocks. -/
theorem Unfenced.linesOutside {all kept : List Text} (unfenced : Unfenced all kept)
    (spanless : ∀ line ∈ kept, ¬StartsSpan line) :
    Expressions.linesOutside none all = kept := by
  induction unfenced with
  | nil => rfl
  | @line line rest kept plain _ ih =>
    obtain ⟨here, later⟩ := List.forall_mem_cons.mp spanless
    rw [Expressions.linesOutside, detectFenceOpen_eq_none plain here]
    exact congrArg _ (ih later)
  | @block line closing content rest kept marker count opens inside closes _ ih =>
    have outside := linesOutside_block
      (fun other member => mt (opens.closes_iff other).mp (inside other member)) (closing :: rest)
    rw [Expressions.linesOutside, opens.detected]
    dsimp only
    rw [outside, Expressions.linesOutside, if_pos ((opens.closes_iff closing).mpr closes)]
    exact ih spanless
  | @unclosed line content marker count opens inside =>
    have outside := linesOutside_block
      (fun other member => mt (opens.closes_iff other).mp (inside other member)) []
    rw [List.append_nil] at outside
    rw [Expressions.linesOutside, opens.detected]
    exact outside

theorem first_closing_unique {left right later rest : List Text} {closing other : Text}
    (leftInside : ∀ line ∈ left, ¬Closes marker count line) (closes : Closes marker count closing)
    (rightInside : ∀ line ∈ right, ¬Closes marker count line)
    (otherCloses : Closes marker count other)
    (same : left ++ closing :: later = right ++ other :: rest) : later = rest := by
  induction left generalizing right with
  | nil =>
    cases right with
    | nil =>
      cases same
      rfl
    | cons line right =>
      cases same
      exact absurd closes (rightInside _ List.mem_cons_self)
  | cons line left ih =>
    cases right with
    | nil =>
      cases same
      exact absurd otherCloses (leftInside _ List.mem_cons_self)
    | cons line right =>
      injection same with _ tail
      exact ih (List.forall_mem_cons.mp leftInside).2 (List.forall_mem_cons.mp rightInside).2 tail

/-- Lines are outside of fenced blocks in one way. -/
theorem Unfenced.unique {all kept other : List Text} (first : Unfenced all kept)
    (second : Unfenced all other) : kept = other := by
  induction first generalizing other with
  | nil =>
    cases second
    rfl
  | line plain _ ih =>
    cases second with
    | line _ more => rw [ih more]
    | block opens => exact absurd opens (plain _ _)
    | unclosed opens => exact absurd opens (plain _ _)
  | @block line closing content rest kept marker count opens inside closes _ ih =>
    generalize tail : content ++ closing :: rest = behind at second
    cases second with
    | line plain => exact absurd opens (plain _ _)
    | block otherOpens otherInside otherCloses more =>
      cases opens.detected.symm.trans otherOpens.detected
      obtain rfl := first_closing_unique inside closes otherInside otherCloses tail
      exact ih more
    | unclosed otherOpens otherInside =>
      cases opens.detected.symm.trans otherOpens.detected
      refine absurd closes (otherInside _ ?_)
      rw [← tail]
      exact List.mem_append_right _ List.mem_cons_self
  | unclosed opens inside =>
    cases second with
    | line plain => exact absurd opens (plain _ _)
    | block otherOpens _ otherCloses _ =>
      cases opens.detected.symm.trans otherOpens.detected
      refine absurd otherCloses (inside _ ?_)
      exact List.mem_append_right _ List.mem_cons_self
    | unclosed => rfl

/-- Every body has lines outside of its fenced blocks. -/
theorem exists_unfenced (all : List Text) : ∃ kept, Unfenced all kept := by
  classical
  induction size : all.length using Nat.strong_induction_on generalizing all with
  | _ total ih =>
    cases all with
    | nil => exact ⟨[], .nil⟩
    | cons line rest =>
      by_cases opened : ∃ marker count, Opens line marker count
      · obtain ⟨marker, count, opens⟩ := opened
        cases found : rest.find? (decide <| Closes marker count ·) with
        | none => exact ⟨[], .unclosed opens (by simpa using found)⟩
        | some closing =>
          obtain ⟨closes, content, later, rfl, inside⟩ := List.find?_eq_some_iff_append.mp found
          obtain ⟨kept, more⟩ := ih _ (by rw [← size]; simp; omega) later rfl
          exact ⟨kept, .block opens (by simpa using inside) (by simpa using closes) more⟩
      · push Not at opened
        obtain ⟨kept, more⟩ := ih _ (size ▸ Nat.lt_succ_self rest.length) rest rfl
        exact ⟨line :: kept, .line opened more⟩

variable {chars : Text} {i length : Nat} {pieces rest later : List (Piece Char)}

/-- The text behind a position, in pieces. -/
structure Behind (chars : Text) (i : Nat) (pieces : List (Piece Char)) : Prop where
  within : i ≤ chars.length
  here : chars.drop i = render '`' pieces
  maximal : Maximal '`' pieces

theorem Behind.total (behind : Behind chars i pieces) : i + width pieces = chars.length := by
  have total := congrArg List.length behind.here
  rw [List.length_drop, length_render] at total
  have := behind.within
  omega

theorem Behind.nil (behind : Behind chars i []) : i = chars.length := behind.total

theorem Behind.item {item : Char} (behind : Behind chars i (.plain item :: rest)) :
    chars[i]? = some item ∧ item ≠ '`' ∧ Behind chars (i + 1) rest := by
  have total := behind.total
  have here := behind.here
  rw [render_cons, Piece.text, List.singleton_append] at here
  refine ⟨?_, behind.maximal.proper _ List.mem_cons_self, ?_, ?_, behind.maximal.tail⟩
  · rw [← List.head?_drop, here, List.head?_cons]
  · simp only [width, List.map_cons, List.sum_cons, Piece.width] at total
    omega
  · rw [← List.drop_drop, here]
    rfl

theorem Behind.run (behind : Behind chars i (.run length :: rest)) :
    chars[i]? = some '`' ∧ ticksAt chars i = length ∧ Behind chars (i + length) rest ∧
      (chars.drop i).take length = List.replicate length '`' := by
  have total := behind.total
  have here := behind.here
  have positive := behind.maximal.proper (.run length) List.mem_cons_self
  rw [render_cons, Piece.text] at here
  refine ⟨?_, ?_, ⟨?_, ?_, behind.maximal.tail⟩, ?_⟩
  · rw [← List.head?_drop, here, head?_replicate_append positive]
  · have ticks : ∀ char ∈ List.replicate length '`', decide (char = '`') = true :=
      fun char member => decide_eq_true (List.eq_of_mem_replicate member)
    have stops : (render '`' rest).takeWhile (· = '`') = [] := by
      have other := behind.maximal.head?_render
      cases text : render '`' rest with
      | nil => rfl
      | cons char later =>
        rw [text] at other
        exact List.takeWhile_cons_of_neg (by simpa using other)
    rw [ticksAt, here, List.takeWhile_append_of_pos ticks, stops, List.append_nil,
      List.length_replicate]
  · simp only [width, List.map_cons, List.sum_cons, Piece.width] at total
    omega
  · rw [← List.drop_drop, here]
    exact List.drop_left' (List.length_replicate ..)
  · rw [here]
    exact List.take_left' (List.length_replicate ..)

theorem Behind.suffix (behind : Behind chars i pieces) (suffix : later <:+ pieces) :
    Behind chars (chars.length - width later) later where
  within := Nat.sub_le _ _
  here := by
    have total := behind.total
    obtain ⟨before, rfl⟩ := suffix
    have parts : width (before ++ later) = width before + width later := by simp [width]
    have position : chars.length - width later = i + width before := by omega
    rw [position, ← List.drop_drop, behind.here, render_append, ← @length_render Char '`' before]
    exact List.drop_left
  maximal := behind.maximal.suffix suffix

theorem findClose_item {char : Char} (fits : length ≤ chars.length)
    (more : i ≤ chars.length - length) (here : chars[i]? = some char) (other : char ≠ '`') :
    findClose chars length i = findClose chars length (i + 1) := by
  conv_lhs => rw [findClose, if_neg (Nat.not_lt_of_le fits), if_pos more]
  split <;> simp_all

theorem findClose_tick (fits : length ≤ chars.length) (more : i ≤ chars.length - length)
    (here : chars[i]? = some '`') :
    findClose chars length i =
      if ticksAt chars i = length then some (true, i + ticksAt chars i)
      else findClose chars length (i + ticksAt chars i) := by
  conv_lhs => rw [findClose, if_neg (Nat.not_lt_of_le fits), if_pos more]
  split <;> simp_all

/-- The search finds the pieces behind the next run of the same length, or ends where less than
that length is left. -/
theorem findClose_eq (behind : Behind chars i pieces) (positive : 0 < length)
    (fits : length ≤ chars.length) :
    findClose chars length i =
      match afterRun length pieces with
      | some later => some (true, chars.length - width later)
      | none => some (false, chars.length - width (skip length pieces)) := by
  induction pieces generalizing i with
  | nil =>
    have ended := behind.nil
    rw [findClose, if_neg (by omega), if_neg (by omega), ended]
    rfl
  | cons piece rest ih =>
    have total := behind.total
    by_cases wide : length ≤ width (piece :: rest)
    · have more : i ≤ chars.length - length := by omega
      rw [skip, if_pos wide]
      cases piece with
      | plain item =>
        obtain ⟨here, other, next⟩ := behind.item
        rw [findClose_item fits more here other, ih next, afterRun]
      | run count =>
        obtain ⟨here, ticks, next, -⟩ := behind.run
        rw [findClose_tick fits more here, ticks, afterRun]
        split_ifs with same
        · have ended := next.total
          simp only [Option.some.injEq, Prod.mk.injEq, true_and]
          omega
        · exact ih next
    · have alone : afterRun length (piece :: rest) = none := by
        rw [afterRun_eq_none_iff]
        exact fun member => wide (le_width_of_mem member)
      rw [findClose, if_neg (by omega), if_neg (by omega), alone, skip, if_neg wide, ← total,
        Nat.add_sub_cancel]

theorem stripFrom_found {next : Nat} (here : chars[i]? = some '`')
    (search : findClose chars (ticksAt chars i) (i + ticksAt chars i) = some (true, next))
    (result : Text) : stripFrom chars i result = stripFrom chars next result := by
  obtain ⟨inside, char⟩ := List.getElem?_eq_some_iff.mp here
  conv_lhs => rw [stripFrom, dif_pos inside, dif_pos char]
  dsimp only
  split <;> simp_all

theorem stripFrom_alone {next : Nat} (here : chars[i]? = some '`')
    (search : findClose chars (ticksAt chars i) (i + ticksAt chars i) = some (false, next))
    (bound : i + ticksAt chars i ≤ chars.length) (result : Text) :
    stripFrom chars i result =
      stripFrom chars next (result ++ (chars.drop i).take (ticksAt chars i)) := by
  obtain ⟨inside, char⟩ := List.getElem?_eq_some_iff.mp here
  conv_lhs => rw [stripFrom, dif_pos inside, dif_pos char]
  dsimp only
  split <;> simp_all

/-- From any position inside the text, the rest is what the scanned pieces give. -/
theorem stripFrom_eq (behind : Behind chars i pieces) (result : Text) :
    stripFrom chars i result = some (result ++ render '`' (scanned pieces)) := by
  induction size : pieces.length using Nat.strong_induction_on generalizing pieces i result with
  | _ size ih =>
    cases pieces with
    | nil =>
      rw [stripFrom, dif_neg (Nat.not_lt_of_le behind.nil.ge), reading_scanned.empty]
      simp
    | cons piece rest =>
      have smaller : rest.length < (piece :: rest).length := Nat.lt_succ_self _
      rw [size] at smaller
      cases piece with
      | plain item =>
        obtain ⟨here, other, next⟩ := behind.item
        obtain ⟨inside, char⟩ := List.getElem?_eq_some_iff.mp here
        rw [stripFrom, dif_pos inside, char, dif_neg other, ih _ smaller next _ rfl,
          reading_scanned.item]
        simp [Piece.text]
      | run length =>
        obtain ⟨here, ticks, next, taken⟩ := behind.run
        have positive := behind.maximal.proper (.run length) List.mem_cons_self
        have bound := next.within
        have search := findClose_eq next positive (by omega)
        cases found : afterRun length rest with
        | some later =>
          obtain ⟨inside, parts, -⟩ := afterRun_eq_some found
          have shorter := length_afterRun_lt found
          have suffix : later <:+ rest :=
            parts ▸ (List.suffix_cons _ _).trans (List.suffix_append inside _)
          rw [found, ← ticks] at search
          rw [stripFrom_found here search, scanned_of_found found]
          exact ih _ (by omega) (next.suffix suffix) result rfl
        | none =>
          have suffix := suffix_skip length rest
          have shorter := suffix.length_le
          rw [found, ← ticks] at search
          rw [stripFrom_alone here search (by omega), ticks, taken,
            ih _ (by omega) (next.suffix suffix) _ rfl, scanned_of_none found]
          simp [Piece.text]

/-- A text without its spans of inline code. -/
def withoutInlineCode (text : Text) : Text := render '`' (withoutSpans (piecesOf '`' text))

/-- Every run of backticks that opens no span has less text behind it than its own length. -/
def ShortTails (text : Text) : Prop := Settled (piecesOf '`' text)

/-- A body is stripped of its fenced blocks and its spans of inline code, and of nothing else. -/
def StripsCode (body : Text) (outcome : Option Text) : Prop :=
  ∃ kept, Unfenced (lines body) kept ∧ outcome = some (withoutInlineCode (['\n'].intercalate kept))

theorem strip_eq (body : Text) :
    stripCodeBlocksAndInlineCode body = some (render '`' (scanned
      (piecesOf '`' (['\n'].intercalate (linesOutside none (lines body)))))) :=
  stripFrom_eq ⟨Nat.zero_le _, (render_piecesOf _).symm, maximal_piecesOf _⟩ []

/-- Stripping a body never leaves the text. Where none of the lines outside of the fenced blocks
starts with a span, it strips code and nothing else exactly when every run of backticks outside of
fenced blocks and spans has its closing run or less text behind it than its own length. -/
theorem stripsCode_iff (body : Text) :
    (stripCodeBlocksAndInlineCode body).isSome = true ∧
      ∃ kept, (∀ other, Unfenced (lines body) other ↔ kept = other) ∧
        ((∀ line ∈ kept, ¬StartsSpan line) →
          (StripsCode body (stripCodeBlocksAndInlineCode body) ↔
            ShortTails (['\n'].intercalate kept))) := by
  rw [strip_eq]
  obtain ⟨kept, unfenced⟩ := exists_unfenced (lines body)
  have only (other : List Text) : Unfenced (lines body) other ↔ kept = other :=
    ⟨unfenced.unique, fun same => same ▸ unfenced⟩
  refine ⟨rfl, kept, only, fun spanless => ?_⟩
  rw [unfenced.linesOutside spanless]
  unfold StripsCode
  simp only [only, exists_eq_left', Option.some.injEq]
  exact scanned_eq_iff (maximal_piecesOf _)

/-- A link, a fenced block and two spans, the second one in backticks that a single one is
behind. -/
theorem stripsCode_fenced :
    StripsCode "[[a]] `b`\n~~~ `\n[[c]]\n~~~\n``d``".toList
      (stripCodeBlocksAndInlineCode "[[a]] `b`\n~~~ `\n[[c]]\n~~~\n``d``".toList) := by
  have opens : Opens "~~~ `".toList '~' 3 :=
    ⟨.inr rfl, le_rfl, " `".toList, ⟨⟨[], rfl, by simp⟩, by decide⟩, by decide⟩
  have unfenced : Unfenced (lines "[[a]] `b`\n~~~ `\n[[c]]\n~~~\n``d``".toList)
      ["[[a]] `b`".toList, "``d``".toList] := by
    refine .line (not_opens (by decide)) (@Unfenced.block _ _ ["[[c]]".toList] _ _ _ _ opens ?_
      ((opens.closes_iff _).mp (by decide)) (.line (not_opens (by decide)) .nil))
    intro other member
    rw [List.mem_singleton.mp member, ← opens.closes_iff]
    decide
  obtain ⟨-, kept, only, exactly⟩ := stripsCode_iff "[[a]] `b`\n~~~ `\n[[c]]\n~~~\n``d``".toList
  obtain rfl := (only _).mp unfenced
  refine (exactly ?_).mpr ?_
  · intro line member starts
    refine starts.detected ?_
    fin_cases member <;> decide
  · exact (scanned_eq_iff (maximal_piecesOf _)).mp (by decide +kernel)

/-- A backtick without another one, and a link behind it. -/
theorem link_lost : ¬∀ body, StripsCode body (stripCodeBlocksAndInlineCode body) := by
  intro all
  have outside : Unfenced (lines "a ` [[b]]".toList) ["a ` [[b]]".toList] :=
    .line (not_opens (by decide)) .nil
  obtain ⟨kept, unfenced, outcome⟩ := all "a ` [[b]]".toList
  rw [unfenced.unique outside] at outcome
  exact absurd outcome (by decide +kernel)

end Mdbase.Expressions
