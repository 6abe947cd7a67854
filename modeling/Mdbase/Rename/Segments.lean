import Mdbase.Rename.Body

/-!
# The segments of a line

A line is cut into links and the text between them, from its start to its end. The scan of a line
rewrites its segments one after the other, so that the scan panics exactly at a link whose
destination would begin behind the end of the line.
-/

namespace Mdbase.Rename

open Library

variable {ε : Type}

/-- A part of a line. The destination of a markdown link is what is before the closing character;
a dangling link ends with its opening parenthesis. -/
inductive Segment where
  | text (chars : Text)
  | wikilink (embed : Bool) (inner : Text)
  | markdown (label href : Text) (closing : Char)
  | dangling (label : Text)
  deriving DecidableEq

namespace Segment

/-- What marks an embed. -/
def marker (embed : Bool) : Text := if embed then ['!'] else []

/-- The text of a segment. -/
def source : Segment → Text
  | text chars => chars
  | wikilink embed inner => marker embed ++ ['[', '['] ++ inner ++ [']', ']']
  | markdown label href closing => label ++ ['('] ++ href ++ [closing]
  | dangling label => label ++ ['(']

/-- A link is rewritten. -/
def accepted (rewriting : Rewriting ε) : Segment → Except (Failure ε) Bool
  | text _ => .ok false
  | wikilink _ inner => rewriting.resolves (['[', '['] ++ inner ++ [']', ']'])
  | markdown _ href _ => rewriting.accepts href
  | dangling _ => .error .panic

/-- A link with its new target. -/
def rewritten (rewriting : Rewriting ε) : Segment → Text
  | text chars => chars
  | wikilink embed inner =>
    marker embed ++ ['[', '['] ++ rewriteWikilinkInner rewriting inner ++ [']', ']']
  | markdown label href _ => label ++ ['('] ++ rewriting.newRel ++ (cutAt '#' href).2 ++ [')']
  | dangling label => label ++ ['(']

/-- What the scan makes of a segment. -/
def rewrite (rewriting : Rewriting ε) (segment : Segment) : Except (Failure ε) Text :=
  (segment.accepted rewriting).map fun accepted =>
    if accepted then segment.rewritten rewriting else segment.source

end Segment

/-- A text up to the end of its first run of just so many backticks. -/
def closeRun (count : Nat) : Text → Option (Text × Text)
  | [] => none
  | char :: rest =>
    if char = '`' then
      let run := char :: rest.takeWhile (· = '`')
      let later := rest.dropWhile (· = '`')
      if run.length = count then some (run, later)
      else (closeRun count later).map fun (inside, after) => (run ++ inside, after)
    else (closeRun count rest).map fun (inside, after) => (char :: inside, after)
termination_by text => text.length
decreasing_by
  · exact Nat.lt_succ_of_le (List.dropWhile_sublist _).length_le
  · exact Nat.lt_succ_self _

/-- A text before its first two closing brackets, and the text behind them. -/
def splitBrackets : Text → Option (Text × Text)
  | [] => none
  | char :: rest =>
    match char, rest with
    | ']', ']' :: later => some ([], later)
    | char, rest => (splitBrackets rest).map fun (inner, later) => (char :: inner, later)

/-- A text up to the bracket that closes so many open ones. -/
def splitBalanced (opening closing : Char) : Nat → Text → Text × Text
  | _, [] => ([], [])
  | 0, rest => ([], rest)
  | depth + 1, char :: rest =>
    let (inside, later) :=
      splitBalanced opening closing (depthAfter opening closing char (depth + 1)) rest
    (char :: inside, later)

/-- Inline code, or the rest of a line whose code is not closed. -/
def codeSegment (text : Text) : Segment × Text :=
  let ticks := text.takeWhile (· = '`')
  match closeRun ticks.length (text.dropWhile (· = '`')) with
  | some (inside, later) => (.text (ticks ++ inside), later)
  | none => (.text text, [])

/-- A wikilink, or the rest of a line whose brackets are not closed. -/
def wikilinkSegment (embed : Bool) (content : Text) : Segment × Text :=
  match splitBrackets content with
  | some (inner, later) => (.wikilink embed inner, later)
  | none => (.text (Segment.marker embed ++ ['[', '['] ++ content), [])

/-- A markdown link that is cut behind its destination. -/
def closeDestination (label : Text) (destination : Text × Text) : Segment × Text :=
  match destination.1.getLast? with
  | some closing => (.markdown label destination.1.dropLast closing, destination.2)
  | none => (.dangling label, destination.2)

/-- A label with the destination behind it, if there is one. -/
def destinationSegment (label : Text) : Text → Segment × Text
  | '(' :: destination => closeDestination label (splitBalanced '(' ')' 1 destination)
  | rest => (.text label, rest)

/-- A markdown link behind its opening, or a label. -/
def markdownSegment (opening content : Text) : Segment × Text :=
  let label := splitBalanced '[' ']' 1 content
  destinationSegment (opening ++ label.1) label.2

/-- The first segment of a line and the rest of the line. -/
def cutSegment (char : Char) (rest : Text) : Segment × Text :=
  if char = '`' then codeSegment (char :: rest)
  else if char = '!' ∧ rest.head? = some '[' then
    if rest.tail.head? = some '[' then wikilinkSegment true rest.tail.tail
    else markdownSegment ['!', '['] rest.tail
  else if char = '[' ∧ rest.head? = some '[' then wikilinkSegment false rest.tail
  else if char = '[' then markdownSegment ['['] rest
  else (.text [char], rest)

variable {text inside later : Text}

theorem closeRun_append {count : Nat}
    (closed : closeRun count text = some (inside, later)) : inside ++ later = text := by
  fun_induction closeRun count text generalizing inside later with
  | case1 => cases closed
  | case2 rest =>
    cases closed
    exact congrArg (List.cons '`') List.takeWhile_append_dropWhile
  | case3 rest =>
    rename_i ih
    obtain ⟨⟨more, after⟩, found, same⟩ := Option.map_eq_some_iff.mp closed
    cases same
    rw [List.append_assoc, ih found]
    exact congrArg (List.cons '`') List.takeWhile_append_dropWhile
  | case4 char rest _ ih =>
    obtain ⟨⟨more, after⟩, found, same⟩ := Option.map_eq_some_iff.mp closed
    cases same
    have := ih found
    simp_all

theorem splitBrackets_append {text inner later : Text}
    (closed : splitBrackets text = some (inner, later)) : inner ++ ']' :: ']' :: later = text := by
  fun_induction splitBrackets text generalizing inner later with
  | case1 => cases closed
  | case2 later =>
    cases closed
    rfl
  | case3 char rest _ ih =>
    obtain ⟨⟨more, after⟩, found, same⟩ := Option.map_eq_some_iff.mp closed
    cases same
    have := ih found
    simp_all

theorem splitBalanced_append (opening closing : Char) (depth : Nat) (text : Text) :
    (splitBalanced opening closing depth text).1 ++ (splitBalanced opening closing depth text).2 =
      text := by
  fun_induction splitBalanced opening closing depth text with
  | case1 => rfl
  | case2 => rfl
  | case3 => simp_all

theorem splitBalanced_one_ne_nil {opening closing : Char} {text : Text} (nonempty : text ≠ []) :
    (splitBalanced opening closing 1 text).1 ≠ [] := by
  cases text with
  | nil => exact absurd rfl nonempty
  | cons char rest => nofun

theorem codeSegment_append (text : Text) :
    (codeSegment text).1.source ++ (codeSegment text).2 = text := by
  unfold codeSegment
  dsimp only
  split
  next inside later closed =>
    have rest := closeRun_append closed
    rw [Segment.source, List.append_assoc, rest, List.takeWhile_append_dropWhile]
  next => exact List.append_nil text

theorem wikilinkSegment_append (embed : Bool) (content : Text) :
    (wikilinkSegment embed content).1.source ++ (wikilinkSegment embed content).2 =
      Segment.marker embed ++ ['[', '['] ++ content := by
  unfold wikilinkSegment
  split
  next inner later closed =>
    rw [← splitBrackets_append closed]
    simp [Segment.source]
  next => exact List.append_nil _

theorem closeDestination_append (label : Text) (destination : Text × Text) :
    (closeDestination label destination).1.source ++ (closeDestination label destination).2 =
      label ++ ['('] ++ (destination.1 ++ destination.2) := by
  unfold closeDestination
  split
  next closing last =>
    have parts := List.dropLast_append_getLast? closing last
    conv_rhs => rw [← parts]
    simp [Segment.source]
  next last =>
    rw [List.getLast?_eq_none_iff.mp last]
    rfl

theorem destinationSegment_append (label rest : Text) :
    (destinationSegment label rest).1.source ++ (destinationSegment label rest).2 =
      label ++ rest := by
  unfold destinationSegment
  split
  next destination =>
    rw [closeDestination_append, splitBalanced_append]
    simp
  next => rfl

theorem markdownSegment_append (opening content : Text) :
    (markdownSegment opening content).1.source ++ (markdownSegment opening content).2 =
      opening ++ content := by
  rw [markdownSegment, destinationSegment_append, List.append_assoc, splitBalanced_append]

variable {char : Char}

theorem cons_tail_of_head? {rest : Text} (first : rest.head? = some char) :
    rest = char :: rest.tail :=
  List.eq_cons_of_mem_head? first

theorem cutSegment_append (char : Char) (rest : Text) :
    (cutSegment char rest).1.source ++ (cutSegment char rest).2 = char :: rest := by
  unfold cutSegment
  split_ifs with tick image embed link label
  · exact codeSegment_append _
  · rw [wikilinkSegment_append, image.1, cons_tail_of_head? image.2, List.tail_cons,
      cons_tail_of_head? embed]
    rfl
  · rw [markdownSegment_append, image.1, cons_tail_of_head? image.2]
    rfl
  · rw [wikilinkSegment_append, link.1, cons_tail_of_head? link.2]
    rfl
  · rw [markdownSegment_append, label]
    rfl
  · rfl

theorem codeSegment_ne_nil {text : Text} (nonempty : text.takeWhile (· = '`') ≠ []) :
    (codeSegment text).1.source ≠ [] := by
  have present : text ≠ [] := by
    rintro rfl
    exact nonempty rfl
  unfold codeSegment
  dsimp only
  split
  · exact List.append_ne_nil_of_left_ne_nil nonempty _
  · exact present

theorem wikilinkSegment_ne_nil (embed : Bool) (content : Text) :
    (wikilinkSegment embed content).1.source ≠ [] := by
  unfold wikilinkSegment
  split <;> simp [Segment.source]

theorem markdownSegment_ne_nil {opening : Text} (nonempty : opening ≠ []) (content : Text) :
    (markdownSegment opening content).1.source ≠ [] := by
  unfold markdownSegment destinationSegment
  dsimp only
  split
  · unfold closeDestination
    split <;> simp [Segment.source]
  · exact List.append_ne_nil_of_left_ne_nil nonempty _

theorem cutSegment_ne_nil (char : Char) (rest : Text) : (cutSegment char rest).1.source ≠ [] := by
  unfold cutSegment
  split_ifs with tick
  · exact codeSegment_ne_nil (by simp [tick])
  · exact wikilinkSegment_ne_nil true _
  · exact markdownSegment_ne_nil (by decide) _
  · exact wikilinkSegment_ne_nil false _
  · exact markdownSegment_ne_nil (by decide) _
  · exact List.cons_ne_nil _ _

theorem length_cutSegment_lt (char : Char) (rest : Text) :
    (cutSegment char rest).2.length < (char :: rest).length := by
  have whole := congrArg List.length (cutSegment_append char rest)
  have taken := List.length_pos_iff.mpr (cutSegment_ne_nil char rest)
  rw [List.length_append] at whole
  omega

/-- The segments of a line. -/
def segments : Text → List Segment
  | [] => []
  | char :: rest => (cutSegment char rest).1 :: segments (cutSegment char rest).2
termination_by line => line.length
decreasing_by exact length_cutSegment_lt char rest

theorem source_segments (line : Text) : (segments line).flatMap Segment.source = line := by
  fun_induction segments line with
  | case1 => rfl
  | case2 char rest ih => rw [List.flatMap_cons, ih, cutSegment_append]

theorem slice_eq {chars taken rest : Text} {i : Nat} (here : chars.drop i = taken ++ rest)
    (inside : i ≤ chars.length) :
    slice (ε := ε) chars i (i + taken.length) = .ok taken := by
  have length := congrArg List.length here
  rw [List.length_drop, List.length_append] at length
  unfold slice
  rw [if_pos ⟨Nat.le_add_right _ _, by omega⟩, here, Nat.add_sub_cancel_left, List.take_left]

variable {i : Nat}

theorem drop_add {chars taken rest : Text} (here : chars.drop i = taken ++ rest) :
    chars.drop (i + taken.length) = rest := by
  rw [← List.drop_drop, here, List.drop_left]

theorem le_length_closeRun {count : Nat}
    (closed : closeRun count text = some (inside, later)) : count ≤ inside.length := by
  fun_induction closeRun count text generalizing inside later with
  | case1 => cases closed
  | case2 rest =>
    cases closed
    exact Nat.le_of_eq (Eq.symm ‹_›)
  | case3 rest =>
    rename_i ih
    obtain ⟨⟨more, after⟩, found, same⟩ := Option.map_eq_some_iff.mp closed
    cases same
    rw [List.length_append]
    exact Nat.le_add_left_of_le (ih found)
  | case4 char rest _ ih =>
    obtain ⟨⟨more, after⟩, found, same⟩ := Option.map_eq_some_iff.mp closed
    cases same
    exact Nat.le_succ_of_le (ih found)

variable {chars : Text}

theorem drop_of_getElem? (here : chars[i]? = some char) :
    chars.drop i = char :: chars.drop (i + 1) := by
  obtain ⟨inside, rfl⟩ := List.getElem?_eq_some_iff.mp here
  exact List.drop_eq_getElem_cons inside

variable {chars rest : Text}

theorem tickCount_eq (here : chars.drop i = '`' :: rest) :
    tickCount chars i = ('`' :: rest.takeWhile (· = '`')).length := by
  rw [tickCount, here, List.takeWhile_cons_of_pos (by decide)]

theorem drop_tickCount (here : chars.drop i = '`' :: rest) :
    chars.drop (i + tickCount chars i) = rest.dropWhile (· = '`') := by
  rw [tickCount_eq here]
  refine drop_add ?_
  rw [here, List.cons_append, List.takeWhile_append_dropWhile]

theorem findClose_eq {count i : Nat} (positive : 0 < count) :
    findClose (ε := ε) chars count i =
      .ok ((closeRun count (chars.drop i)).map fun cut => i + cut.1.length) := by
  fun_induction findClose (ε := ε) chars count i with
  | case1 i small outside =>
    rw [List.getElem?_eq_none_iff] at outside
    omega
  | case2 i =>
    have here := drop_of_getElem? ‹chars[i]? = some '`'›
    have same : tickCount chars i = count := ‹_›
    rw [here, closeRun, if_pos rfl, if_pos (by rw [← tickCount_eq here, same])]
    rw [Option.map_some, ← tickCount_eq here]
  | case3 i =>
    rename_i ih
    have here := drop_of_getElem? ‹chars[i]? = some '`'›
    have differ : tickCount chars i ≠ count := ‹_›
    rw [ih, here, closeRun, if_pos rfl, if_neg (by rwa [← tickCount_eq here]),
      drop_tickCount here, Option.map_map]
    congr 2
    funext cut
    simp only [Function.comp, List.length_append, ← tickCount_eq here]
    exact Nat.add_assoc _ _ _
  | case4 i _ char here other ih =>
    rw [ih, drop_of_getElem? here, closeRun, if_neg other, Option.map_map]
    congr 2
    funext cut
    simp only [Function.comp, List.length_cons]
    omega
  | case5 i large =>
    cases closed : closeRun count (chars.drop i) with
    | none => rfl
    | some cut =>
      have fits := le_length_closeRun closed
      have whole := congrArg List.length (closeRun_append closed)
      rw [List.length_append, List.length_drop] at whole
      omega

theorem splitBrackets_cons (char : Char) (rest : Text) :
    splitBrackets (char :: rest) =
      if char = ']' ∧ rest.head? = some ']' then some ([], rest.tail)
      else (splitBrackets rest).map fun cut => (char :: cut.1, cut.2) := by
  cases rest with
  | nil => simp [splitBrackets]
  | cons next later =>
    by_cases first : char = ']' <;> by_cases second : next = ']' <;>
      simp [splitBrackets, first, second]

theorem findBrackets_eq (inside : i ≤ chars.length) :
    findBrackets chars i =
      ((splitBrackets (chars.drop i)).map fun cut => i + cut.1.length).getD chars.length := by
  fun_induction findBrackets chars i with
  | case1 i more brackets =>
    rw [List.drop_eq_getElem_cons more, splitBrackets_cons, List.head?_drop, if_pos brackets]
    rfl
  | case2 i more brackets ih =>
    rw [List.drop_eq_getElem_cons more, splitBrackets_cons, List.head?_drop, if_neg brackets,
      ih more, Option.map_map]
    congr 2
    funext cut
    simp only [Function.comp, List.length_cons]
    omega
  | case3 i outside =>
    rw [List.drop_of_length_le (Nat.le_of_not_lt outside)]
    exact Nat.le_antisymm inside (Nat.le_of_not_lt outside)

theorem findBalanced_eq (opening closing : Char) (chars : Text) (i depth : Nat) :
    findBalanced opening closing chars i depth =
      i + (splitBalanced opening closing depth (chars.drop i)).1.length := by
  fun_induction findBalanced opening closing chars i depth with
  | case1 i depth more ih =>
    obtain ⟨before, rfl⟩ := Nat.exists_eq_add_of_lt more.2
    rw [ih, List.drop_eq_getElem_cons more.1]
    simp only [splitBalanced, List.length_cons, Nat.zero_add]
    omega
  | case2 i depth outside =>
    by_cases more : i < chars.length
    · have closed : depth = 0 := by omega
      rw [closed, List.drop_eq_getElem_cons more]
      rfl
    · rw [List.drop_of_length_le (Nat.le_of_not_lt more)]
      simp [splitBalanced]

theorem slice_rest {chars : Text} {i : Nat} (inside : i ≤ chars.length) :
    slice (ε := ε) chars i chars.length = .ok (chars.drop i) := by
  rw [slice, if_pos ⟨inside, Nat.le_refl _⟩, ← List.length_drop, List.take_length]

theorem le_of_drop (here : chars.drop i = char :: rest) : i < chars.length := by
  have length := congrArg List.length here
  rw [List.length_drop, List.length_cons] at length
  omega

/-- A turn of the loop rewrites a segment and goes on behind it. -/
def Scans (rewriting : Rewriting ε) (chars : Text) (result : Except (Failure ε) Step)
    (cut : Segment × Text) : Prop :=
  ∃ next : Option Nat, result = (cut.1.rewrite rewriting).map (⟨·, next⟩) ∧
    chars.drop (next.getD chars.length) = cut.2

variable {rewriting : Rewriting ε} {chars : Text} {i : Nat}

theorem codeSegment_tick (rest : Text) :
    codeSegment ('`' :: rest) =
      match closeRun ('`' :: rest.takeWhile (· = '`')).length (rest.dropWhile (· = '`')) with
      | some cut => (.text ('`' :: rest.takeWhile (· = '`') ++ cut.1), cut.2)
      | none => (.text ('`' :: rest), []) := by
  unfold codeSegment
  rw [List.takeWhile_cons_of_pos (by decide), List.dropWhile_cons_of_pos (by decide)]
  dsimp only
  split <;> simp_all

theorem inlineCode_scans {rest : Text} (here : chars.drop i = '`' :: rest) :
    Scans rewriting chars (inlineCode chars i) (codeSegment ('`' :: rest)) := by
  have inside := le_of_drop here
  have count := tickCount_eq here
  have positive : 0 < tickCount chars i := by
    rw [count]
    exact Nat.succ_pos _
  unfold inlineCode
  simp only [findClose_eq positive, drop_tickCount here]
  rw [codeSegment_tick, ← count]
  cases closed : closeRun (tickCount chars i) (rest.dropWhile (· = '`')) with
  | none =>
    refine ⟨none, ?_, List.drop_length⟩
    have source := slice_rest (ε := ε) inside.le
    simp only [Option.map_none, bind, Except.bind, source, here]
    rfl
  | some cut =>
    have whole : chars.drop i = '`' :: rest.takeWhile (· = '`') ++ cut.1 ++ cut.2 := by
      rw [here, List.append_assoc, closeRun_append closed, List.cons_append,
        List.takeWhile_append_dropWhile]
    have taken := slice_eq (ε := ε) whole inside.le
    have later := drop_add whole
    rw [List.length_append, ← count, ← Nat.add_assoc] at taken later
    refine ⟨some (i + tickCount chars i + cut.1.length), ?_, later⟩
    simp only [Option.map_some, bind, Except.bind, taken]
    rfl

/-- A wiki link is scanned as its segment is rewritten. -/
theorem wikilink_scans {embed : Bool} {content : Text}
    (here : chars.drop i = Segment.marker embed ++ ['[', '['] ++ content) :
    Scans rewriting chars
      (wikilink rewriting chars (Segment.marker embed) i (i + (Segment.marker embed).length + 2))
      (wikilinkSegment embed content) := by
  have inside : i + (Segment.marker embed).length + 2 ≤ chars.length := by
    have length := congrArg List.length here
    simp only [List.length_drop, List.length_append, List.length_cons, List.length_nil] at length
    omega
  have rest : chars.drop (i + (Segment.marker embed).length + 2) = content := by
    have dropped := drop_add here
    rwa [List.length_append, ← Nat.add_assoc] at dropped
  unfold wikilink wikilinkSegment
  simp only [findBrackets_eq inside, rest]
  cases closed : splitBrackets content with
  | none =>
    refine ⟨none, ?_, List.drop_length⟩
    have source := @slice_rest ε chars i (by omega)
    simp only [Option.map_none, Option.getD_none, Nat.lt_irrefl, if_false, source, here]
    rfl
  | some cut =>
    have brackets := splitBrackets_append closed
    have inner := slice_eq (ε := ε) (rest.trans brackets.symm) inside
    have whole : chars.drop i =
        Segment.marker embed ++ ['[', '['] ++ cut.1 ++ [']', ']'] ++ cut.2 := by
      rw [here, ← brackets]
      simp
    have source := slice_eq (ε := ε) whole (by omega)
    have later := drop_add whole
    have position : i + (Segment.marker embed ++ ['[', '['] ++ cut.1 ++ [']', ']']).length =
        i + (Segment.marker embed).length + 2 + cut.1.length + 2 := by
      simp only [List.length_append, List.length_cons, List.length_nil]
      omega
    have more : i + (Segment.marker embed).length + 2 + cut.1.length < chars.length := by
      have length := congrArg List.length brackets
      have total := congrArg List.length rest
      simp only [List.length_drop, List.length_append, List.length_cons] at length total
      omega
    rw [position] at source later
    refine ⟨some _, ?_, later⟩
    simp only [Option.map_some, Option.getD_some, if_pos more, inner, source, bind, Except.bind,
      Segment.rewrite, Segment.accepted]
    cases rewriting.resolves (['[', '['] ++ cut.1 ++ [']', ']']) with
    | error failure => rfl
    | ok accepted => cases accepted <;> rfl

theorem destinationSegment_of_ne (label : Text) {rest : Text} (other : rest.head? ≠ some '(') :
    destinationSegment label rest = (.text label, rest) := by
  unfold destinationSegment
  split
  · exact absurd rfl other
  · rfl

theorem slice_backwards (start : Nat) : slice (ε := ε) chars (start + 1) start = .error .panic := by
  rw [slice, if_neg (by omega)]

/-- A Markdown link is scanned as its segment is rewritten. -/
theorem markdownLink_scans {opening content : Text}
    (here : chars.drop i = opening ++ content) (inside : i + opening.length ≤ chars.length) :
    Scans rewriting chars (markdownLink rewriting chars i (i + opening.length))
      (markdownSegment opening content) := by
  have label := splitBalanced_append '[' ']' 1 content
  unfold markdownLink markdownSegment
  simp only [findBalanced_eq, drop_add here]
  generalize splitBalanced '[' ']' 1 content = cut at label
  obtain ⟨inner, rest⟩ := cut
  dsimp only at label ⊢
  have whole : chars.drop i = opening ++ inner ++ rest := by
    rw [here, ← label, List.append_assoc]
  have position : i + (opening ++ inner).length = i + opening.length + inner.length := by
    rw [List.length_append, Nat.add_assoc]
  have source := slice_eq (ε := ε) whole (by omega)
  have later := drop_add whole
  rw [position] at source later
  have next : chars[i + opening.length + inner.length]? = rest.head? := by
    rw [← later, List.head?_drop]
  generalize position' : i + opening.length + inner.length = stop at source later next
  by_cases parenthesis : rest.head? = some '('
  · obtain ⟨destination, rfl⟩ : ∃ destination, rest = '(' :: destination :=
      ⟨_, List.eq_cons_of_mem_head? parenthesis⟩
    have behind : chars.drop (stop + 1) = destination := by
      rw [← List.drop_drop, later]
      rfl
    simp only [next, parenthesis, if_true, behind, Nat.add_sub_cancel, source]
    rw [destinationSegment]
    have within := le_of_drop later
    have cut := splitBalanced_append '(' ')' 1 destination
    have nonempty := @splitBalanced_one_ne_nil '(' ')' destination
    generalize splitBalanced '(' ')' 1 destination = parts at cut nonempty
    obtain ⟨taken, after⟩ := parts
    dsimp only at cut nonempty ⊢
    unfold closeDestination
    cases last : taken.getLast? with
    | none =>
      have empty := List.getLast?_eq_none_iff.mp last
      rw [empty] at cut ⊢
      refine ⟨none, ?_, ?_⟩
      · simp only [List.length_nil, Nat.add_zero, Nat.add_sub_cancel, slice_backwards, bind,
          Except.bind]
        rfl
      · have ended : destination = [] := by
          by_contra more
          exact nonempty more empty
        rw [Option.getD_none, List.drop_length]
        exact (cut.trans ended).symm
    | some closing =>
      have parts := List.dropLast_append_getLast? closing last
      have length : taken.length = taken.dropLast.length + 1 := by
        rw [← parts]
        simp
      have href : slice (ε := ε) chars (stop + 1) (stop + 1 + taken.length - 1) =
          .ok taken.dropLast := by
        rw [length, ← Nat.add_assoc, Nat.add_sub_cancel]
        refine @slice_eq ε chars taken.dropLast ([closing] ++ after) (stop + 1) ?_ within
        rw [behind, ← List.append_assoc, parts, cut]
      have all : chars.drop i = opening ++ inner ++ ['('] ++ taken ++ after := by
        rw [whole, ← cut]
        simp
      have link := slice_eq (ε := ε) all (by omega)
      have onward := drop_add all
      have reached : i + (opening ++ inner ++ ['('] ++ taken).length = stop + 1 + taken.length := by
        rw [← position']
        simp only [List.length_append, List.length_cons, List.length_nil]
        omega
      rw [reached] at link onward
      refine ⟨some _, ?_, onward⟩
      simp only [href, link, bind, Except.bind, Segment.rewrite, Segment.accepted]
      cases rewriting.accepts taken.dropLast with
      | error failure => rfl
      | ok accepted =>
        cases accepted with
        | true => rfl
        | false =>
          have same : (Segment.markdown (opening ++ inner) taken.dropLast closing).source =
              opening ++ inner ++ ['('] ++ taken := by
            rw [Segment.source, List.append_assoc, parts]
          simp only [Except.map, Bool.false_eq_true, if_false, same]
          rfl
  · rw [next, if_neg parenthesis, source, destinationSegment_of_ne _ parenthesis]
    exact ⟨some stop, rfl, later⟩

theorem scanStep_scans {char : Char} {rest : Text} (here : chars.drop i = char :: rest) :
    Scans rewriting chars (scanStep rewriting chars i char) (cutSegment char rest) := by
  have inside := le_of_drop here
  have later : chars.drop (i + 1) = rest := by
    rw [← List.drop_drop, here]
    rfl
  have second : chars[i + 1]? = rest.head? := by rw [← later, List.head?_drop]
  have third : chars[i + 2]? = rest.tail.head? := by
    rw [← later, List.tail_drop, List.head?_drop]
  unfold scanStep cutSegment
  rw [second, third]
  split_ifs with tick image embed link label
  · subst tick
    exact inlineCode_scans here
  · rw [image.1, cons_tail_of_head? image.2, cons_tail_of_head? embed] at here
    exact @wikilink_scans ε rewriting chars i true _ here
  · rw [cons_tail_of_head? image.2] at later
    rw [image.1, cons_tail_of_head? image.2] at here
    exact @markdownLink_scans ε rewriting chars i ['!', '['] _ here (le_of_drop later)
  · rw [link.1, cons_tail_of_head? link.2] at here
    exact @wikilink_scans ε rewriting chars i false _ here
  · rw [label] at here
    exact @markdownLink_scans ε rewriting chars i ['['] _ here inside
  · exact ⟨some (i + 1), rfl, later⟩

theorem segments_cons (char : Char) (rest : Text) :
    segments (char :: rest) = (cutSegment char rest).1 :: segments (cutSegment char rest).2 := by
  rw [segments]

/-- Scanning a line rewrites its segments one after the other. -/
theorem scanFrom_eq (result : Text) :
    scanFrom rewriting chars i result =
      ((segments (chars.drop i)).mapM (Segment.rewrite rewriting)).map
        fun pieces => result ++ pieces.flatten := by
  fun_induction scanFrom rewriting chars i result with
  | case1 i result inside failure stepped =>
    have here := List.drop_eq_getElem_cons inside
    obtain ⟨next, step, -⟩ := @scanStep_scans ε rewriting chars i _ _ here
    rw [here, segments_cons, List.mapM_cons]
    rw [stepped] at step
    cases first : Segment.rewrite rewriting (cutSegment chars[i] (chars.drop (i + 1))).1 with
    | error _ =>
      rw [first] at step
      cases step
      rfl
    | ok _ =>
      rw [first] at step
      cases step
  | case2 i result inside pushed stepped =>
    have here := List.drop_eq_getElem_cons inside
    obtain ⟨next, step, later⟩ := @scanStep_scans ε rewriting chars i _ _ here
    rw [here, segments_cons, List.mapM_cons, ← later]
    obtain ⟨_, first, same⟩ := map_eq_ok.mp (step.symm.trans stepped)
    cases same
    rw [first, Option.getD_none, List.drop_length, segments]
    simp [Except.map, bind, Except.bind, pure, Except.pure]
  | case3 i result inside pushed next stepped ih =>
    have here := List.drop_eq_getElem_cons inside
    obtain ⟨after, step, later⟩ := @scanStep_scans ε rewriting chars i _ _ here
    rw [here, segments_cons, List.mapM_cons, ih, ← later]
    obtain ⟨_, first, same⟩ := map_eq_ok.mp (step.symm.trans stepped)
    cases same
    rw [first, Option.getD_some]
    cases (segments (chars.drop next)).mapM (Segment.rewrite rewriting) with
    | error _ => rfl
    | ok pieces => simp [Except.map, bind, Except.bind, pure, Except.pure]
  | case4 i result outside =>
    rw [List.drop_of_length_le (Nat.le_of_not_lt outside), segments]
    simp [Except.map, pure, Except.pure]

theorem replaceLinksInLine_eq (rewriting : Rewriting ε) (line : Text) :
    replaceLinksInLine rewriting line =
      ((segments line).mapM (Segment.rewrite rewriting)).map List.flatten := by
  rw [replaceLinksInLine, scanFrom_eq, List.drop_zero]
  simp only [List.nil_append]

end Mdbase.Rename
