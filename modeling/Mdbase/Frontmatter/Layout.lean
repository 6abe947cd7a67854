import Mdbase.Frontmatter.RoundTrip
import Mdbase.Library.Bytes

/-!
# Byte offsets of a document

Reading finds the block of a document by byte offsets. Every offset is within the text and between
two characters, and what is read is the document as it is split into its mark, its delimiters, the
source of its frontmatter and its body. A document with a mapping is written in a form that is read
and written again unchanged, but for an empty mapping above a body that opens a block.
-/

namespace Mdbase.Frontmatter

open Library

/-- `ParsedDocumentLayout`. The range of the body ends with the text. -/
structure ByteLayout where
  frontmatter : Option YamlValue
  bodyStart : Nat
  hasFrontmatter : Bool
  hadBom : Bool

/-- `newline_len`: the bytes of the newline that a text starts with. -/
def newlineLen (suffix : Text) : Nat :=
  if ['\r', '\n'].isPrefixOf suffix then 2
  else if ['\n'].isPrefixOf suffix then 1
  else 0

/-- `parse_document_layout`, with its byte offsets: nothing stands for a panic of a slice. -/
def parseDocumentBytes (yaml : YamlLibrary) (content : Text) : Option ByteLayout := do
  let hadBom := [bom].isPrefixOf content
  let bomLen := if hadBom then bom.utf8Size else 0
  let withoutBom ← sliceFrom content bomLen
  let absent : ByteLayout :=
    { frontmatter := none, bodyStart := bomLen, hasFrontmatter := false, hadBom := hadBom }
  if ¬delimiter.isPrefixOf withoutBom then return absent
  -- `find('\n')`, or the end of the text
  let firstLineEnd := byteLength (withoutBom.takeWhile (· ≠ '\n'))
  let firstLine ← sliceTo withoutBom firstLineEnd
  if trimmedEnd firstLine ≠ delimiter then return absent
  let afterOpen := firstLineEnd + 1
  if byteLength withoutBom ≤ afterOpen then return absent
  let rest ← sliceFrom withoutBom afterOpen
  match byteOffsetOf isDelimiter 0 (splitInclusive '\n' rest) with
  | none => return absent
  | some closePosition =>
    let yamlSource ← sliceTo rest closePosition
    let afterClose := afterOpen + closePosition + 3
    let suffix ← sliceFrom withoutBom afterClose
    return {
      frontmatter := some (parseYamlSource yaml yamlSource)
      bodyStart := bomLen + afterClose + newlineLen suffix
      hasFrontmatter := true
      hadBom := hadBom }

/-- `ParsedDocumentLayout::body`. -/
def ByteLayout.body (layout : ByteLayout) (content : Text) : Option Text :=
  sliceFrom content layout.bodyStart

/-- What stands before the body of a document: nothing, or a block with the source of the
frontmatter. -/
inductive Head where
  | none
  | block (opening source newline : Text)

/-- The text of a head. -/
def Head.text : Head → Text
  | .none => []
  | .block opening source newline => opening ++ '\n' :: (source ++ (delimiter ++ newline))

/-- The parts of a head are what they stand for: the opening line is a delimiter and the block ends
with its newline, or without one. -/
def Head.WellFormed : Head → Prop
  | .none => True
  | .block opening _ newline => ('\n' ∉ opening ∧ trimmedEnd opening = delimiter) ∧
      newline ∈ [[], ['\n'], ['\r', '\n']]

/-- The frontmatter of a head. -/
def Head.frontmatter (yaml : YamlLibrary) : Head → Option YamlValue
  | .none => .none
  | .block _ source _ => some (parseYamlSource yaml source)

/-- The mark of a document. -/
def markOf (hadBom : Bool) : Text := if hadBom then [bom] else []

/-- A layout says how a text is split. -/
structure DocumentLayout.Splits (layout : DocumentLayout) (yaml : YamlLibrary) (content : Text)
    (head : Head) : Prop where
  wellFormed : head.WellFormed
  text : content = markOf layout.hadBom ++ head.text ++ layout.body
  frontmatter : layout.frontmatter = head.frontmatter yaml
  hasFrontmatter : layout.hasFrontmatter = layout.frontmatter.isSome

theorem markOf_append (content : Text) :
    markOf ([bom].isPrefixOf content) ++
      (if [bom].isPrefixOf content then content.drop 1 else content) = content := by
  unfold markOf
  split
  next marked =>
    obtain ⟨rest, rfl⟩ := List.isPrefixOf_iff_prefix.mp marked
    rfl
  next => rfl

theorem exists_newline (suffix : Text) :
    ∃ newline ∈ [[], ['\n'], ['\r', '\n']], suffix = newline ++ afterNewline suffix ∧
      newlineLen suffix = byteLength newline := by
  unfold afterNewline newlineLen
  split_ifs with carriage line
  · obtain ⟨rest, rfl⟩ := List.isPrefixOf_iff_prefix.mp carriage
    exact ⟨['\r', '\n'], by simp, rfl, rfl⟩
  · obtain ⟨rest, rfl⟩ := List.isPrefixOf_iff_prefix.mp line
    exact ⟨['\n'], by simp, rfl, rfl⟩
  · exact ⟨[], by simp, rfl, rfl⟩

theorem isPrefix_of_isDelimiter {line : Text} (closes : isDelimiter line = true) :
    delimiter <+: line := by
  have trimmed_ := of_decide_eq_true closes
  have stripped : ∀ (mark : Char) (text : Text), stripSuffix mark text <+: text := by
    intro mark text
    unfold stripSuffix
    split
    · exact List.dropLast_prefix _
    · exact List.prefix_refl _
  rw [← trimmed_]
  exact (isPrefix_trimmedEnd _).trans ((stripped _ _).trans (stripped _ _))

theorem exists_close {rest : Text} {closePosition : Nat}
    (closed : offsetOf isDelimiter 0 (splitInclusive '\n' rest) = some closePosition) :
    ∃ source tail, rest = source ++ (delimiter ++ tail) ∧ closePosition = source.length ∧
      byteOffsetOf isDelimiter 0 (splitInclusive '\n' rest) = some (byteLength source) := by
  obtain ⟨before, line, after, lines, closes, fails, rfl⟩ := exists_first_of_offsetOf closed
  obtain ⟨tail, rfl⟩ := isPrefix_of_isDelimiter closes
  refine ⟨before.flatten, tail ++ after.flatten, ?_, Nat.zero_add _, ?_⟩
  · conv_lhs => rw [← @flatten_splitInclusive _ _ '\n' rest, lines]
    simp
  · rw [lines, byteOffsetOf_append fails closes, Nat.zero_add]

variable (yaml : YamlLibrary)

theorem exists_splits (content : Text) :
    ∃ head, (parseDocumentLayout yaml content).Splits yaml content head := by
  have whole := markOf_append content
  generalize stripped :
    (if [bom].isPrefixOf content then content.drop 1 else content) = text at whole
  by_cases opens : opensBlock text
  · obtain ⟨first, rest, closePosition, rfl, free, opened, closed⟩ := exists_block opens
    obtain ⟨source, tail, rfl, rfl, -⟩ := exists_close closed
    obtain ⟨newline, ending, split, -⟩ := exists_newline tail
    rw [parseDocumentLayout_block yaml stripped.symm free opened closed]
    refine ⟨.block first source newline, ⟨⟨free, opened⟩, ending⟩, ?_, ?_, rfl⟩
    · rw [← List.drop_drop, List.drop_left, List.drop_left, List.append_assoc]
      refine whole.symm.trans (congrArg _ ?_)
      conv_lhs => rw [split]
      simp [Head.text]
    · rw [List.take_left]
      rfl
  · rw [parseDocumentLayout_of_not_opensBlock yaml stripped.symm opens]
    exact ⟨.none, trivial, by rw [Head.text, List.append_nil, whole], rfl, rfl⟩

/-- The offsets of a layout point at the parts of the text. -/
structure ByteLayout.PointsAt (bytes : ByteLayout) (layout : DocumentLayout) (content : Text) :
    Prop where
  body : bytes.body content = some layout.body
  frontmatter : bytes.frontmatter = layout.frontmatter
  hasFrontmatter : bytes.hasFrontmatter = layout.hasFrontmatter
  hadBom : bytes.hadBom = layout.hadBom

/-- The byte ranges of a layout point at its parts of the content. -/
theorem parseDocumentBytes_pointsAt (content : Text) :
    ∃ bytes, parseDocumentBytes yaml content = some bytes ∧
      bytes.PointsAt (parseDocumentLayout yaml content) content := by
  have whole := markOf_append content
  have size : byteLength (markOf ([bom].isPrefixOf content)) =
      if [bom].isPrefixOf content then bom.utf8Size else 0 := by
    unfold markOf
    split <;> rfl
  unfold parseDocumentBytes parseDocumentLayout
  dsimp only
  rw [← size]
  generalize (if [bom].isPrefixOf content then content.drop 1 else content) = text at whole ⊢
  generalize [bom].isPrefixOf content = hadBom at whole size ⊢
  subst whole
  have absent : ByteLayout.PointsAt ⟨none, byteLength (markOf hadBom), false, hadBom⟩
      ⟨none, text, false, hadBom⟩ (markOf hadBom ++ text) :=
    ⟨sliceFrom_append _ _, rfl, rfl, rfl⟩
  rw [sliceFrom_append]
  simp only [Option.bind_eq_bind, Option.bind_some, Option.pure_def]
  by_cases starts : delimiter.isPrefixOf text = true
  swap
  · rw [if_pos starts, if_pos starts]
    exact ⟨_, rfl, absent⟩
  rw [if_neg (not_not_intro starts), if_neg (not_not_intro starts)]
  have firstLine : sliceTo text (byteLength (text.takeWhile (· ≠ '\n'))) =
      some (text.takeWhile (· ≠ '\n')) := by
    have cut := List.takeWhile_append_dropWhile (p := fun character => character ≠ '\n') (l := text)
    conv_lhs => arg 1; rw [← cut]
    exact sliceTo_append _ _
  rw [firstLine]
  simp only [Option.bind_some]
  by_cases opened : trimmedEnd (text.takeWhile (· ≠ '\n')) = delimiter
  swap
  · rw [if_pos opened, if_pos opened]
    exact ⟨_, rfl, absent⟩
  rw [if_neg (not_not_intro opened), if_neg (not_not_intro opened)]
  rcases free_or_first '\n' text with free | ⟨first, rest, rfl, free⟩
  · -- the delimiter is the only line
    have whole : text.takeWhile (· ≠ '\n') = text := by
      rw [List.takeWhile_eq_self_iff]
      exact fun character member => decide_eq_true fun same => free (same ▸ member)
    rw [whole, if_pos (Nat.le_succ _), if_pos (Nat.le_succ _)]
    exact ⟨_, rfl, absent⟩
  rw [takeWhile_line free, drop_line]
  have bytes : byteLength (first ++ '\n' :: rest) = byteLength first + 1 + byteLength rest := by
    rw [byteLength_append, byteLength_cons, ← Nat.add_assoc]
    rfl
  by_cases empty : rest = []
  · subst empty
    rw [if_pos (Nat.le_of_eq (by simpa using bytes)), if_pos (Nat.le_of_eq (by simp))]
    exact ⟨_, rfl, absent⟩
  have longer := mt byteLength_eq_zero_iff.mp empty
  have nonempty := mt List.length_eq_zero_iff.mp empty
  have after : sliceFrom (first ++ '\n' :: rest) (byteLength first + 1) = some rest := by
    have cut := sliceFrom_append (first ++ ['\n']) rest
    rwa [byteLength_append, List.append_assoc] at cut
  rw [if_neg (by rw [bytes]; omega), if_neg (by simp; omega), after]
  simp only [Option.bind_some]
  cases closed : offsetOf isDelimiter 0 (splitInclusive '\n' rest) with
  | none =>
    rw [byteOffsetOf_eq_none_iff.mpr closed]
    exact ⟨_, rfl, absent⟩
  | some closePosition =>
    obtain ⟨source, tail, rfl, rfl, found⟩ := exists_close closed
    obtain ⟨newline, ending, split, size⟩ := exists_newline tail
    have suffix : sliceFrom (first ++ '\n' :: (source ++ (delimiter ++ tail)))
        (byteLength first + 1 + byteLength source + 3) = some tail := by
      have cut := sliceFrom_append (first ++ '\n' :: (source ++ delimiter)) tail
      have offset : byteLength (first ++ '\n' :: (source ++ delimiter)) =
          byteLength first + 1 + byteLength source + 3 := by
        simp only [byteLength_append, byteLength_cons, ← Nat.add_assoc]
        rfl
      rw [offset] at cut
      simpa using cut
    rw [found]
    simp only [sliceTo_append, Option.bind_some, suffix, List.take_left]
    refine ⟨_, rfl, ?_, rfl, rfl, rfl⟩
    rw [← List.drop_drop, List.drop_left, List.drop_left]
    have cut := sliceFrom_append
      (markOf hadBom ++ (first ++ '\n' :: (source ++ (delimiter ++ newline)))) (afterNewline tail)
    have offset : byteLength
          (markOf hadBom ++ (first ++ '\n' :: (source ++ (delimiter ++ newline)))) =
        byteLength (markOf hadBom) + (byteLength first + 1 + byteLength source + 3) +
          newlineLen tail := by
      simp only [size, byteLength_append, byteLength_cons, ← Nat.add_assoc]
      rfl
    rw [offset] at cut
    simpa only [ByteLayout.body, List.append_assoc, List.cons_append, ← split] using cut

/-- A document is read and written: nothing stands for frontmatter that is not a mapping, or that
the emitter refuses. A document without frontmatter is written without fields. -/
def rewritten (content : Text) : Option Text :=
  (parseDocumentLayout yaml content).storedMapping.bind fun entries =>
    serializeDocumentWithBom yaml (parseDocumentLayout yaml content).hadBom entries
      (parseDocumentLayout yaml content).body

/-- What a document with a mapping is written as does not change when it is read and written. -/
def Stable (content : Text) : Prop :=
  ∀ entries text, (parseDocumentLayout yaml content).frontmatter = some (.mapping entries) →
    rewritten yaml content = some text → rewritten yaml text = some text

/-- A text in the form in which documents with fields are written. -/
def Written (text : Text) : Prop :=
  ∃ fields source rest, ¬fields.isEmpty ∧ ¬yaml.EmitsBlank fields ∧
    yaml.toString fields = some source ∧ (rest = [] ∨ rest.getLast? = some '\n') ∧
      text = delimiter ++ ['\n'] ++ terminated source ++ delimiter ++ ['\n'] ++ rest

/-- The body of a document without a mark of its own. -/
def DocumentLayout.unmarkedBody (layout : DocumentLayout) : Text :=
  if ¬layout.hadBom ∧ [bom].isPrefixOf layout.body then layout.body.drop 1 else layout.body

/-- The source of a document and what is written for it are kept apart: the offsets of reading are
in place, the parts are the text, the body is its end, and writing is stable. -/
structure FaithfulSplit (content : Text) : Prop where
  reads : ∃ bytes, parseDocumentBytes yaml content = some bytes ∧
    bytes.PointsAt (parseDocumentLayout yaml content) content
  splits : ∃ head, (parseDocumentLayout yaml content).Splits yaml content head
  bodyIsSuffix : ∃ before offset, sliceTo content offset = some before ∧
    offset + byteLength (parseDocumentLayout yaml content).body = byteLength content ∧
      before ++ (parseDocumentLayout yaml content).body = content
  stable : Stable yaml content

variable {yaml}

theorem terminated_terminated (text : Text) : terminated (terminated text) = terminated text := by
  rw [terminated, if_pos (getLast?_terminated text)]

theorem serializeInner_writtenBody (entries : Mapping) (body : Text) :
    serializeInner yaml entries (writtenBody entries body) = serializeInner yaml entries body := by
  unfold writtenBody
  split_ifs with same
  · rfl
  · rw [Bool.or_eq_true, not_or] at same
    rw [serializeInner, serializeInner, if_neg same.1, if_neg same.1]
    refine congrArg (fun write => (yaml.toString entries).map write) (funext fun text => ?_)
    rw [terminated_terminated, if_neg same.2, if_neg]
    intro empty
    have ended := getLast?_terminated body
    rw [List.isEmpty_iff.mp empty] at ended
    cases ended

variable {entries : Mapping}

/-- A document that was written with fields is written unchanged exactly when the library does not
emit mere white space for them. -/
theorem rewritten_written_iff (faithful : yaml.Faithful) {hadBom : Bool}
    (fields : ¬entries.isEmpty) {body text : Text}
    (written : serializeDocumentWithBom yaml hadBom entries body = some text) :
    rewritten yaml text = some text ↔ ¬yaml.EmitsBlank entries := by
  obtain ⟨document, serialized, shape⟩ := Option.map_eq_some_iff.mp written
  rw [serializeInner, if_neg fields] at serialized
  obtain ⟨source, emitted, -⟩ := Option.map_eq_some_iff.mp serialized
  obtain ⟨marked, stored, kept⟩ := parseRecordLayout_written faithful fields emitted written
  rw [parseRecordLayout] at marked stored kept
  rw [rewritten, DocumentLayout.storedMapping, stored, marked, kept]
  constructor
  · -- a source of white space is read as no fields, so that the block is not written again
    rintro same ⟨_, again, blank⟩
    cases emitted.symm.trans again
    have bare : serializeDocumentWithBom yaml hadBom [] (writtenBody entries body) = some text := by
      rwa [parseYamlSource, if_pos blank] at same
    obtain ⟨_, alone, mark⟩ := Option.map_eq_some_iff.mp bare
    cases alone
    have shorter : document.length = (writtenBody entries body).length := by
      have lengths := congrArg List.length (shape.trans mark.symm)
      split at lengths
      · exact Nat.succ.inj lengths
      · exact lengths
    obtain ⟨_, emitted', rfl⟩ := Option.map_eq_some_iff.mp serialized
    rw [writtenBody, Bool.eq_false_of_not_eq_true fields, Bool.false_or] at shorter
    cases body <;> simp [delimiter] at shorter; omega
  · intro shown
    rw [faithful.parseYamlSource_terminated emitted shown]
    exact (congrArg (Option.map _) (serializeInner_writtenBody entries body)).trans written

theorem rewritten_of_empty {content text : Text}
    (empty : (parseDocumentLayout yaml content).storedMapping = some [])
    (written : rewritten yaml content = some text) :
    text = markOf (parseDocumentLayout yaml content).hadBom ++
      (parseDocumentLayout yaml content).body := by
  rw [rewritten, empty, Option.bind_some, serializeDocumentWithBom, serializeInner,
    if_pos List.isEmpty_nil] at written
  cases written
  unfold markOf
  split <;> rfl

/-- A text without its mark. -/
def unmarked (text : Text) : Text := if [bom].isPrefixOf text then text.drop 1 else text

theorem serializeDocumentWithBom_eq_iff {text document : Text} {body : Text}
    (whole : markOf ([bom].isPrefixOf text) ++ document = text) :
    serializeDocumentWithBom yaml ([bom].isPrefixOf text) entries body = some text ↔
      serializeInner yaml entries body = some document := by
  have marks : ∀ other : Text, (if [bom].isPrefixOf text then bom :: other else other) =
      markOf ([bom].isPrefixOf text) ++ other := by
    intro other
    unfold markOf
    split <;> rfl
  rw [serializeDocumentWithBom, Option.map_eq_some_iff]
  constructor
  · rintro ⟨other, written, same⟩
    rw [written, List.append_cancel_left ((marks other).symm.trans (same.trans whole.symm))]
  · exact fun written => ⟨document, written, by rw [marks, whole]⟩

/-- A text is read and written unchanged exactly when it has no block, or is in the form in which
documents are written. -/
theorem rewritten_self_iff (faithful : yaml.Faithful) (text : Text) :
    rewritten yaml text = some text ↔
      ¬opensBlock (unmarked text) ∨ Written yaml (unmarked text) := by
  have whole : markOf ([bom].isPrefixOf text) ++ unmarked text = text := markOf_append text
  by_cases opens : opensBlock (unmarked text) = true
  · rw [or_iff_right (not_not_intro opens)]
    constructor
    · intro same
      obtain ⟨entries, mapping, whole'⟩ := Option.bind_eq_some_iff.mp same
      have written := whole'
      rw [parseDocumentLayout_hadBom, serializeDocumentWithBom_eq_iff whole] at written
      have shorter := parseDocumentLayout_of_opensBlock yaml rfl opens
      by_cases fields : entries.isEmpty = true
      · rw [serializeInner, if_pos fields, Option.some.injEq] at written
        rw [written] at shorter
        exact absurd shorter (lt_irrefl _)
      · rw [serializeInner, if_neg fields] at written
        obtain ⟨source, emitted, written⟩ := Option.map_eq_some_iff.mp written
        refine ⟨entries, source, _, fields, (rewritten_written_iff faithful fields whole').mp same,
          emitted, ?_, written.symm⟩
        split
        · exact .inl rfl
        · exact .inr (getLast?_terminated _)
    · rintro ⟨fields, source, rest, nonempty, shown, emitted, ended, shape⟩
      have written : serializeInner yaml fields rest = some (unmarked text) := by
        rw [serializeInner, if_neg nonempty, emitted, Option.map_some, shape]
        rcases ended with rfl | ended
        · rfl
        · have kept : terminated rest = rest := if_pos ended
          rw [if_neg, kept]
          intro empty
          rw [List.isEmpty_iff.mp empty] at ended
          cases ended
      exact (rewritten_written_iff faithful nonempty
        ((serializeDocumentWithBom_eq_iff whole).mpr written)).mpr shown
  · refine iff_of_true ?_ (.inl opens)
    have layout := @parseDocumentLayout_of_not_opensBlock yaml text (unmarked text) rfl opens
    rw [rewritten, layout]
    exact (serializeDocumentWithBom_eq_iff whole).mpr rfl

theorem storedMapping_of_mapping {layout : DocumentLayout}
    (mapping : layout.frontmatter = some (.mapping entries)) :
    layout.storedMapping = some entries := by
  rw [DocumentLayout.storedMapping, mapping]
  rfl

theorem unmarked_written (layout : DocumentLayout) :
    unmarked (markOf layout.hadBom ++ layout.body) = layout.unmarkedBody := by
  unfold unmarked DocumentLayout.unmarkedBody markOf
  cases layout.hadBom with
  | true | false => simp

/-- What a document with the mapping is written as is read as such. A mapping with fields is not
emitted as mere white space. Without fields, the body opens no block but one in the form in which
documents are written. -/
def Rereadable (yaml : YamlLibrary) (layout : DocumentLayout) (entries : Mapping) : Prop :=
  if entries.isEmpty then ¬opensBlock layout.unmarkedBody ∨ Written yaml layout.unmarkedBody
  else ¬yaml.EmitsBlank entries

/-- A document with a mapping is written in a stable form exactly when what is written is read as
such. -/
theorem stable_iff (faithful : yaml.Faithful) (content : Text) :
    Stable yaml content ↔ ∀ entries,
      (parseDocumentLayout yaml content).frontmatter = some (.mapping entries) →
        Rereadable yaml (parseDocumentLayout yaml content) entries := by
  refine forall_congr' fun entries => ?_
  rw [forall_comm]
  refine forall_congr' fun mapping => ?_
  have stored := storedMapping_of_mapping mapping
  by_cases fields : entries.isEmpty = true
  · obtain rfl := List.isEmpty_iff.mp fields
    rw [Rereadable, if_pos fields]
    have again (text : Text) (written : rewritten yaml content = some text) :
        rewritten yaml text = some text ↔
          ¬opensBlock (parseDocumentLayout yaml content).unmarkedBody ∨
            Written yaml (parseDocumentLayout yaml content).unmarkedBody := by
      rw [rewritten_self_iff faithful, rewritten_of_empty stored written, unmarked_written]
    obtain ⟨text, written⟩ : ∃ text, rewritten yaml content = some text := by
      rw [rewritten, stored]
      exact ⟨_, rfl⟩
    exact ⟨fun stable => (again text written).mp (stable text written),
      fun condition other written => (again other written).mpr condition⟩
  · rw [Rereadable, if_neg fields, rewritten, stored, Option.bind_some]
    refine ⟨fun stable blank => ?_, fun shown text written =>
      (rewritten_written_iff faithful fields written).mpr shown⟩
    have ⟨source, emitted, _⟩ := blank
    have written : ∃ text, serializeDocumentWithBom yaml (parseDocumentLayout yaml content).hadBom
        entries (parseDocumentLayout yaml content).body = some text := by
      rw [serializeDocumentWithBom, serializeInner, if_neg fields, emitted]
      exact ⟨_, rfl⟩
    obtain ⟨text, written⟩ := written
    exact (rewritten_written_iff faithful fields written).mp (stable text written) blank

/-- A document is split faithfully exactly when what it is written as is read as such. -/
theorem faithfulSplit_iff (faithful : yaml.Faithful) (content : Text) :
    FaithfulSplit yaml content ↔ ∀ entries,
      (parseDocumentLayout yaml content).frontmatter = some (.mapping entries) →
        Rereadable yaml (parseDocumentLayout yaml content) entries := by
  refine ⟨fun split => (stable_iff faithful content).mp split.stable, fun condition => ?_⟩
  refine ⟨parseDocumentBytes_pointsAt yaml content, exists_splits yaml content, ?_,
    (stable_iff faithful content).mpr condition⟩
  obtain ⟨head, splits⟩ := exists_splits yaml content
  have text := splits.text
  generalize markOf (parseDocumentLayout yaml content).hadBom ++ head.text = before at text
  refine ⟨before, byteLength before, ?_, ?_, text.symm⟩
  · conv_lhs => rw [text]
    exact sliceTo_append _ _
  · conv_rhs => rw [text]
    exact (byteLength_append _ _).symm

/-- A document with a field above a body that looks like a document. -/
theorem faithfulSplit_title :
    FaithfulSplit titleYaml "---\ntitle: x\n---\n---\ntitle: x\n---\nrest".toList := by
  refine (faithfulSplit_iff titleYaml_faithful _).mpr fun entries mapping => ?_
  have read : (parseDocumentLayout titleYaml
      "---\ntitle: x\n---\n---\ntitle: x\n---\nrest".toList).frontmatter =
        some (.mapping [(.string "title", .string "x")]) := rfl
  rw [read] at mapping
  cases mapping
  exact titleYaml_shows

/-- The block of a body without fields above it is read as frontmatter, and a newline added. -/
theorem empty_mapping_not_stable :
    ¬∀ yaml : YamlLibrary, yaml.Faithful → ∀ content, FaithfulSplit yaml content := by
  intro all
  have stable := (all titleYaml titleYaml_faithful
    "---\n---\n---\ntitle: x\n---\nrest".toList).stable
  have again := stable [] "---\ntitle: x\n---\nrest".toList (by rfl) (by rfl)
  revert again
  decide

end Mdbase.Frontmatter
