import Mdbase.Library.Lines
import Mdbase.Library.Whitespace

/-!
# Documents with frontmatter

A record file is a text with an optional byte order mark, an optional block of YAML
between two delimiter lines, and a body. Writing decides whether there is a block by
the mapping; reading finds the block again by the delimiters in the text.
-/

namespace Mdbase.Frontmatter

open Library

/-- `serde_yaml::Value`; a number is its text. -/
inductive YamlValue where
  | null
  | bool (value : Bool)
  | number (value : String)
  | string (value : String)
  | sequence (items : List YamlValue)
  | mapping (entries : List (YamlValue × YamlValue))
  | tagged (tag : String) (value : YamlValue)

/-- `serde_yaml::Mapping`. -/
abbrev Mapping := List (YamlValue × YamlValue)

/-- The reader and the emitter of the YAML library; each may fail. -/
structure YamlLibrary where
  fromStr : Text → Option YamlValue
  toString : Mapping → Option Text

/-- `is_parse_error`. -/
def YamlValue.isParseError : YamlValue → Bool
  | .tagged tag _ => tag = "!parse_error"
  | _ => false

/-- `FrontmatterState`. -/
inductive FrontmatterState where
  | absent
  | mapping (entries : Mapping)
  | invalidYaml
  | null
  | nonMapping (value : YamlValue)

/-- `frontmatter_state`. -/
def frontmatterState : Option YamlValue → FrontmatterState
  | none => .absent
  | some value =>
    if value.isParseError then .invalidYaml
    else
      match value with
      | .mapping entries => .mapping entries
      | .null => .null
      | value => .nonMapping value

/-- `ParsedDocumentLayout`, with the body itself in place of its range. -/
structure DocumentLayout where
  frontmatter : Option YamlValue
  body : Text
  hasFrontmatter : Bool
  hadBom : Bool

/-- The byte order mark. -/
def bom : Char := '\uFEFF'

/-- The text of a delimiter line. -/
def delimiter : Text := ['-', '-', '-']

/-- `str::strip_suffix` for one character, or the text itself. -/
def stripSuffix (mark : Char) (text : Text) : Text :=
  if text.getLast? = some mark then text.dropLast else text

/-- A line, with its ending, that closes a block. -/
def isDelimiter (line : Text) : Bool :=
  trimmedEnd (stripSuffix '\r' (stripSuffix '\n' line)) = delimiter

/-- `parse_yaml_source`. -/
def parseYamlSource (yaml : YamlLibrary) (source : Text) : YamlValue :=
  if trimmed source = [] then .mapping []
  else (yaml.fromStr source).getD (.tagged "!parse_error" (.string (String.ofList source)))

/-- What follows the newline after a closing delimiter. -/
def afterNewline (suffix : Text) : Text :=
  if ['\r', '\n'].isPrefixOf suffix then suffix.drop 2
  else if ['\n'].isPrefixOf suffix then suffix.drop 1
  else suffix

/-- `parse_document_layout`. -/
def parseDocumentLayout (yaml : YamlLibrary) (content : Text) : DocumentLayout :=
  let hadBom := [bom].isPrefixOf content
  let withoutBom := if hadBom then content.drop 1 else content
  let absent : DocumentLayout :=
    { frontmatter := none, body := withoutBom, hasFrontmatter := false, hadBom := hadBom }
  if ¬delimiter.isPrefixOf withoutBom then absent
  else
    let firstLine := withoutBom.takeWhile (· ≠ '\n')
    if trimmedEnd firstLine ≠ delimiter then absent
    else if withoutBom.length ≤ firstLine.length + 1 then absent
    else
      let rest := withoutBom.drop (firstLine.length + 1)
      match offsetOf isDelimiter 0 (splitInclusive '\n' rest) with
      | none => absent
      | some closePosition =>
        { frontmatter := some (parseYamlSource yaml (rest.take closePosition))
          body := afterNewline (rest.drop (closePosition + delimiter.length))
          hasFrontmatter := true
          hadBom := hadBom }

/-- `RecordFormat`. -/
inductive RecordFormat where
  | markdown
  | yamlDocument
  deriving DecidableEq

/-- `parse_record_layout`. -/
def parseRecordLayout (yaml : YamlLibrary) (format : RecordFormat) (content : Text) :
    DocumentLayout :=
  match format with
  | .markdown => parseDocumentLayout yaml content
  | .yamlDocument =>
    let hadBom := [bom].isPrefixOf content
    { frontmatter := some (parseYamlSource yaml (if hadBom then content.drop 1 else content))
      body := []
      hasFrontmatter := true
      hadBom := hadBom }

/-- A text with the newline that ends it. -/
def terminated (text : Text) : Text := if text.getLast? = some '\n' then text else text ++ ['\n']

/-- `serialize_inner`. -/
def serializeInner (yaml : YamlLibrary) (frontmatter : Mapping) (body : Text) : Option Text :=
  if frontmatter.isEmpty then some body
  else
    (yaml.toString frontmatter).map fun text =>
      delimiter ++ ['\n'] ++ terminated text ++ delimiter ++ ['\n'] ++
        (if body.isEmpty then [] else terminated body)

/-- `serialize_document_with_bom`. -/
def serializeDocumentWithBom (yaml : YamlLibrary) (hadBom : Bool) (frontmatter : Mapping)
    (body : Text) : Option Text :=
  (serializeInner yaml frontmatter body).map fun document =>
    if hadBom then bom :: document else document

/-- `serialize_record`. `none` is also the failed assertion that a YAML document has
no body. -/
def serializeRecord (yaml : YamlLibrary) (format : RecordFormat) (hadBom : Bool)
    (frontmatter : Mapping) (body : Text) : Option Text :=
  match format with
  | .markdown => serializeDocumentWithBom yaml hadBom frontmatter body
  | .yamlDocument =>
    if ¬body.isEmpty then none
    else
      (yaml.toString frontmatter).map fun text => if hadBom then bom :: text else text

/-- A text starts with a block: its first line is a delimiter and so is a later one. -/
def opensBlock (text : Text) : Bool :=
  match splitInclusive '\n' text with
  | [] => false
  | first :: rest => first.getLast? = some '\n' && isDelimiter first && rest.any isDelimiter

theorem stripSuffix_concat (mark : Char) (text : Text) :
    stripSuffix mark (text ++ [mark]) = text := by
  simp [stripSuffix]

theorem trimmedEnd_stripSuffix (text : Text) :
    trimmedEnd (stripSuffix '\r' text) = trimmedEnd text := by
  unfold stripSuffix
  split
  next ended =>
    obtain ⟨before, rfl⟩ := List.getLast?_eq_some_iff.mp ended
    rw [List.dropLast_concat, trimmedEnd_concat (by decide)]
  next => rfl

theorem isDelimiter_concat (line : Text) :
    isDelimiter (line ++ ['\n']) = decide (trimmedEnd line = delimiter) := by
  rw [isDelimiter, stripSuffix_concat, trimmedEnd_stripSuffix]

theorem takeWhile_line {first : Text} (free : '\n' ∉ first) (rest : Text) :
    (first ++ '\n' :: rest).takeWhile (· ≠ '\n') = first := by
  have line : ∀ character ∈ first, decide (character ≠ '\n') = true := by
    intro character member
    refine decide_eq_true fun same => free ?_
    exact same ▸ member
  rw [List.takeWhile_append_of_pos line, List.takeWhile_cons_of_neg (by simp), List.append_nil]

theorem drop_line (first rest : Text) : (first ++ '\n' :: rest).drop (first.length + 1) = rest := by
  rw [← List.drop_drop, List.drop_left, List.drop_succ_cons, List.drop_zero]

section Reading

variable (yaml : YamlLibrary) {content text : Text}

theorem parseDocumentLayout_of_not_opensBlock
    (stripped : text = if [bom].isPrefixOf content then content.drop 1 else content)
    (bare : ¬opensBlock text) :
    parseDocumentLayout yaml content =
      { frontmatter := none
        body := text
        hasFrontmatter := false
        hadBom := [bom].isPrefixOf content } := by
  unfold parseDocumentLayout
  simp only [← stripped]
  split
  next => rfl
  split
  next => rfl
  rename_i opened
  rcases free_or_first '\n' text with free | ⟨first, rest, rfl, free⟩
  · -- the delimiter is the only line
    have whole : text.takeWhile (· ≠ '\n') = text := by
      rw [List.takeWhile_eq_self_iff]
      intro character member
      refine decide_eq_true fun same => free ?_
      exact same ▸ member
    rw [whole, if_pos (Nat.le_succ _)]
  · rw [takeWhile_line free, ne_eq, not_not] at opened
    rw [takeWhile_line free, drop_line]
    have none_ : offsetOf isDelimiter 0 (splitInclusive '\n' rest) = none := by
      rw [← Option.not_isSome_iff_eq_none, offsetOf_isSome_iff]
      intro closed
      refine bare ?_
      rw [opensBlock, splitInclusive_append_mark free]
      simp [isDelimiter_concat, opened, closed]
    rw [none_]
    split <;> rfl

theorem parseDocumentLayout_block {first rest : Text} {closePosition : Nat}
    (stripped : first ++ '\n' :: rest =
      if [bom].isPrefixOf content then content.drop 1 else content)
    (free : '\n' ∉ first) (opened : trimmedEnd first = delimiter)
    (closed : offsetOf isDelimiter 0 (splitInclusive '\n' rest) = some closePosition) :
    parseDocumentLayout yaml content =
      { frontmatter := some (parseYamlSource yaml (rest.take closePosition))
        body := afterNewline (rest.drop (closePosition + delimiter.length))
        hasFrontmatter := true
        hadBom := [bom].isPrefixOf content } := by
  have starts : delimiter.isPrefixOf (first ++ '\n' :: rest) := by
    rw [List.isPrefixOf_iff_prefix, ← opened]
    exact (isPrefix_trimmedEnd first).trans (List.prefix_append ..)
  have nonempty : rest ≠ [] := by
    rintro rfl
    cases closed
  have long : ¬(first ++ '\n' :: rest).length ≤ first.length + 1 := by
    have := List.length_pos_iff.mpr nonempty
    simp only [List.length_append, List.length_cons]
    omega
  unfold parseDocumentLayout
  simp only [← stripped, takeWhile_line free, drop_line, opened, starts, closed, if_neg long]
  rfl

theorem exists_block (opens : opensBlock text) :
    ∃ first rest closePosition, text = first ++ '\n' :: rest ∧ '\n' ∉ first ∧
      trimmedEnd first = delimiter ∧
      offsetOf isDelimiter 0 (splitInclusive '\n' rest) = some closePosition := by
  rcases free_or_first '\n' text with free | ⟨first, rest, rfl, free⟩
  · by_cases empty : text = []
    · rw [empty] at opens
      cases opens
    · rw [opensBlock, splitInclusive_of_free free empty] at opens
      simp at opens
  · rw [opensBlock, splitInclusive_append_mark free] at opens
    simp only [isDelimiter_concat, Bool.and_eq_true, decide_eq_true_eq] at opens
    obtain ⟨⟨_, opened⟩, closed⟩ := opens
    obtain ⟨closePosition, found⟩ := Option.isSome_iff_exists.mp
      (@offsetOf_isSome_iff _ isDelimiter _ 0 |>.mpr closed)
    exact ⟨first, rest, closePosition, rfl, free, opened, found⟩

theorem afterNewline_length_le (suffix : Text) : (afterNewline suffix).length ≤ suffix.length := by
  unfold afterNewline
  split_ifs <;> simp

theorem parseDocumentLayout_of_opensBlock
    (stripped : text = if [bom].isPrefixOf content then content.drop 1 else content)
    (opens : opensBlock text) :
    (parseDocumentLayout yaml content).body.length < text.length := by
  obtain ⟨first, rest, closePosition, rfl, free, opened, closed⟩ := exists_block opens
  rw [parseDocumentLayout_block yaml stripped free opened closed]
  have shorter := afterNewline_length_le (rest.drop (closePosition + delimiter.length))
  simp only [List.length_drop, List.length_append, List.length_cons] at shorter ⊢
  omega

theorem parseDocumentLayout_hadBom :
    (parseDocumentLayout yaml content).hadBom = [bom].isPrefixOf content := by
  by_cases opens : opensBlock (if [bom].isPrefixOf content then content.drop 1 else content)
  · obtain ⟨first, rest, closePosition, split, free, opened, closed⟩ := exists_block opens
    rw [parseDocumentLayout_block yaml split.symm free opened closed]
  · rw [parseDocumentLayout_of_not_opensBlock yaml rfl opens]

end Reading

end Mdbase.Frontmatter
