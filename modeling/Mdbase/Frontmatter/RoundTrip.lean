import Mdbase.Frontmatter.Document

/-!
# Documents survive a write and a read

A document with fields is written with its own delimiters, so whatever its body is, it
is read back. A document without fields is written as its body alone; it is read back
unless the body brings a byte order mark or a block of its own.
-/

namespace Mdbase.Frontmatter

open Library

/-- What the documents rely on of the YAML library: it parses back what it emits, and no line of an
emitted mapping is a delimiter. -/
structure YamlLibrary.Faithful (yaml : YamlLibrary) : Prop where
  parsesBack : ∀ {frontmatter text}, yaml.toString frontmatter = some text →
    yaml.fromStr (terminated text) = some (.mapping frontmatter)
  noDelimiter : ∀ {frontmatter text}, yaml.toString frontmatter = some text →
    ∀ line ∈ splitInclusive '\n' (terminated text), isDelimiter line = false

/-- The library emits nothing but white space for a mapping. Such a source never gets to its
parser. -/
def YamlLibrary.EmitsBlank (yaml : YamlLibrary) (frontmatter : Mapping) : Prop :=
  ∃ text, yaml.toString frontmatter = some text ∧ trimmed (terminated text) = []

/-- The mapping of a document; one without a block has the empty mapping. -/
def DocumentLayout.storedMapping (layout : DocumentLayout) : Option Mapping :=
  match frontmatterState layout.frontmatter with
  | .absent => some []
  | .mapping entries => some entries
  | .invalidYaml | .null | .nonMapping _ => none

/-- The body that the serializer writes: it ends with a newline if there are fields. -/
def writtenBody (frontmatter : Mapping) (body : Text) : Text :=
  if frontmatter.isEmpty || body.isEmpty then body else terminated body

/-- A layout holds the parts of a document. -/
structure DocumentLayout.Holds (layout : DocumentLayout) (hadBom : Bool)
    (frontmatter : Mapping) (body : Text) : Prop where
  hadBom_eq : layout.hadBom = hadBom
  mapping : layout.storedMapping = some frontmatter
  body_eq : layout.body = writtenBody frontmatter body

/-- The parts of a document are read back from the text that is written for them, if
one is. -/
def RoundTrips (yaml : YamlLibrary) (hadBom : Bool) (frontmatter : Mapping) (body : Text) :
    Prop :=
  ∀ text, serializeRecord yaml .markdown hadBom frontmatter body = some text →
    (parseRecordLayout yaml .markdown text).Holds hadBom frontmatter body

theorem stripped_written {hadBom : Bool} {document : Text}
    (marked : hadBom ∨ ¬[bom].isPrefixOf document) :
    let content := if hadBom then bom :: document else document
    document = (if [bom].isPrefixOf content then content.drop 1 else content) ∧
      [bom].isPrefixOf content = hadBom := by
  cases hadBom with
  | true => simp
  | false =>
    have bare := Bool.eq_false_of_not_eq_true (marked.resolve_left (by simp))
    simp only [Bool.false_eq_true, if_false, bare, and_self]

theorem getLast?_terminated (text : Text) : (terminated text).getLast? = some '\n' := by
  unfold terminated
  split
  next ended => exact ended
  next => simp

variable {yaml : YamlLibrary}

/-- A source with more than white space is read as the mapping that it was emitted for. -/
theorem YamlLibrary.Faithful.parseYamlSource_terminated (faithful : yaml.Faithful)
    {frontmatter : Mapping} {text : Text} (emitted : yaml.toString frontmatter = some text)
    (shown : ¬yaml.EmitsBlank frontmatter) :
    parseYamlSource yaml (terminated text) = .mapping frontmatter := by
  have visible : trimmed (terminated text) ≠ [] := fun blank => shown ⟨text, emitted, blank⟩
  rw [parseYamlSource, if_neg visible, faithful.parsesBack emitted, Option.getD_some]

/-- A document with fields is read as the mark, the source and the body that are written. -/
theorem parseRecordLayout_written (faithful : yaml.Faithful) {hadBom : Bool}
    {frontmatter : Mapping} (fields : ¬frontmatter.isEmpty) {source : Text}
    (emitted : yaml.toString frontmatter = some source) {body text : Text}
    (written : serializeRecord yaml .markdown hadBom frontmatter body = some text) :
    (parseRecordLayout yaml .markdown text).hadBom = hadBom ∧
      (parseRecordLayout yaml .markdown text).frontmatter =
        some (parseYamlSource yaml (terminated source)) ∧
      (parseRecordLayout yaml .markdown text).body = writtenBody frontmatter body := by
  obtain ⟨document, serialized, rfl⟩ := Option.map_eq_some_iff.mp written
  rw [serializeInner, if_neg fields, emitted, Option.map_some, Option.some.injEq] at serialized
  subst serialized
  generalize written_eq : (if body.isEmpty then [] else terminated body) = rest
  have shape : delimiter ++ ['\n'] ++ terminated source ++ delimiter ++ ['\n'] ++ rest =
      delimiter ++ '\n' :: (terminated source ++ (delimiter ++ '\n' :: rest)) := by
    simp
  rw [shape]
  obtain ⟨stripped, marked⟩ := @stripped_written hadBom
    (delimiter ++ '\n' :: (terminated source ++ (delimiter ++ '\n' :: rest)))
    (.inr (by simp [delimiter, bom]))
  -- no line of the source closes the block, so the delimiter after it does
  have closed : offsetOf isDelimiter 0
      (splitInclusive '\n' (terminated source ++ (delimiter ++ '\n' :: rest))) =
        some (terminated source).length := by
    rw [splitInclusive_append (getLast?_terminated source),
      splitInclusive_append_mark (by decide), offsetOf_append (faithful.noDelimiter emitted),
      flatten_splitInclusive, Nat.zero_add, offsetOf, if_pos (by decide)]
  rw [parseRecordLayout, parseDocumentLayout_block yaml stripped (by decide) (by decide) closed]
  refine ⟨marked, ?_, ?_⟩
  · rw [List.take_left]
  · rw [← List.drop_drop, List.drop_left, List.drop_left, writtenBody,
      Bool.eq_false_of_not_eq_true fields, Bool.false_or]
    cases body <;> exact written_eq.symm

/-- A document with fields is read back exactly when the library does not emit mere white space for
them. -/
theorem roundTrips_iff_of_fields (faithful : yaml.Faithful) (hadBom : Bool)
    {frontmatter : Mapping} (fields : ¬frontmatter.isEmpty) (body : Text) :
    RoundTrips yaml hadBom frontmatter body ↔ ¬yaml.EmitsBlank frontmatter := by
  constructor
  · rintro roundTrips ⟨source, emitted, blank⟩
    have written : ∃ text, serializeRecord yaml .markdown hadBom frontmatter body = some text := by
      rw [serializeRecord, serializeDocumentWithBom, serializeInner, if_neg fields, emitted]
      exact ⟨_, rfl⟩
    obtain ⟨text, written⟩ := written
    have mapping := (roundTrips text written).mapping
    rw [DocumentLayout.storedMapping, (parseRecordLayout_written faithful fields emitted written).2.1,
      parseYamlSource, if_pos blank] at mapping
    exact fields (Option.some.inj mapping ▸ rfl)
  · intro shown text written
    obtain ⟨document, serialized, -⟩ := Option.map_eq_some_iff.mp written
    rw [serializeInner, if_neg fields] at serialized
    obtain ⟨source, emitted, -⟩ := Option.map_eq_some_iff.mp serialized
    obtain ⟨marked, stored, kept⟩ := parseRecordLayout_written faithful fields emitted written
    refine ⟨marked, ?_, kept⟩
    rw [DocumentLayout.storedMapping, stored, faithful.parseYamlSource_terminated emitted shown]
    rfl

/-- A document is read back exactly when it has fields that are not emitted as mere white space, or
has none and neither a byte order mark nor a block of its own is taken from its body. -/
theorem roundTrips_iff (faithful : yaml.Faithful) (hadBom : Bool) (frontmatter : Mapping)
    (body : Text) :
    RoundTrips yaml hadBom frontmatter body ↔
      if frontmatter.isEmpty then (hadBom ∨ ¬[bom].isPrefixOf body) ∧ ¬opensBlock body
      else ¬yaml.EmitsBlank frontmatter := by
  by_cases fields : frontmatter.isEmpty
  · have written : serializeRecord yaml .markdown hadBom frontmatter body =
        some (if hadBom then bom :: body else body) := by
      rw [serializeRecord, serializeDocumentWithBom, serializeInner, if_pos fields]
      rfl
    have kept : writtenBody frontmatter body = body := by simp [writtenBody, fields]
    rw [if_pos fields]
    constructor
    · intro roundTrips
      obtain ⟨marked, _, bodyRead⟩ := roundTrips _ written
      rw [parseRecordLayout] at marked bodyRead
      rw [parseDocumentLayout_hadBom] at marked
      have bare : hadBom ∨ ¬[bom].isPrefixOf body := by
        cases hadBom with
        | true => exact .inl rfl
        | false => exact .inr (Bool.not_eq_true _ ▸ marked)
      refine ⟨bare, fun opens => ?_⟩
      have shorter := parseDocumentLayout_of_opensBlock yaml (stripped_written bare).1 opens
      rw [bodyRead, kept] at shorter
      exact lt_irrefl _ shorter
    · rintro ⟨bare, closed⟩ text written'
      rw [written] at written'
      cases written'
      obtain ⟨stripped, marked⟩ := stripped_written bare
      rw [parseRecordLayout, parseDocumentLayout_of_not_opensBlock yaml stripped closed]
      exact
        { hadBom_eq := marked
          mapping := by
            rw [List.isEmpty_iff.mp fields]
            rfl
          body_eq := kept.symm }
  · rw [if_neg fields]
    exact roundTrips_iff_of_fields faithful hadBom fields body

/-- A library that knows one mapping. -/
def titleYaml : YamlLibrary where
  fromStr source :=
    if trimmed source = [] then some .null
    else if source = "title: x\n".toList then some (.mapping [(.string "title", .string "x")])
    else none
  toString
    | [(.string "title", .string "x")] => some "title: x\n".toList
    | _ => none

theorem titleYaml_faithful : titleYaml.Faithful where
  parsesBack := by
    intro frontmatter text emitted
    simp only [titleYaml] at emitted
    split at emitted
    next =>
      cases emitted
      rfl
    next => cases emitted
  noDelimiter := by
    intro frontmatter text emitted
    simp only [titleYaml] at emitted
    split at emitted
    next =>
      cases emitted
      decide
    next => cases emitted

/-- What is emitted for the known mapping can be seen. -/
theorem titleYaml_shows : ¬titleYaml.EmitsBlank [(.string "title", .string "x")] := by
  rintro ⟨_, emitted, blank⟩
  cases emitted
  revert blank
  decide

/-- A document with fields keeps a body that looks like frontmatter. -/
theorem roundTrips_title :
    RoundTrips titleYaml false [(.string "title", .string "x")]
      "---\ntitle: y\n---\nrest\n".toList :=
  (roundTrips_iff titleYaml_faithful _ _ _).mpr titleYaml_shows

/-- A document without fields loses a block at the start of its body, and the mark. -/
theorem block_not_roundTrips :
    titleYaml.Faithful ∧ ¬RoundTrips titleYaml false [] "---\ntitle: x\n---\nrest\n".toList ∧
      ¬RoundTrips titleYaml false [] "\uFEFFrest\n".toList := by
  refine ⟨titleYaml_faithful, fun roundTrips => ?_, fun roundTrips => ?_⟩
  · have read := (roundTrips _ rfl).body_eq
    revert read
    decide
  · have marked := (roundTrips _ rfl).hadBom_eq
    revert marked
    decide

end Mdbase.Frontmatter
