import Mdbase.Library.Comparison
import Mdbase.Query.MetadataPage

/-!
# Uniqueness

A unique rule of a type compares a value of a record with the records in a comparison set:
those of the type, all of them, or those under a path. A record must hold alone the keys
that its own types require, and it contributes a key to every comparison set it belongs to.
Two evaluators compare required keys with contributed ones: record by record, and grouped
over the whole corpus.
-/

namespace Mdbase.Validation

open Library
open Mdbase.Runtime (Value)

/-- What uniqueness rests on outside this module. -/
structure UniquenessLibrary where
  /-- `str::to_lowercase`. -/
  toLowercase : String → String
  /-- `field_references::get_value`. -/
  fieldValue : Value → String → Option Value
  /-- `Value::to_string`. -/
  print : Value → String
  /-- `portable_glob_match`. -/
  globMatches : String → String → Bool

/-- `FieldDef`, as far as uniqueness and links read it. -/
structure FieldDef where
  unique : Bool
  target : Option String
  targetTypes : List String

/-- `TypeDef`, as far as uniqueness and links read it. -/
structure TypeDef where
  fields : List (String × FieldDef)
  v03Frontmatter : Option Value

/-- `UniqueScope`. -/
inductive UniqueScope where
  | type
  | collection
  | pathGlob (glob : String)
  deriving DecidableEq

/-- `UniqueRule`. -/
structure UniqueRule where
  field : String
  scope : UniqueScope
  deriving DecidableEq

/-- `UniqueSetKey`. -/
structure UniqueSetKey where
  set : String
  field : String
  value : String
  deriving DecidableEq

/-- `UniqueCorpusEntry`: the path of a record, its effective frontmatter and its types. -/
structure UniqueCorpusEntry where
  path : String
  effective : Value
  types : List String

/-- The `collection.unique` rules of a type. -/
def declaredRules (type_ : TypeDef) : List Value :=
  (((type_.v03Frontmatter.bind (·.get "collection")).bind (·.get "unique")).bind
    Value.asArray).getD []

/-- The text in a member of a rule. -/
def ruleText (rule : Value) (member : String) : Option String := (rule.get member).bind Value.asStr

/-- The scope of a declared rule; a path scope without a path is none. -/
def ruleScope (rule : Value) : Option UniqueScope :=
  if ruleText rule "scope" = some "collection" then some .collection
  else if ruleText rule "scope" = some "path_glob" then
    (ruleText rule "path_glob").map .pathGlob
  else some .type

/-- `unique_rules`. -/
def uniqueRules (type_ : TypeDef) : List UniqueRule :=
  let declared := (declaredRules type_).filterMap (ruleText · "field")
  let rules := (declaredRules type_).filterMap fun rule =>
    (ruleText rule "field").bind fun field => (ruleScope rule).map fun scope => ⟨field, scope⟩
  let legacy := (type_.fields.filter fun entry => entry.2.unique && entry.1 ∉ declared).map
    fun entry => ⟨entry.1, .type⟩
  (rules ++ legacy).dedup

/-- `unique_comparable_value`. -/
def uniqueComparableValue (library : UniquenessLibrary) : Value → Option String
  | .null => none
  | .string value => some value
  | value => some (library.print value)

/-- `set_name`. -/
def setName (scope : UniqueScope) (declaringType : String) : String :=
  match scope with
  | .type => "type:" ++ declaringType
  | .collection => "collection"
  | .pathGlob glob => "path_glob:" ++ glob

/-- `path.replace('\\', "/")`. -/
def withForwardSlashes (path : String) : String :=
  path.map fun character => if character = '\\' then '/' else character

/-- The key of a record under a rule, if the record has the value. -/
def keyOf (library : UniquenessLibrary) (effective : Value) (declaringType : String)
    (rule : UniqueRule) : Option UniqueSetKey :=
  ((library.fieldValue effective rule.field).bind (uniqueComparableValue library)).map
    fun value => ⟨setName rule.scope declaringType, rule.field, value⟩

/-- The types of a collection, by their names. -/
abbrev Types := List (String × TypeDef)

/-- The definition of a type. -/
def Types.get? (types : Types) (name : String) : Option TypeDef :=
  (types.find? fun entry => entry.1 = name).map Prod.snd

/-- The order of keys. -/
def compareKeys (left right : UniqueSetKey) : Ordering :=
  (compare left.set right.set).then
    ((compare left.field right.field).then (compare left.value right.value))

/-- `unique_requirements`. -/
def uniqueRequirements (library : UniquenessLibrary) (definitions : Types) (effective : Value)
    (types : List String) : List (UniqueSetKey × String) :=
  sortBy (fun left right => (compareKeys left.1 right.1).then (compare left.2 right.2))
    ((types.map library.toLowercase).flatMap fun name =>
      match definitions.get? name with
      | none => []
      | some type_ =>
        (uniqueRules type_).filterMap fun rule =>
          (keyOf library effective name rule).map (·, name)).dedup

/-- Does a record belong to the comparison set of a rule? -/
def isMember (library : UniquenessLibrary) (types : List String) (path : String)
    (declaringType : String) : UniqueScope → Bool
  | .type => declaringType ∈ types
  | .collection => true
  | .pathGlob glob => library.globMatches glob path

/-- `unique_memberships`. -/
def uniqueMemberships (library : UniquenessLibrary) (definitions : Types)
    (entry : UniqueCorpusEntry) : List UniqueSetKey :=
  let types := entry.types.map library.toLowercase
  let path := withForwardSlashes entry.path
  sortBy compareKeys
    (definitions.flatMap fun (declaringType, type_) =>
      ((uniqueRules type_).filter fun rule =>
        isMember library types path declaringType rule.scope).filterMap
          (keyOf library entry.effective declaringType)).dedup

/-- `duplicate_issue`, as far as it tells the conflicts apart. -/
structure DuplicateIssue where
  path : String
  key : UniqueSetKey
  typeName : String
  message : String
  deriving DecidableEq

/-- `unique_value_issues`. -/
def uniqueValueIssues (library : UniquenessLibrary) (definitions : Types)
    (entry : UniqueCorpusEntry) (corpus : List UniqueCorpusEntry) : List DuplicateIssue :=
  let requirements := uniqueRequirements library definitions entry.effective entry.types
  let path := withForwardSlashes entry.path
  (corpus.filter fun other => other.path ≠ path).flatMap fun other =>
    (requirements.filter fun requirement =>
      requirement.1 ∈ uniqueMemberships library definitions other).map fun (key, typeName) =>
        { path := path
          key := key
          typeName := typeName
          message := "Duplicate unique value '" ++ key.value ++ "' for field '" ++ key.field ++
            "' (also in " ++ other.path ++ ")" }

/-- The paths of the records that contribute a key. -/
def membersOf (library : UniquenessLibrary) (definitions : Types)
    (corpus : List UniqueCorpusEntry) (key : UniqueSetKey) : List String :=
  (corpus.filter fun other => key ∈ uniqueMemberships library definitions other).map (·.path)

/-- `corpus_unique_value_issues`. -/
def corpusUniqueValueIssues (library : UniquenessLibrary) (definitions : Types)
    (corpus : List UniqueCorpusEntry) : List DuplicateIssue :=
  corpus.flatMap fun entry =>
    ((uniqueRequirements library definitions entry.effective entry.types).filter
      fun requirement => (membersOf library definitions corpus requirement.1).any
        fun other => other ≠ entry.path).map fun (key, typeName) =>
          { path := entry.path
            key := key
            typeName := typeName
            message := "Duplicate value '" ++ key.value ++ "' for unique field '" ++ key.field ++
              "' in type '" ++ typeName ++ "'" }

variable {library : UniquenessLibrary} {definitions : Types}

/-- Another record than the one at a path contributes a key. -/
def HeldBeside (library : UniquenessLibrary) (definitions : Types)
    (corpus : List UniqueCorpusEntry) (path : String) (key : UniqueSetKey) : Prop :=
  ∃ other ∈ corpus, other.path ≠ path ∧ key ∈ uniqueMemberships library definitions other

/-- The record by record check reports the required keys that another record holds, where
a record is told from the others by its path with forward slashes. -/
theorem mem_uniqueValueIssues {entry : UniqueCorpusEntry} {corpus : List UniqueCorpusEntry}
    {key : UniqueSetKey} {typeName : String} :
    (∃ issue ∈ uniqueValueIssues library definitions entry corpus,
        issue.key = key ∧ issue.typeName = typeName) ↔
      (key, typeName) ∈ uniqueRequirements library definitions entry.effective entry.types ∧
        HeldBeside library definitions corpus (withForwardSlashes entry.path) key := by
  simp only [uniqueValueIssues, List.mem_flatMap, List.mem_filter, List.mem_map, decide_eq_true_eq]
  constructor
  · rintro ⟨issue, ⟨other, ⟨member, apart⟩, requirement, ⟨required, held⟩, rfl⟩, rfl, rfl⟩
    exact ⟨required, other, member, apart, held⟩
  · rintro ⟨required, other, member, apart, held⟩
    exact ⟨_, ⟨other, ⟨member, apart⟩, (key, typeName), ⟨required, held⟩, rfl⟩, rfl, rfl⟩

/-- The check of a corpus reports the required keys that another record holds. Its records
are told apart by their paths. -/
theorem mem_corpusUniqueValueIssues {entry : UniqueCorpusEntry}
    {corpus : List UniqueCorpusEntry} {key : UniqueSetKey} {typeName : String}
    (distinct : (corpus.map (·.path)).Nodup) (member : entry ∈ corpus) :
    (∃ issue ∈ corpusUniqueValueIssues library definitions corpus,
        issue.path = entry.path ∧ issue.key = key ∧ issue.typeName = typeName) ↔
      (key, typeName) ∈ uniqueRequirements library definitions entry.effective entry.types ∧
        HeldBeside library definitions corpus entry.path key := by
  simp only [corpusUniqueValueIssues, membersOf, List.mem_flatMap, List.mem_filter, List.mem_map,
    List.any_eq_true, decide_eq_true_eq]
  constructor
  · rintro ⟨issue, ⟨reported, reportedMember, requirement, ⟨required, path, ⟨other, ⟨otherMember,
      held⟩, rfl⟩, apart⟩, rfl⟩, same, rfl, rfl⟩
    obtain rfl := List.inj_on_of_nodup_map distinct reportedMember member same
    exact ⟨required, other, otherMember, apart, held⟩
  · rintro ⟨required, other, otherMember, apart, held⟩
    exact ⟨_, ⟨entry, member, (key, typeName), ⟨required, _, ⟨other, ⟨otherMember, held⟩, rfl⟩,
      apart⟩, rfl⟩, rfl, rfl, rfl⟩

end Mdbase.Validation
