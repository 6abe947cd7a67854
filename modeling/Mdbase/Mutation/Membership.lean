import Mdbase.Query.Candidate
import Mdbase.Query.MetadataPage

/-!
# The types that a write chooses

A write settles the types of its record first, completes the record by their lifecycle
rules, and checks before it stores the record that the types are still the same. It reads
declarations of types strictly: a value of a wrong shape or an unknown name is an error.
A reader of the stored record skips what it cannot use. Both fall back to the match rules
of the types when a record declares none.
-/

namespace Mdbase.Mutation

open Library
open Mdbase.Runtime (Value)
open Mdbase.Query (Diagnostic asciiLower eqIgnoreAsciiCase)

/-- The members of a `serde_json::Map`, in key order. -/
abbrev Members := List (String × Value)

/-- `Map::get`. -/
def getMember (members : Members) (key : String) : Option Value := (Value.object members).get key

/-- `Map::insert`. -/
def insertMember (members : Members) (key : String) (value : Value) : Members :=
  members.filter (fun member => member.1 < key) ++
    (key, value) :: members.filter (fun member => key < member.1)

/-- `CelFailure`. -/
structure CelFailure where
  code : String
  message : String
  deriving DecidableEq

/-- What membership rests on outside this module: the rules of types with their compiled
expressions, the clock they are evaluated at, and the libraries for texts and versions. -/
structure Environment where
  Rules : Type
  Plan : Type
  Clock : Type
  /-- `matches_rules_checked_compiled_with_clock`. -/
  matchesRules : Rules → Option Plan → String → Value → Clock → Except CelFailure Bool
  /-- `str::to_lowercase`. -/
  toLowercase : String → String
  /-- `Version::parse`, by the text that the version is printed as. -/
  parseVersion : String → Option String

/-- `DataContractDefinition`. -/
structure DataContractDefinition where
  id : String
  version : String
  contractType : String
  recordSchema : Option Value

/-- The parts of a collection that decide the types of a record. -/
structure Collection (environment : Environment) where
  /-- `settings.explicit_type_keys`. -/
  explicitTypeKeys : List String
  /-- The types by name, with their match rules. -/
  types : List (String × Option environment.Rules)
  /-- The compiled match expression of `type_plans`. -/
  typePlans : String → Option environment.Plan
  /-- `list_data_contracts`. -/
  dataContracts : List DataContractDefinition
  /-- `get_data_contract_implementations`, by the names of the types. -/
  implementations : String → String → List String

variable {environment : Environment}

/-- The declarations that a reader finds. -/
structure Reading where
  types : List String := []
  hasExplicit : Bool := false
  deriving DecidableEq

/-- A reader takes a name. -/
def Reading.name (environment : Environment) (reading : Reading) (name : String) : Reading :=
  { types := reading.types ++ [environment.toLowercase name], hasExplicit := true }

/-- A reader takes the names in a list. -/
def Reading.item (environment : Environment) (reading : Reading) (item : Value) : Reading :=
  match item.asStr with
  | some name => reading.name environment name
  | none => reading

/-- A reader looks at one of the explicit type keys. -/
def Reading.key (environment : Environment) (frontmatter : Value) (reading : Reading)
    (key : String) : Reading :=
  match frontmatter.get key with
  | some (.string name) => if name.isEmpty then reading else reading.name environment name
  | some (.array items) => items.foldl (Reading.item environment) reading
  | some _ | none => reading

/-- One type joins the types that match, or the failures. -/
def matchType (collection : Collection environment) (frontmatter : Value) (path : String)
    (clock : environment.Clock) (found : List String × List (String × CelFailure))
    (definition : String × Option environment.Rules) :
    List String × List (String × CelFailure) :=
  match definition.2 with
  | none => found
  | some rules =>
    match environment.matchesRules rules (collection.typePlans definition.1) path frontmatter
      clock with
    | .ok true => if definition.1 ∈ found.1 then found else (found.1 ++ [definition.1], found.2)
    | .ok false => found
    | .error failure => (found.1, found.2 ++ [(definition.1, failure)])

/-- `determine_types_for_path_checked_with_clock`. -/
def determineTypesForPathChecked (collection : Collection environment) (frontmatter : Value)
    (relPath : Option String) (clock : environment.Clock) :
    List String × List (String × CelFailure) :=
  let reading := collection.explicitTypeKeys.foldl (Reading.key environment frontmatter) {}
  if reading.hasExplicit then (reading.types, [])
  else
    match relPath with
    | none => (reading.types, [])
    | some path =>
      (sortBy (fun left right => compare left.1 right.1) collection.types).foldl
        (matchType collection frontmatter path clock) (reading.types, [])

/-- `diagnostic`. -/
def diagnostic (code message path : String) (field typeName : Option String)
    (details : Option Value) : Diagnostic where
  severity := "error"
  code := code
  message := message
  path := some path
  field := field
  typeName := typeName
  schemaLocation := none
  details := details

/-- A text, or null for none. -/
def optionalText (text : Option String) : Value := (text.map .string).getD .null

/-- A list of texts. -/
def textList (texts : List String) : Value := .array (texts.map .string)

/-- `contract_diagnostic`. -/
def contractDiagnostic (code message path field : String)
    (contract version selected : Option String) (eligible : List String) : Diagnostic :=
  diagnostic code message path (some field) selected
    (some (.object [("contract", optionalText contract), ("eligible", textList eligible),
      ("selected", optionalText selected), ("version", optionalText version)]))

/-- `changed`. -/
def changed (code message path : String) (before after : List String) : Diagnostic :=
  diagnostic code message path (some "type") none
    (some (.object [("after", textList after), ("before", textList before)]))

/-- `authority_changed`. -/
def authorityChanged (path : String) (before after : List String) : Diagnostic :=
  diagnostic "type_membership_authority_changed"
    "Lifecycle or generated values removed authoritative explicit type membership." path
    (some "type") none
    (some (.object [("after", textList after), ("after_authority", .string "implicit"),
      ("before", textList before), ("before_authority", .string "explicit")]))

/-- `canonicalize`: a sorted list keeps one of each name. -/
def canonicalize (types : List String) : List String := (types.insertionSort (· ≤ ·)).dedup

/-- `known_type`. -/
def knownType (collection : Collection environment) (name path field : String) :
    Except (List Diagnostic) String :=
  let canonical := asciiLower name
  if canonical ∉ collection.types.map Prod.fst then
    .error [diagnostic "unknown_type" ("Unknown type '" ++ name ++ "'.") path (some field)
      (some name) none]
  else .ok canonical

/-- The declarations that a write finds. -/
structure Declarations where
  explicit : List String := []
  errors : List Diagnostic := []
  present : Bool := false

/-- A write takes a name. -/
def Declarations.name (collection : Collection environment) (path key : String)
    (declarations : Declarations) (name : String) : Declarations :=
  match knownType collection name path key with
  | .ok known => { declarations with explicit := declarations.explicit ++ [known] }
  | .error errors => { declarations with errors := declarations.errors ++ errors }

/-- The diagnostic of an item that is not a name. -/
def invalidElement (path key : String) (index : Nat) : Diagnostic :=
  diagnostic "invalid_type_declaration"
    ("Explicit type key '" ++ key ++ "' element " ++ toString index ++
      " must be a non-empty string.") path (some key) none
    (some (.object [("element", .number (.posInt index)), ("key", .string key)]))

/-- A write takes an item of a list. -/
def Declarations.item (collection : Collection environment) (path key : String)
    (declarations : Declarations) (item : Value × Nat) : Declarations :=
  match item.1 with
  | .string name =>
    if name.isEmpty then
      { declarations with errors := declarations.errors ++ [invalidElement path key item.2] }
    else declarations.name collection path key name
  | _ => { declarations with errors := declarations.errors ++ [invalidElement path key item.2] }

/-- The diagnostic of a value that declares nothing. -/
def invalidDeclaration (path key : String) : Diagnostic :=
  diagnostic "invalid_type_declaration"
    ("Explicit type key '" ++ key ++
      "' must be a non-empty string or non-empty string list.") path (some key) none none

/-- A write looks at the value of an explicit type key. -/
def Declarations.value (collection : Collection environment) (path key : String)
    (declarations : Declarations) (value : Value) : Declarations :=
  match value with
  | .string name =>
    if name.isEmpty then
      { declarations with errors := declarations.errors ++ [invalidDeclaration path key] }
    else declarations.name collection path key name
  | .array (first :: rest) =>
    (first :: rest).zipIdx.foldl (Declarations.item collection path key) declarations
  | _ => { declarations with errors := declarations.errors ++ [invalidDeclaration path key] }

/-- A write looks at one of the explicit type keys. -/
def Declarations.key (collection : Collection environment) (draft : Members) (path : String)
    (declarations : Declarations) (key : String) : Declarations :=
  match getMember draft key with
  | none => declarations
  | some value => { declarations with present := true }.value collection path key value

/-- The order of the diagnostics for declarations. -/
def compareDeclared (left right : Diagnostic) : Ordering :=
  (compare left.field right.field).then
    ((compare left.typeName right.typeName).then (compare left.message right.message))

/-- `explicit_membership`. -/
def explicitMembership (collection : Collection environment) (draft : Members) (path : String) :
    Except (List Diagnostic) (List String × Bool) :=
  let declarations := collection.explicitTypeKeys.foldl (Declarations.key collection draft path) {}
  let errors := sortBy compareDeclared declarations.errors
  if errors ≠ [] then .error errors
  else .ok (canonicalize declarations.explicit, declarations.present)

/-- The diagnostic of a match expression that fails. -/
def matchFailed (path : String) (failure : String × CelFailure) : Diagnostic :=
  diagnostic "expression_evaluation_error"
    ("Type '" ++ failure.1 ++ "' match expression failed: " ++ failure.2.message) path
    (some "match.expr") (some failure.1)
    (some (.object [("context", .string "match"), ("evaluator_code", .string failure.2.code)]))

/-- `implicit_membership`. -/
def implicitMembership (collection : Collection environment) (draft : Members) (path : String)
    (clock : environment.Clock) : Except (List Diagnostic) (List String) :=
  let (types, failures) := determineTypesForPathChecked collection (.object draft) (some path) clock
  let errors := sortBy (fun left right => compare left.typeName right.typeName)
    (failures.map (matchFailed path))
  if errors ≠ [] then .error errors else .ok (canonicalize types)

/-- `classify`, at a given clock. -/
def classify (collection : Collection environment) (draft : Members) (path : String)
    (clock : environment.Clock) : Except (List Diagnostic) (List String) := do
  let (explicit, present) ← explicitMembership collection draft path
  if present then .ok explicit else implicitMembership collection draft path clock

/-- `requested_type`. -/
def requestedType (collection : Collection environment) (requested : Option String)
    (path : String) : Except (List Diagnostic) (Option String) :=
  match requested with
  | none => .ok none
  | some name =>
    if name.isEmpty then
      .error [diagnostic "invalid_type" "type must be a non-empty string." path (some "type")
        none none]
    else (knownType collection name path "type").map some

/-- `non_empty_string`. -/
def nonEmptyString (value field path : String) : Except (List Diagnostic) String :=
  if value.isEmpty then
    .error [contractDiagnostic "invalid_contract_envelope"
      (field ++ " must be a non-empty string.") path field none none none []]
  else .ok value

/-- The type of a contract's record: the requested one, or the only one there is. -/
def selectImplementation (contract version path : String) (requested : Option String)
    (eligible : List String) : Except (List Diagnostic) String :=
  match requested with
  | some name =>
    if name ∈ eligible then .ok name
    else
      .error [contractDiagnostic "data_contract_type_mismatch"
        ("Type '" ++ name ++ "' does not implement data contract '" ++ contract ++ "' " ++
          version ++ ".") path "type" (some contract) (some version) (some name) eligible]
  | none =>
    match eligible with
    | [name] => .ok name
    | _ =>
      .error [contractDiagnostic "data_contract_implementation_ambiguous"
        ("Data contract '" ++ contract ++ "' " ++ version ++
          " has multiple record implementations; type is required.") path "type"
        (some contract) (some version) none eligible]

/-- `resolve_contract`. -/
def resolveContract (collection : Collection environment)
    (contractValue versionValue requested : Option String) (path : String) :
    Except (List Diagnostic) (Option String) :=
  match contractValue, versionValue with
  | none, none => .ok none
  | some contract, some version => do
      let contract ← nonEmptyString contract "contract" path
      let version ← nonEmptyString version "contract_version" path
      if environment.parseVersion version ≠ some version then
        .error [contractDiagnostic "invalid_contract_version"
          "contract_version must be an exact semantic version." path "contract_version"
          (some contract) (some version) requested []]
      else
        match collection.dataContracts.find? fun item =>
          item.id = contract ∧ item.version = version with
        | none =>
          .error [contractDiagnostic "data_contract_not_found"
            ("Data contract '" ++ contract ++ "' " ++ version ++ " was not found.") path
            "contract" (some contract) (some version) requested []]
        | some definition =>
          if definition.contractType ≠ "record" ∨ definition.recordSchema.isNone then
            .error [contractDiagnostic "data_contract_record_not_found"
              ("Data contract '" ++ contract ++ "' " ++ version ++ " has no record contract.")
              path "contract" (some contract) (some version) requested []]
          else
            let eligible :=
              canonicalize ((collection.implementations contract version).map asciiLower)
            if eligible.isEmpty then
              .error [contractDiagnostic "data_contract_implementation_not_found"
                ("Data contract '" ++ contract ++ "' " ++ version ++
                  " has no record implementation.") path "contract" (some contract)
                (some version) requested eligible]
            else
              (selectImplementation contract version path requested eligible).map some
  | _, _ =>
    .error [contractDiagnostic "invalid_contract_envelope"
      "contract and contract_version must be non-empty strings supplied together." path
      (if contractValue.isNone then "contract" else "contract_version") contractValue
      versionValue requested []]

/-- A key already declares the selected type. -/
def declaresSelected (draft : Members) (selected key : String) : Bool :=
  match getMember draft key with
  | some (.string name) => eqIgnoreAsciiCase name selected
  | some (.array items) => (items.filterMap Value.asStr).any (eqIgnoreAsciiCase · selected)
  | some _ | none => false

/-- The items of the list that a key holds. -/
def listAt (draft : Members) (key : String) : Option (List Value) :=
  (getMember draft key).bind Value.asArray

/-- `persist_selected`. -/
def persistSelected (collection : Collection environment) (draft : Members)
    (selected path : String) : Except (List Diagnostic) Members :=
  let keys := collection.explicitTypeKeys
  if keys.any (declaresSelected draft selected) then .ok draft
  else
    match keys.find? fun key => (listAt draft key).isSome with
    | some key =>
      .ok (insertMember draft key (.array ((listAt draft key).getD [] ++ [.string selected])))
    | none =>
      match keys.find? fun key => (getMember draft key).isNone with
      | some key => .ok (insertMember draft key (.string selected))
      | none =>
        if keys.isEmpty then .ok draft
        else
          .error [diagnostic "type_membership_persistence_failed"
            ("Selected type membership cannot be represented without changing an " ++
              "occupied scalar declaration.") path (some "type") (some selected)
            (some (.object [("configured_keys", textList keys),
              ("occupied_scalar_keys", textList keys), ("selected", .string selected)]))]

/-- `ResolvedWriteMembership`. -/
structure ResolvedWriteMembership (environment : Environment) where
  types : List String
  pathType : Option String
  designatedContractType : Option String
  initiallyExplicit : Bool
  evaluationClock : environment.Clock

/-- `capture_clock`, given what the clock of the operation answers. -/
def captureClock (answer : Except CelFailure environment.Clock) (path : String) :
    Except (List Diagnostic) environment.Clock :=
  answer.mapError fun failure =>
    [diagnostic failure.code failure.message path (some "match.expr") none none]

/-- The types of a new record: the declared or the inferred ones, with the selected one. -/
def initialTypes (collection : Collection environment) (draft : Members) (path : String)
    (clock : environment.Clock) (explicit : List String) (initiallyExplicit : Bool)
    (selected : Option String) : Except (List Diagnostic) (List String) :=
  if initiallyExplicit then .ok (canonicalize (explicit ++ selected.toList))
  else
    match implicitMembership collection draft path clock with
    | .error errors => .error errors
    | .ok inferred =>
      match selected with
      | some name => .ok (canonicalize (inferred ++ [name]))
      | none => .ok inferred

/-- The draft with the selected type in it, and the types it is then read back with. -/
def persistTypes (collection : Collection environment) (draft : Members) (path : String)
    (clock : environment.Clock) (types : List String) (initiallyExplicit : Bool)
    (selected : Option String) : Except (List Diagnostic) (List String × Members) :=
  match selected.filter fun _ => initiallyExplicit with
  | none => .ok (types, draft)
  | some name => do
      let draft ← persistSelected collection draft name path
      let reopened ← classify collection draft path clock
      if reopened ≠ types then
        .error [changed "type_membership_persistence_failed"
          "Configured type membership cannot be persisted for this record." path types reopened]
      else .ok (reopened, draft)

/-- `resolve_create`; the draft is returned as it was changed. -/
def resolveCreate (collection : Collection environment) (requestedTypeName : Option String)
    (contract contractVersion : Option String) (draft : Members) (path : String)
    (answer : Except CelFailure environment.Clock) :
    Except (List Diagnostic) (ResolvedWriteMembership environment × Members) := do
  let (explicit, declarationsPresent) ← explicitMembership collection draft path
  let requested ← requestedType collection requestedTypeName path
  let designated ← resolveContract collection contract contractVersion requested path
  let selected := designated.or requested
  let initiallyExplicit :=
    declarationsPresent || (selected.isSome && !collection.explicitTypeKeys.isEmpty)
  let evaluationClock ← captureClock answer path
  let types ←
    initialTypes collection draft path evaluationClock explicit initiallyExplicit selected
  let (types, draft) ←
    persistTypes collection draft path evaluationClock types initiallyExplicit selected
  .ok
    ({ types := types
       pathType := selected
       designatedContractType := designated
       initiallyExplicit := initiallyExplicit
       evaluationClock := evaluationClock }, draft)

/-- `resolve_update`. -/
def resolveUpdate (collection : Collection environment) (draft : Members) (path : String)
    (answer : Except CelFailure environment.Clock) :
    Except (List Diagnostic) (ResolvedWriteMembership environment) := do
  let clock ← captureClock answer path
  let types ← classify collection draft path clock
  let (_, present) ← explicitMembership collection draft path
  .ok
    { types := types
      pathType := none
      designatedContractType := none
      initiallyExplicit := present
      evaluationClock := clock }

/-- The checks of `revalidate` once the declarations of the record are read. -/
def ResolvedWriteMembership.check (membership : ResolvedWriteMembership environment)
    (path : String) (present : Bool) (after : List String) : Except (List Diagnostic) Unit :=
  if membership.initiallyExplicit ∧ ¬present then
    .error [authorityChanged path membership.types after]
  else if after ≠ membership.types then
    .error [changed "type_membership_changed"
      "Lifecycle or generated values changed the record's type membership." path
      membership.types after]
  else
    match membership.designatedContractType with
    | some designated =>
      if designated ∉ after then
        .error [contractDiagnostic "data_contract_type_mismatch"
          "The designated contract type is not present in final membership." path "type" none
          none (some designated) []]
      else .ok ()
    | none => .ok ()

/-- `revalidate`. -/
def ResolvedWriteMembership.revalidate (membership : ResolvedWriteMembership environment)
    (collection : Collection environment) (raw : Members) (path : String) :
    Except (List Diagnostic) Unit :=
  match explicitMembership collection raw path with
  | .error errors =>
    if membership.initiallyExplicit then
      .error [authorityChanged path membership.types []]
    else .error errors
  | .ok (explicitAfter, present) => do
      let after ←
        if present then .ok explicitAfter
        else implicitMembership collection raw path membership.evaluationClock
      membership.check path present after

end Mdbase.Mutation
