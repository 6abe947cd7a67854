import Mdbase.Links.Selection
import Mdbase.Query.MetadataPage

/-!
# The resolution of links

A record contributes keys: its file name, its id and its title, in lower case. A link
makes a lookup: a simple name is looked up among the keys, a path among the known paths.
The index answers a lookup from the keys and paths that the lookup names and no others.
-/

namespace Mdbase.Links

open Library
open Mdbase.Runtime (Value)
open Mdbase.Query (CatalogError asciiLower)

/-- `ResolutionKeyKind`. -/
inductive ResolutionKeyKind where
  | basename
  | id
  | title
  deriving DecidableEq

/-- The kind of a selection by a key. -/
def ResolutionKeyKind.selected : ResolutionKeyKind → RecordResolutionKeyKind
  | .basename => .basename
  | .id => .id
  | .title => .title

/-- `ResolutionKeys`. -/
structure ResolutionKeys where
  idField : Option String
  titles : Bool

/-- A text in a field of the frontmatter. -/
def textField (frontmatter : Value) (field : String) : Option String :=
  (frontmatter.get field).bind Value.asStr

/-- `record_resolution_keys`. -/
def recordResolutionKeys (library : ResolutionLibrary) (keys : ResolutionKeys) (path : String)
    (frontmatter : Value) : Option (List (ResolutionKeyKind × String)) :=
  match collectionPath path with
  | .error _ => none
  | .ok _ =>
    some
      ((((fileStem path).map fun stem =>
          (.basename, library.toLowercase (String.ofList stem))).toList) ++
        (((keys.idField.bind (textField frontmatter)).map fun id =>
          (.id, library.toLowercase id)).toList) ++
        (((if keys.titles then textField frontmatter "title" else none).map fun title =>
          (.title, library.toLowercase title)).toList))

theorem exists_basename_of_keys {library : ResolutionLibrary} {keys : ResolutionKeys}
    {path : String} {frontmatter : Value} {rows : List (ResolutionKeyKind × String)}
    (found : recordResolutionKeys library keys path frontmatter = some rows) :
    ∃ key, (ResolutionKeyKind.basename, key) ∈ rows := by
  cases valid : collectionPath path with
  | error error =>
    rw [recordResolutionKeys, valid] at found
    cases found
  | ok canonical =>
    obtain ⟨stem, named⟩ := exists_fileStem valid
    rw [recordResolutionKeys, valid, named] at found
    cases found
    exact ⟨_, List.mem_append_left _ (List.mem_append_left _ (List.mem_singleton_self _))⟩

/-- `normalize_segments` takes one segment. -/
def pushSegment (parts : List Text) (segment : Text) : List Text :=
  if segment = [] ∨ segment = ['.'] then parts
  else if segment = ['.', '.'] then
    if parts.isEmpty ∨ parts.getLast? = some ['.', '.'] then parts ++ [segment]
    else parts.dropLast
  else parts ++ [segment]

/-- `normalize_segments`. -/
def normalizeSegments (path : Text) : Text :=
  let parts := (components path).foldl pushSegment []
  if parts.isEmpty then ['.'] else ['/'].intercalate parts

/-- `str::strip_prefix`. -/
def afterStart (start text : Text) : Option Text :=
  if start.isPrefixOf text then some (text.drop start.length) else none

/-- `str::strip_suffix`. -/
def beforeEnd (ending text : Text) : Option Text :=
  if ending.isSuffixOf text then some (text.take (text.length - ending.length)) else none

/-- `str::split_once`, for a separator of at least one character. -/
def splitOnce (separator : Text) : Text → Option (Text × Text)
  | [] => none
  | character :: rest =>
    match afterStart separator (character :: rest) with
    | some after => some ([], after)
    | none => (splitOnce separator rest).map fun (before, after) => (character :: before, after)

/-- The text before the first of a character. -/
def upTo (mark : Char) (text : Text) : Text := text.takeWhile (· ≠ mark)

/-- Does a target start in the folder of its source or above it? -/
def startsRelative (target : Text) : Bool :=
  ['.', '/'].isPrefixOf target || ['.', '.', '/'].isPrefixOf target

/-- The target that a raw link names. -/
def linkTarget (link : Text) : Text :=
  match (afterStart ['[', '['] link).bind (beforeEnd [']', ']']) with
  | some inner => trimmed (upTo '#' (upTo '|' inner))
  | none =>
    match ((afterStart ['['] link).bind (beforeEnd [')'])).bind (splitOnce [']', '(']) with
    | some (_, destination) =>
      let destination := trimmed (upTo '#' destination)
      if ['/'].isPrefixOf destination || startsRelative destination then destination
      else '.' :: '/' :: destination
    | none => trimmed (upTo '#' link)

/-- `link_path`. -/
def linkPath (link : Text) : Text × Bool :=
  let target := linkTarget (trimmed link)
  (target, startsRelative target)

/-- `ResolutionLookup`. -/
inductive ResolutionLookup where
  | simple (key : String)
  | path (candidates : List String)
  deriving DecidableEq

/-- The key that a lookup reads, if it reads one. -/
def ResolutionLookup.simpleKey : ResolutionLookup → Option String
  | .simple key => some key
  | .path _ => none

/-- The paths that a lookup reads. -/
def ResolutionLookup.candidates : ResolutionLookup → List String
  | .simple _ => []
  | .path candidates => candidates

/-- The text of a target without a record extension, if it is a plain name. -/
def plainName (target : Text) : Text :=
  match (beforeEnd ['.', 'm', 'd'] target).filter fun name => '/' ∉ name with
  | some name => name
  | none => target

/-- The path that a target names, seen from a source. -/
def resolvedTarget (target : Text) (fromSource : Bool) (sourcePath : String) : Text :=
  match afterStart ['/'] target with
  | some rooted => normalizeSegments rooted
  | none =>
    if fromSource then
      let sourceDirectory := directory sourcePath
      normalizeSegments
        (if sourceDirectory.isEmpty then target else sourceDirectory ++ '/' :: target)
    else plainName target

/-- The paths that a target may name. -/
def pathCandidates (target : Text) : List String :=
  String.ofList target ::
    (if ['.', 'm', 'd'].isSuffixOf target || ['.', 'm', 'd', 'x'].isSuffixOf target then []
    else [String.ofList (target ++ ['.', 'm', 'd'])])

/-- `ResolutionLookup::of`. -/
def resolutionLookup (library : ResolutionLibrary) (link sourcePath : String) :
    Option ResolutionLookup :=
  let (target, fromSource) := linkPath link.toList
  if target.isEmpty then none
  else
    let resolved := resolvedTarget target fromSource sourcePath
    if resolved = ['.', '.'] ∨ ['.', '.', '/'].isPrefixOf resolved then none
    else if !fromSource && !(['/'].isPrefixOf target) && '/' ∉ resolved then
      some (.simple (library.toLowercase (String.ofList resolved)))
    else some (.path (pathCandidates resolved))

/-- `LinkResolutionIndex`, as far as resolution reads it. -/
structure LinkResolutionIndex where
  knownPaths : List String
  pathsByKey : ResolutionKeyKind → String → Option (List String)
  typesByPath : String → Option (List String)

/-- `insert_resolution_key`, on the paths of one key. -/
def insertPath (paths : List String) (path : String) : List String :=
  if path ∈ paths then paths else (paths ++ [path]).insertionSort (· ≤ ·)

/-- `insert_key`. -/
def LinkResolutionIndex.insertKey (index : LinkResolutionIndex) (kind : ResolutionKeyKind)
    (key path : String) : LinkResolutionIndex :=
  { index with
    pathsByKey := fun otherKind other =>
      if otherKind = kind ∧ other = key then
        some (insertPath ((index.pathsByKey kind key).getD []) path)
      else index.pathsByKey otherKind other }

/-- Is one of the types of a path among the target types? -/
def LinkResolutionIndex.hasType (index : LinkResolutionIndex) (targetTypes : List String)
    (path : String) : Bool :=
  (index.typesByPath path).any fun actual =>
    actual.any fun name => targetTypes.any fun expected => asciiLower name = asciiLower expected

/-- `eligible_paths`. -/
def LinkResolutionIndex.eligiblePaths (index : LinkResolutionIndex) (paths : List String)
    (targetTypes : List String) : List String :=
  if targetTypes.isEmpty then paths else paths.filter (index.hasType targetTypes)

/-- `LinkResolutionOptions`. -/
structure LinkResolutionOptions where
  unique : Bool := false
  types : List String := []

/-- The path of a local selection. -/
def selectedPath (options : LinkResolutionOptions) (count : Nat) :
    RankedResolution → Option String
  | .resolved _ path .. => if !options.unique || count = 1 then some path else none
  | .missing | .ambiguous _ => none

/-- The candidates of a simple name by one kind of key. -/
def LinkResolutionIndex.eligibleByKey (index : LinkResolutionIndex) (targetTypes : List String)
    (options : LinkResolutionOptions) (key : String) (kind : ResolutionKeyKind) :
    List String :=
  index.eligiblePaths (index.eligiblePaths ((index.pathsByKey kind key).getD []) targetTypes)
    options.types

/-- A simple name is tried as an id, as a file name and as a title. -/
def LinkResolutionIndex.resolveSimple (library : ResolutionLibrary)
    (index : LinkResolutionIndex) (sourcePath : String) (targetTypes : List String)
    (options : LinkResolutionOptions) (key : String) :
    List ResolutionKeyKind → Except CatalogError (Option String)
  | [] => .ok none
  | kind :: kinds =>
    let eligible := index.eligibleByKey targetTypes options key kind
    if eligible.isEmpty then
      index.resolveSimple library sourcePath targetTypes options key kinds
    else
      (selectResolutionCandidate library sourcePath kind.selected
        (eligible.map fun path => ⟨path, path⟩)).map (selectedPath options eligible.length)

/-- `resolve_with_options`. -/
def LinkResolutionIndex.resolveWithOptions (library : ResolutionLibrary)
    (index : LinkResolutionIndex) (target sourcePath : String) (targetTypes : List String)
    (options : LinkResolutionOptions) : Except CatalogError (Option String) :=
  match resolutionLookup library target sourcePath with
  | none => .ok none
  | some (.simple key) =>
    index.resolveSimple library sourcePath targetTypes options key [.id, .basename, .title]
  | some (.path candidates) =>
    .ok ((candidates.find? fun candidate => candidate ∈ index.knownPaths).bind fun candidate =>
      (index.eligiblePaths (index.eligiblePaths [candidate] targetTypes) options.types).head?)

/-- `resolve`. -/
def LinkResolutionIndex.resolve (library : ResolutionLibrary) (index : LinkResolutionIndex)
    (target sourcePath : String) (targetTypes : List String) :
    Except CatalogError (Option String) :=
  index.resolveWithOptions library target sourcePath targetTypes {}

/-- Two indexes have the same candidates for a lookup, with the same types. -/
def LinkResolutionIndex.ReadsAlike (left right : LinkResolutionIndex) :
    ResolutionLookup → Prop
  | .simple key => ∀ kind, left.pathsByKey kind key = right.pathsByKey kind key ∧
      ∀ path ∈ (right.pathsByKey kind key).getD [], left.typesByPath path = right.typesByPath path
  | .path candidates => ∀ candidate ∈ candidates,
      (candidate ∈ left.knownPaths ↔ candidate ∈ right.knownPaths) ∧
        (candidate ∈ right.knownPaths → left.typesByPath candidate = right.typesByPath candidate)

variable {library : ResolutionLibrary} {left right : LinkResolutionIndex}

theorem LinkResolutionIndex.eligiblePaths_congr {paths : List String}
    (types : ∀ path ∈ paths, left.typesByPath path = right.typesByPath path)
    (targetTypes : List String) :
    left.eligiblePaths paths targetTypes = right.eligiblePaths paths targetTypes := by
  unfold eligiblePaths
  split
  next => rfl
  refine List.filter_congr fun path member => ?_
  rw [hasType, hasType, types path member]

theorem LinkResolutionIndex.mem_of_mem_eligiblePaths {index : LinkResolutionIndex}
    {paths targetTypes : List String} {path : String}
    (member : path ∈ index.eligiblePaths paths targetTypes) : path ∈ paths := by
  unfold eligiblePaths at member
  split at member
  next => exact member
  next => exact List.mem_of_mem_filter member

theorem LinkResolutionIndex.eligible_congr {paths : List String}
    (types : ∀ path ∈ paths, left.typesByPath path = right.typesByPath path)
    (targetTypes otherTypes : List String) :
    left.eligiblePaths (left.eligiblePaths paths targetTypes) otherTypes =
      right.eligiblePaths (right.eligiblePaths paths targetTypes) otherTypes := by
  rw [eligiblePaths_congr types]
  exact eligiblePaths_congr (fun path member => types path (mem_of_mem_eligiblePaths member)) _

theorem LinkResolutionIndex.resolveSimple_congr {key : String}
    (alike : left.ReadsAlike right (.simple key)) (sourcePath : String) (targetTypes : List String)
    (options : LinkResolutionOptions) (kinds : List ResolutionKeyKind) :
    left.resolveSimple library sourcePath targetTypes options key kinds =
      right.resolveSimple library sourcePath targetTypes options key kinds := by
  induction kinds with
  | nil => rfl
  | cons kind kinds ih =>
    obtain ⟨paths, types⟩ := alike kind
    have eligible : left.eligibleByKey targetTypes options key kind =
        right.eligibleByKey targetTypes options key kind := by
      rw [eligibleByKey, eligibleByKey, paths]
      exact eligible_congr types targetTypes options.types
    rw [resolveSimple, resolveSimple, eligible, ih]

variable {target sourcePath : String}

theorem LinkResolutionIndex.resolveWithOptions_congr
    (alike : ∀ lookup, resolutionLookup library target sourcePath = some lookup →
      left.ReadsAlike right lookup)
    (targetTypes : List String) (options : LinkResolutionOptions) :
    left.resolveWithOptions library target sourcePath targetTypes options =
      right.resolveWithOptions library target sourcePath targetTypes options := by
  unfold resolveWithOptions
  cases found : resolutionLookup library target sourcePath with
  | none => rfl
  | some lookup =>
    have reads := alike lookup found
    cases lookup with
    | simple key => exact resolveSimple_congr reads sourcePath targetTypes options _
    | path candidates =>
      have same : candidates.find? (fun candidate => candidate ∈ left.knownPaths) =
          candidates.find? fun candidate => candidate ∈ right.knownPaths := by
        refine List.find?_congr fun candidate member => ?_
        exact decide_eq_decide.mpr (reads candidate member).1
      dsimp only
      rw [same]
      cases first : candidates.find? fun candidate => candidate ∈ right.knownPaths with
      | none => rfl
      | some candidate =>
        have known : candidate ∈ right.knownPaths := by
          simpa using List.find?_some first
        have types := (reads candidate (List.mem_of_find?_eq_some first)).2 known
        rw [Option.bind_some, Option.bind_some, eligible_congr]
        rintro path member
        rw [List.mem_singleton.mp member, types]

/-- Two indexes have the same candidates for a lookup with target types. -/
def LinkResolutionIndex.SameCandidates (left right : LinkResolutionIndex)
    (targetTypes : List String) : ResolutionLookup → Prop
  | .simple key => ∀ kind,
      left.eligiblePaths ((left.pathsByKey kind key).getD []) targetTypes =
        right.eligiblePaths ((right.pathsByKey kind key).getD []) targetTypes
  | .path candidates => ∀ candidate ∈ candidates,
      (candidate ∈ left.knownPaths ↔ candidate ∈ right.knownPaths) ∧
        (candidate ∈ right.knownPaths →
          left.eligiblePaths [candidate] targetTypes = right.eligiblePaths [candidate] targetTypes)

variable {targetTypes : List String}

theorem LinkResolutionIndex.resolveSimple_of_sameCandidates {key : String}
    (same : left.SameCandidates right targetTypes (.simple key))
    (sourcePath : String) (kinds : List ResolutionKeyKind) :
    left.resolveSimple library sourcePath targetTypes {} key kinds =
      right.resolveSimple library sourcePath targetTypes {} key kinds := by
  induction kinds with
  | nil => rfl
  | cons kind kinds ih =>
    have eligible : left.eligibleByKey targetTypes {} key kind =
        right.eligibleByKey targetTypes {} key kind := same kind
    rw [resolveSimple, resolveSimple, eligible, ih]

/-- Two indexes with the same candidates resolve a link alike. -/
theorem LinkResolutionIndex.resolve_of_sameCandidates
    (same : ∀ lookup, resolutionLookup library target sourcePath = some lookup →
      left.SameCandidates right targetTypes lookup) :
    left.resolve library target sourcePath targetTypes =
      right.resolve library target sourcePath targetTypes := by
  unfold resolve resolveWithOptions
  cases found : resolutionLookup library target sourcePath with
  | none => rfl
  | some lookup =>
    have candidatesSame := same lookup found
    cases lookup with
    | simple key => exact resolveSimple_of_sameCandidates candidatesSame sourcePath _
    | path candidates =>
      have known : candidates.find? (fun candidate => candidate ∈ left.knownPaths) =
          candidates.find? fun candidate => candidate ∈ right.knownPaths := by
        refine List.find?_congr fun candidate member => ?_
        exact decide_eq_decide.mpr (candidatesSame candidate member).1
      dsimp only
      rw [known]
      cases first : candidates.find? fun candidate => candidate ∈ right.knownPaths with
      | none => rfl
      | some candidate =>
        have member := List.mem_of_find?_eq_some first
        have listed : candidate ∈ right.knownPaths := by
          simpa using List.find?_some first
        rw [Option.bind_some, Option.bind_some, (candidatesSame candidate member).2 listed]
        rfl

end Mdbase.Links
