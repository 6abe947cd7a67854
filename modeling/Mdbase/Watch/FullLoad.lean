import Mathlib.Data.List.Infix
import Mdbase.Watch.PathPolicy

/-!
# What a full load observes

A full load reads the configuration, finds the resources by their place and the records by the
path policy, and reads each of them. What a record is depends on its text and on the resources.
-/

namespace Mdbase.Watch

open Library Links

/-- What is at a path. -/
inductive Node where
  | absent
  | file (document : Text)
  | directory
  /-- A symlink, or anything else that is not followed. -/
  | other
  deriving DecidableEq

/-- The document of a file. -/
def Node.document? : Node → Option Text
  | .file document => some document
  | .absent | .directory | .other => none

/-- The files below the root of a collection. -/
structure Tree where
  entries : List (Text × Node)

/-- What is at a path of a tree. -/
def Tree.node (tree : Tree) (path : Text) : Node :=
  match tree.entries.find? fun entry => entry.1 = path with
  | some entry => entry.2
  | none => .absent

/-- Is a path strictly below another one? -/
def IsBelow (folder path : Text) : Prop := folder ++ ['/'] <+: path

instance (folder path : Text) : Decidable (IsBelow folder path) :=
  inferInstanceAs (Decidable (folder ++ ['/'] <+: path))

/-- The folders above a path, the root left out. -/
def ancestors (path : Text) : List Text := path.inits.filter fun folder => IsBelow folder path

theorem mem_ancestors {folder path : Text} : folder ∈ ancestors path ↔ IsBelow folder path := by
  rw [ancestors, List.mem_filter, decide_eq_true_iff]
  refine ⟨And.right, fun below => ⟨?_, below⟩⟩
  exact (List.mem_inits _ _).mpr ((List.prefix_append folder ['/']).trans below)

/-- The path of the configuration. -/
def configurationPath : Text := "mdbase.yaml".toList

/-- The configuration file of a folder. -/
def configurationOf (folder : Text) : Text := folder ++ '/' :: configurationPath

/-- The files of a tree with their documents. -/
def Tree.files (tree : Tree) : List (Text × Text) :=
  tree.entries.filterMap fun entry =>
    (tree.node entry.1).document?.map fun document => (entry.1, document)

/-- `Path::extension`. -/
def pathExtension (path : Text) : Option Text :=
  (fileName (String.ofList path)).bind fun name =>
    if beforeLastDot name = [] then none else some (name.drop ((beforeLastDot name).length + 1))

/-- `Path::components`. -/
def pathComponents (path : Text) : List Text :=
  match components path with
  | ['.'] :: rest => ['.'] :: rest.filter fun component => component ≠ [] ∧ component ≠ ['.']
  | parts => parts.filter fun component => component ≠ [] ∧ component ≠ ['.']

/-- `Path::starts_with`. -/
def pathStartsWith (folder path : Text) : Bool :=
  (pathComponents folder).isPrefixOf (pathComponents path)

/-- `is_schema_resource_path`. -/
def isSchemaResourcePath (path : Text) : Bool :=
  (components path).all (fun component => !startsWith ['.'] component) &&
    (components path).any fun component =>
      component ∈ ["schemas".toList, "_schemas".toList]

/-- Does a file of a collection have the extension of notes? -/
def isNote (path : Text) : Bool := ".md".toList.isSuffixOf path

/-- How a document is read: the configuration, whether a path is a configured view, what a
record is under the resources of its collection, and which records are saved views. -/
structure Reading (Record : Type) where
  settings : Text → PathSettings
  isConfiguredSource : Text → Text → Bool
  observe : (Text → Option Text) → Text → Text → Record
  /-- `is_canonical_view`. -/
  isCanonicalView : (Text → Option Text) → Text → Record → Bool

variable {Record : Type}

/-- A record is a saved view under some resources. -/
def Reading.isView (reading : Reading Record) (resources : Text → Option Text) (path : Text)
    (record : Record) : Bool :=
  isNote path && reading.isCanonicalView resources path record

/-- `structural_resource_kind` has a kind for a path. -/
def isStructuralResource (settings : PathSettings) (isConfigured : Text → Bool) (path : Text) :
    Bool :=
  path ∈ ["mdbase.lock.yaml".toList, "mdbase.provisions.yaml".toList] ||
    (pathStartsWith settings.typesFolder path &&
      pathExtension path ∈ [some "md".toList, some "yaml".toList, some "yml".toList]) ||
    (pathStartsWith settings.contractsFolder path && pathExtension path = some "md".toList) ||
    (pathExtension path = some "json".toList && isSchemaResourcePath path) ||
    (pathExtension path = some "base".toList && !settings.isValidExtension path &&
      !hasHiddenComponent path && isConfigured path)

/-- What was read at a path. -/
def at? {value : Type} (rows : List (Text × value)) (path : Text) : Option value :=
  (rows.find? fun row => row.1 = path).map (·.2)

/-- A folder that the scan enters. -/
def Tree.isEntered (tree : Tree) (settings : PathSettings) (folder : Text) : Bool :=
  tree.node folder = .directory && settings.includeSubfolders && !hasHiddenComponent folder &&
    !settings.isExcluded folder &&
    (ancestors folder).all (fun parent => tree.node (configurationOf parent) = .absent) &&
    match tree.node (configurationOf folder) with
    | .file _ => false
    | .absent | .directory | .other => true

/-- Does the scan of a tree find a record at a path? -/
def Tree.isScanned (tree : Tree) (settings : PathSettings) (path : Text) : Bool :=
  (ancestors path).all (tree.isEntered settings) && settings.isRecordPath path

/-- `Snapshot::load`, with the settings that it read. -/
structure FullLoad (Record : Type) where
  settings : PathSettings
  /-- The paths of the resources with their documents. -/
  resources : List (Text × Text)
  records : List (Text × Record)
  /-- The paths of the records that are resources as well, since they are saved views. -/
  views : List Text

/-- `Snapshot::load`. Invalid records and views are among the records, as what is observed of
them. -/
def Reading.load (reading : Reading Record) (tree : Tree) : Option (FullLoad Record) :=
  match tree.node configurationPath with
  | .file configuration =>
    let settings := reading.settings configuration
    let resources := (configurationPath, configuration) :: tree.files.filter fun file =>
      isStructuralResource settings (reading.isConfiguredSource configuration) file.1
    let records := (tree.files.filter fun file => tree.isScanned settings file.1).map
      fun file => (file.1, reading.observe (at? resources) file.1 file.2)
    some
      { settings := settings
        resources := resources
        records := records
        views := (records.map (·.1)).filter fun path =>
          (at? records path).any (reading.isView (at? resources) path) }
  | .absent | .directory | .other => none

variable {value : Type}

theorem at?_filter (rows : List (Text × value)) (keep : Text → Bool) (path : Text) :
    at? (rows.filter fun row => keep row.1) path = if keep path then at? rows path else none := by
  induction rows with
  | nil => simp [at?]
  | cons row rest ih =>
    unfold at? at ih ⊢
    by_cases here : row.1 = path
    · subst here
      cases kept : keep row.1 with
      | true => simp [kept]
      | false =>
        rw [List.filter_cons_of_neg (by simpa using kept)]
        rw [ih, kept]
        rfl
    · cases kept : keep row.1 with
      | true =>
        rw [List.filter_cons_of_pos (by simpa using kept), List.find?_cons_of_neg (by simpa),
          List.find?_cons_of_neg (by simpa), ih]
      | false =>
        rw [List.filter_cons_of_neg (by simpa using kept), List.find?_cons_of_neg (by simpa), ih]

theorem at?_map {value other : Type} (rows : List (Text × value)) (read : Text → value → other)
    (path : Text) :
    at? (rows.map fun row => (row.1, read row.1 row.2)) path = (at? rows path).map (read path) := by
  induction rows with
  | nil => rfl
  | cons row rest ih =>
    unfold at? at ih ⊢
    by_cases here : row.1 = path
    · subst here
      simp
    · rw [List.map_cons, List.find?_cons_of_neg (by simpa), List.find?_cons_of_neg (by simpa), ih]

variable {rows : List (Text × value)}

theorem at?_eq_none_of_any {test : Text → Bool}
    {path : Text} (none_ : (rows.any fun row => test row.1) = false) (here : test path = true) :
    at? rows path = none := by
  refine Option.map_eq_none_iff.mpr (List.find?_eq_none.mpr fun row member same => ?_)
  have tested := List.any_eq_false.mp none_ row member
  rw [of_decide_eq_true same] at tested
  exact tested here

theorem mem_of_at? {path : Text} {found : value}
    (here : at? rows path = some found) : path ∈ rows.map (·.1) := by
  obtain ⟨row, member, -⟩ := Option.map_eq_some_iff.mp here
  have same : row.1 = path := by simpa using List.find?_some member
  exact List.mem_map.mpr ⟨row, List.mem_of_find?_eq_some member, same⟩

theorem at?_cons (row : Text × value) (rows : List (Text × value)) (path : Text) :
    at? (row :: rows) path = if row.1 = path then some row.2 else at? rows path := by
  unfold at?
  by_cases here : row.1 = path
  · rw [List.find?_cons_of_pos (by simpa), if_pos here]
    rfl
  · rw [List.find?_cons_of_neg (by simpa), if_neg here]

theorem at?_filterMap {value other : Type} (rows : List (Text × other))
    (read : Text → Option value) (path : Text) :
    at? (rows.filterMap fun row => (read row.1).map fun found => (row.1, found)) path =
      if path ∈ rows.map (·.1) then read path else none := by
  induction rows with
  | nil => rfl
  | cons row rest ih =>
    by_cases here : row.1 = path
    · subst here
      have named : row.1 ∈ (row :: rest).map (·.1) := List.mem_cons_self
      rw [if_pos named]
      cases found : read row.1 with
      | none => rw [List.filterMap_cons_none (by rw [found]; rfl), ih, found, ite_self]
      | some value => rw [List.filterMap_cons_some (by rw [found]; rfl), at?_cons, if_pos rfl]
    · have named : path ∈ (row :: rest).map (·.1) ↔ path ∈ rest.map (·.1) := by
        rw [List.map_cons, List.mem_cons, or_iff_right (Ne.symm here)]
      cases found : read row.1 with
      | none => rw [List.filterMap_cons_none (by rw [found]; rfl), ih, if_congr named rfl rfl]
      | some value =>
        rw [List.filterMap_cons_some (by rw [found]; rfl), at?_cons, if_neg here, ih,
          if_congr named rfl rfl]

namespace Tree

theorem at?_files (tree : Tree) (path : Text) :
    at? tree.files path = (tree.node path).document? := by
  rw [files, at?_filterMap tree.entries fun path => (tree.node path).document?]
  split
  next => rfl
  rename_i missing
  have unknown : tree.entries.find? (fun entry => entry.1 = path) = none :=
    List.find?_eq_none.mpr fun entry member same =>
      missing (List.mem_map.mpr ⟨entry, member, of_decide_eq_true same⟩)
  rw [node, unknown]
  rfl

end Tree

/-- A load, with what it read at each path. -/
structure Reading.Loads (reading : Reading Record) (tree : Tree) (load : FullLoad Record) :
    Prop where
  configuration : ∃ configuration, tree.node configurationPath = .file configuration ∧
    load.settings = reading.settings configuration ∧
      ∀ path, at? load.resources path =
        if path = configurationPath ∨
            isStructuralResource load.settings (reading.isConfiguredSource configuration) path then
          (tree.node path).document?
        else none
  records : ∀ path, at? load.records path =
    if tree.isScanned load.settings path then
      (tree.node path).document?.map (reading.observe (at? load.resources) path)
    else none
  views : ∀ path, path ∈ load.views ↔
    (at? load.records path).any (reading.isView (at? load.resources) path) = true

/-- A load that succeeds reads what `Loads` says of the tree. -/
theorem Reading.loads_of_load {reading : Reading Record} {tree : Tree} {load : FullLoad Record}
    (loaded : reading.load tree = some load) : reading.Loads tree load := by
  unfold Reading.load at loaded
  split at loaded
  next configuration here =>
    cases loaded
    refine ⟨⟨configuration, here, rfl, fun path => ?_⟩, fun path => ?_, fun path => ?_⟩
    · dsimp only
      rw [at?_cons, at?_filter, Tree.at?_files]
      by_cases same : configurationPath = path
      · subst same
        rw [if_pos rfl, if_pos (.inl rfl), here]
        rfl
      · rw [if_neg same, if_congr (or_iff_right (Ne.symm same)) rfl rfl]
    · dsimp only
      rw [at?_map, at?_filter, Tree.at?_files]
      split <;> rfl
    · rw [List.mem_filter, and_iff_right_iff_imp]
      intro view
      obtain ⟨record, found, -⟩ := (Option.any_eq_true _ _).mp view
      exact mem_of_at? found
  all_goals cases loaded

end Mdbase.Watch
