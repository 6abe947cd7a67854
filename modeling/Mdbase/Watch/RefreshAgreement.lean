import Mdbase.Watch.EventCoverage
import Mdbase.Watch.TreeSnapshot

/-!
# When a refresh of records equals a full load

A refresh reads the files of some records again, with the collection that was opened when the
watcher started. A full load opens the collection again. The two agree on a step that changes
only these files when the opened definitions read them as the current ones do, and none of them
is or becomes a saved view.
-/

namespace Mdbase.Watch

open Library
open Mdbase.Runtime (Value)

theorem missingFrom_restrict {other map : KeyedMap Text RecordState} {paths : List Text}
    (outside : ∀ path, path ∉ paths → map.lookup path = other.lookup path) :
    missingFrom (other.restrict (· ∈ paths)) (map.restrict (· ∈ paths)) =
      missingFrom other map := by
  rw [missingFrom, missingFrom, KeyedMap.entries_restrict, List.filter_filter]
  refine List.filter_congr fun binding member => ?_
  rw [KeyedMap.lookup_restrict]
  by_cases inside : binding.1 ∈ paths
  · simp [inside]
  · have bound := KeyedMap.lookup_of_mem member
    rw [← outside _ inside, bound]
    simp [inside]

theorem recordEvents_restrict {before after : KeyedMap Text RecordState} {paths : List Text}
    (outside : ∀ path, path ∉ paths → before.lookup path = after.lookup path) :
    recordEvents (before.restrict (· ∈ paths)) (after.restrict (· ∈ paths)) =
      recordEvents before after := by
  have modified : ((before.restrict (· ∈ paths)).entries.filterMap fun binding =>
      (((after.restrict (· ∈ paths)).lookup binding.1).filter
        fun current => binding.2.revision ≠ current.revision).map
          (modifiedEvent binding.1 binding.2)) =
      before.entries.filterMap fun binding =>
        ((after.lookup binding.1).filter fun current =>
          binding.2.revision ≠ current.revision).map (modifiedEvent binding.1 binding.2) := by
    rw [KeyedMap.entries_restrict, List.filterMap_filter]
    refine List.filterMap_congr fun binding member => ?_
    rw [KeyedMap.lookup_restrict]
    by_cases inside : binding.1 ∈ paths
    · simp [inside]
    · have bound := KeyedMap.lookup_of_mem member
      rw [← outside _ inside, bound]
      simp [inside]
  unfold recordEvents
  rw [missingFrom_restrict outside, missingFrom_restrict fun path no => (outside path no).symm,
    modified]

theorem resourceEvents_self (resources : KeyedMap Text ResourceState) :
    TreeSnapshot.resourceEvents resources resources = [] := by
  refine List.filterMap_eq_nil_iff.mpr fun path _ => if_pos rfl

/-- What a snapshot knows of a path. -/
structure Known where
  resource : Option ResourceState
  record : Option RecordState
  isInvalid : Option Unit
  deriving DecidableEq

namespace TreeSnapshot

/-- What a snapshot knows of a path. -/
def known (snapshot : TreeSnapshot) (path : Text) : Known where
  resource := snapshot.resources.lookup path
  record := snapshot.records.lookup path
  isInvalid := snapshot.invalidRecords.lookup path

theorem ext_known {left right : TreeSnapshot} (settings : left.settings = right.settings)
    (same : ∀ path, left.known path = right.known path) : left = right := by
  have resources : left.resources = right.resources :=
    KeyedMap.ext_lookup fun path => congrArg Known.resource (same path)
  have records : left.records = right.records :=
    KeyedMap.ext_lookup fun path => congrArg Known.record (same path)
  have invalidRecords : left.invalidRecords = right.invalidRecords :=
    KeyedMap.ext_lookup fun path => congrArg Known.isInvalid (same path)
  cases left
  cases right
  simp_all

end TreeSnapshot

/-- What is known of a path after its file has been read. -/
def Known.replaced (known : Known) : Option Observation → Known
  | some (.parsed state) => { known with record := some state, isInvalid := none }
  | some .invalid => { known with isInvalid := some () }
  | none => { known with record := none, isInvalid := none }

@[simp] theorem Known.replaced_replaced (known : Known) (read : Option Observation) :
    (known.replaced read).replaced read = known.replaced read := by
  rcases read with _ | _ | _ <;> rfl

@[simp] theorem Known.resource_replaced (known : Known) (read : Option Observation) :
    (known.replaced read).resource = known.resource := by
  rcases read with _ | _ | _ <;> rfl

/-- What is known of a path when the record of an invalid file is taken from before. -/
def Known.retained (known previous : Known) : Known :=
  { known with
    record := if known.isInvalid = none then known.record else previous.record.or known.record }

@[simp] theorem Known.retained_retained (known previous : Known) :
    known.retained (known.retained previous) = known.retained previous := by
  by_cases valid : known.isInvalid = none <;> simp [Known.retained, valid, Option.or_assoc]

namespace TreeSnapshot

theorem known_replace (snapshot : TreeSnapshot) (path : Text) (read : Option Observation)
    (other : Text) :
    (snapshot.replace path read).known other =
      if other = path then (snapshot.known other).replaced read else snapshot.known other := by
  rcases read with _ | state | _ <;>
    by_cases here : other = path <;>
    simp [replace, known, Known.replaced, KeyedMap.lookup_store, KeyedMap.lookup_remove, here]

variable {reading : Reading Observation} {opened : FullLoad Observation} {tree : Tree}

theorem known_refreshPaths (snapshot : TreeSnapshot) (paths : List Text) (path : Text) :
    (snapshot.refreshPaths reading opened tree paths).1.known path =
      if path ∈ paths then (snapshot.known path).replaced (reading.loadRecord opened tree path)
      else snapshot.known path := by
  unfold refreshPaths
  dsimp only
  induction paths generalizing snapshot with
  | nil => rfl
  | cons first rest ih =>
    rw [List.foldl_cons, ih, known_replace]
    by_cases here : path = first
    · subst here
      simp
    · simp [here]

theorem settings_refreshPaths (snapshot : TreeSnapshot) (paths : List Text) :
    (snapshot.refreshPaths reading opened tree paths).1.settings = snapshot.settings := by
  unfold refreshPaths
  dsimp only
  induction paths generalizing snapshot with
  | nil => rfl
  | cons first rest ih =>
    rw [List.foldl_cons, ih]
    unfold replace
    split <;> rfl

theorem known_retainClassifiedInvalid (snapshot previous : TreeSnapshot) (path : Text) :
    (snapshot.retainClassifiedInvalid previous).known path =
      (snapshot.known path).retained (previous.known path) := by
  have fold (bound : List Text) (records : KeyedMap Text RecordState) :
      (bound.foldl (fun records path =>
          (previous.records.lookup path).elim records (records.store path)) records).lookup path =
        if path ∈ bound then (previous.records.lookup path).or (records.lookup path)
        else records.lookup path := by
    induction bound generalizing records with
    | nil => rfl
    | cons first rest ih =>
      rw [List.foldl_cons, ih]
      by_cases here : path = first
      · subst here
        cases previous.records.lookup path <;> simp [KeyedMap.lookup_store]
      · cases previous.records.lookup first <;> simp [KeyedMap.lookup_store, here]
  simp only [known, Known.retained, retainClassifiedInvalid, fold, KeyedMap.mem_keys]
  by_cases valid : snapshot.invalidRecords.lookup path = none <;> simp [valid]

end TreeSnapshot

/-- A reading under which no invalid record is a view. -/
structure RecordReading extends Reading Observation where
  isCanonicalView_invalid : ∀ resources path, isCanonicalView resources path .invalid = false

variable {reading : RecordReading} {revision : Text → String}

/-- What a full load knows of a path at which it read no resource. -/
def Known.ofObservation (isView : Bool) : Option Observation → Known
  | none => { resource := none, record := none, isInvalid := none }
  | some .invalid => { resource := none, record := none, isInvalid := some () }
  | some (.parsed state) =>
    if isView then
      { resource := some { kind := .view, revision := state.revision }
        record := none
        isInvalid := none }
    else { resource := none, record := some state, isInvalid := none }

@[simp] theorem Known.resource_ofObservation_false (observation : Option Observation) :
    (Known.ofObservation false observation).resource = none := by
  rcases observation with _ | _ | _ <;> rfl

theorem Known.replaced_eq_retained_iff {known : Known} {isView : Bool}
    {read current : Option Observation}
    (parsed : isView = true → ∃ state, current = some (.parsed state)) :
    known.replaced read = (Known.ofObservation isView current).retained known ↔
      (isView = false ∧ known.resource = none ∧ read = current) ∨
        (isView = true ∧ read = none ∧
          known.resource = (Known.ofObservation true current).resource) := by
  cases isView with
  | true =>
    obtain ⟨state, rfl⟩ := parsed rfl
    rcases read with _ | _ | _ <;> simp [Known.replaced, Known.ofObservation, Known.retained]
  | false =>
    rcases read with _ | _ | _ <;> rcases current with _ | _ | _ <;>
      simp [Known.replaced, Known.ofObservation, Known.retained]

/-- What a snapshot of a load knows of a path is what the load observed. -/
theorem FullLoad.known_snapshot {tree : Tree} {load : FullLoad Observation}
    (loads : reading.Loads tree load) (path : Text) :
    (load.snapshot revision).known path =
      { Known.ofObservation (path ∈ load.views) (at? load.records path) with
        resource :=
          (Known.ofObservation (path ∈ load.views) (at? load.records path)).resource.or
            ((at? load.resources path).map fun document =>
              { kind := resourceKind load.settings path, revision := revision document }) } := by
  have resource : ∀ document, at? load.resources path = some document →
      path ∈ load.resources.map (·.1) := fun document => mem_of_at?
  have structural (bound : Prop) [Decidable bound] :
      (if bound ∨ path ∈ load.resources.map (·.1) then
          (at? load.resources path).map fun document =>
            ({ kind := resourceKind load.settings path, revision := revision document } :
              ResourceState)
        else none) =
        (at? load.resources path).map fun document =>
          { kind := resourceKind load.settings path, revision := revision document } := by
    cases found : at? load.resources path with
    | none => exact ite_self _
    | some document => exact if_pos (.inr (resource document found))
  have views := loads.views path
  rcases found : at? load.records path with _ | observation
  · have isNone : path ∉ load.views := by rw [views, found]; nofun
    simp only [FullLoad.snapshot, TreeSnapshot.known, KeyedMap.lookup_tabulate, List.mem_append]
    simp [found, isNone, structural, Known.ofObservation]
  · have read := mem_of_at? found
    simp only [FullLoad.snapshot, TreeSnapshot.known, KeyedMap.lookup_tabulate, List.mem_append]
    cases observation with
    | invalid =>
      have isNone : path ∉ load.views := by
        rw [views, found, Option.any_some, Reading.isView, reading.isCanonicalView_invalid,
          Bool.and_false]
        exact Bool.false_ne_true
      simp [found, isNone, Known.ofObservation, read, Observation.state?]
    | parsed state =>
      by_cases isView : path ∈ load.views
      · simp [found, isView, Known.ofObservation, read, Observation.state?]
      · simp [found, isView, Known.ofObservation, read, Observation.state?]

/-- A path of a resource that is found by its place. -/
def Reading.isResource (reading : Reading Observation) (tree : Tree) (path : Text) : Bool :=
  path = configurationPath ||
    match tree.node configurationPath with
    | .file configuration =>
      isStructuralResource (reading.settings configuration)
        (reading.isConfiguredSource configuration) path
    | .absent | .directory | .other => false

/-- A step of a watched collection that changes only the records at some paths. The watcher was
started on one tree of the collection's history, and its snapshot is that of a full load before
the step, with the records of invalid files taken from an older snapshot. -/
structure RecordStep (reading : RecordReading) where
  openedTree : Tree
  opened : FullLoad Observation
  loadedOpened : reading.load openedTree = some opened
  older : TreeSnapshot
  beforeTree : Tree
  before : FullLoad Observation
  loadedBefore : reading.load beforeTree = some before
  afterTree : Tree
  after : FullLoad Observation
  loadedAfter : reading.load afterTree = some after
  paths : List Text
  rootedBefore : beforeTree.IsRooted
  rootedAfter : afterTree.IsRooted
  documents : ∀ path, path ∉ paths →
    (beforeTree.node path).document? = (afterTree.node path).document?
  fences : ∀ folder, beforeTree.node (configurationOf folder) =
    afterTree.node (configurationOf folder)
  records : ∀ path ∈ paths, reading.isResource beforeTree path = false

namespace RecordStep

variable (step : RecordStep reading)

/-- The snapshot of the watcher before the step. -/
def start (revision : Text → String) : TreeSnapshot :=
  (step.before.snapshot revision).retainClassifiedInvalid step.older

/-- What the watcher makes of the step when it refreshes the records. -/
def refreshed (revision : Text → String) : TreeSnapshot × List PendingEvent :=
  (step.start revision).refreshPaths reading.toReading step.opened step.afterTree step.paths

/-- What a full refresh makes of the step. -/
def rescanned (revision : Text → String) : TreeSnapshot × List PendingEvent :=
  let next := (step.after.snapshot revision).retainClassifiedInvalid (step.start revision)
  (next, (step.start revision).diff next)

/-- The opened definitions read a path as the current ones: no saved view is or was there, the
path is one of a record under both, and its file reads the same. Or a view stays as it is, and
the opened settings do not look for a record there. -/
def ReadsAlike (path : Text) : Prop :=
  (path ∉ step.before.views ∧ path ∉ step.after.views ∧
    ∀ document, (step.afterTree.node path).document? = some document →
      step.opened.settings.admits step.afterTree path =
          step.afterTree.isScanned step.after.settings path ∧
        (step.afterTree.isScanned step.after.settings path = true →
          reading.observe (at? step.opened.resources) path document =
            reading.observe (at? step.after.resources) path document)) ∨
  (path ∈ step.before.views ∧ path ∈ step.after.views ∧
    step.opened.settings.admits step.afterTree path = false ∧
    ((at? step.before.records path).bind Observation.state?).map (·.revision) =
      ((at? step.after.records path).bind Observation.state?).map (·.revision))

theorem configuration_not_mem : configurationPath ∉ step.paths := fun member => by
  have no := step.records _ member
  simp [Reading.isResource] at no

theorem sameDefinitions : step.after.settings = step.before.settings ∧
    at? step.after.resources = at? step.before.resources ∧
      ∀ path ∈ step.paths, at? step.before.resources path = none := by
  obtain ⟨configuration, here, settings, resources⟩ :=
    (Reading.loads_of_load step.loadedBefore).configuration
  obtain ⟨other, otherHere, otherSettings, otherResources⟩ :=
    (Reading.loads_of_load step.loadedAfter).configuration
  have same := step.documents _ step.configuration_not_mem
  rw [here, otherHere] at same
  cases same
  have none_ : ∀ path ∈ step.paths, ¬(path = configurationPath ∨
      isStructuralResource step.before.settings (reading.isConfiguredSource configuration) path =
        true) := by
    intro path member is
    have no := step.records path member
    rw [Reading.isResource, here, Bool.or_eq_false_iff] at no
    rw [settings] at is
    rcases is with is | is
    · exact absurd is (of_decide_eq_false no.1)
    · exact absurd (is.symm.trans no.2) nofun
  have sameSettings : step.after.settings = step.before.settings := otherSettings.trans settings.symm
  refine ⟨sameSettings, funext fun path => ?_, fun path member => ?_⟩
  · rw [resources, otherResources, sameSettings]
    by_cases inside : path ∈ step.paths
    · rw [if_neg (none_ path inside), if_neg (none_ path inside)]
    · rw [step.documents path inside]
  · rw [resources, if_neg (none_ path member)]

variable {path : Text}

theorem observed_outside (outside : path ∉ step.paths) :
    at? step.after.records path = at? step.before.records path := by
  obtain ⟨sameSettings, sameResources, -⟩ := step.sameDefinitions
  rw [(Reading.loads_of_load step.loadedAfter).records,
    (Reading.loads_of_load step.loadedBefore).records, sameSettings, sameResources,
    ← step.documents path outside]
  cases document : (step.beforeTree.node path).document? with
  | none => rw [Option.map_none, ite_self, ite_self]
  | some document =>
    have before : step.beforeTree.node path ≠ .absent := fun absent => by
      rw [absent] at document
      cases document
    have after : step.afterTree.node path ≠ .absent := fun absent => by
      rw [step.documents path outside, absent] at document
      cases document
    rw [Tree.isScanned_congr step.rootedBefore step.rootedAfter
      (fun folder _ => step.fences folder) before after]

theorem views_outside (outside : path ∉ step.paths) :
    path ∈ step.after.views ↔ path ∈ step.before.views := by
  rw [(Reading.loads_of_load step.loadedAfter).views,
    (Reading.loads_of_load step.loadedBefore).views, step.observed_outside outside,
    step.sameDefinitions.2.1]

theorem known_start (path : Text) : (step.start revision).known path =
    ((step.before.snapshot revision).known path).retained (step.older.known path) :=
  TreeSnapshot.known_retainClassifiedInvalid _ _ _

theorem known_rescanned (path : Text) : (step.rescanned revision).1.known path =
    ((step.after.snapshot revision).known path).retained ((step.start revision).known path) :=
  TreeSnapshot.known_retainClassifiedInvalid _ _ _

theorem known_refreshed (path : Text) : (step.refreshed revision).1.known path =
    if path ∈ step.paths then ((step.start revision).known path).replaced
        (reading.loadRecord step.opened step.afterTree path)
    else (step.start revision).known path :=
  TreeSnapshot.known_refreshPaths _ _ _

theorem rescanned_outside (outside : path ∉ step.paths) :
    (step.rescanned revision).1.known path = (step.start revision).known path := by
  obtain ⟨sameSettings, sameResources, -⟩ := step.sameDefinitions
  have same : (step.after.snapshot revision).known path =
      (step.before.snapshot revision).known path := by
    rw [FullLoad.known_snapshot (Reading.loads_of_load step.loadedAfter),
      FullLoad.known_snapshot (Reading.loads_of_load step.loadedBefore),
      step.observed_outside outside, sameSettings, sameResources]
    simp only [step.views_outside outside]
  rw [known_rescanned, known_start, same, Known.retained_retained]

theorem parsed_of_view {tree : Tree} {load : FullLoad Observation}
    (loads : reading.Loads tree load) (view : path ∈ load.views) :
    ∃ state, at? load.records path = some (.parsed state) := by
  obtain ⟨observation, found, isView⟩ := (Option.any_eq_true _ _).mp ((loads.views path).mp view)
  cases observation with
  | parsed state => exact ⟨state, found⟩
  | invalid =>
    rw [Reading.isView, reading.isCanonicalView_invalid, Bool.and_false] at isView
    cases isView

theorem loadRecord_eq_iff (path : Text) :
    reading.loadRecord step.opened step.afterTree path = at? step.after.records path ↔
      ∀ document, (step.afterTree.node path).document? = some document →
        step.opened.settings.admits step.afterTree path =
            step.afterTree.isScanned step.after.settings path ∧
          (step.afterTree.isScanned step.after.settings path = true →
            reading.observe (at? step.opened.resources) path document =
              reading.observe (at? step.after.resources) path document) := by
  rw [(Reading.loads_of_load step.loadedAfter).records, Reading.loadRecord]
  cases (step.afterTree.node path).document? with
  | none => simp
  | some document =>
    cases step.opened.settings.admits step.afterTree path <;>
      cases step.afterTree.isScanned step.after.settings path <;> simp

/-- A refreshed path agrees with a rescan exactly if it is read alike. -/
theorem agrees_iff (inside : path ∈ step.paths) :
    (step.refreshed revision).1.known path = (step.rescanned revision).1.known path ↔
      step.ReadsAlike path := by
  obtain ⟨-, sameResources, noResource⟩ := step.sameDefinitions
  have current : (step.after.snapshot revision).known path =
      Known.ofObservation (path ∈ step.after.views) (at? step.after.records path) := by
    rw [FullLoad.known_snapshot (Reading.loads_of_load step.loadedAfter), sameResources,
      noResource path inside, Option.map_none, Option.or_none]
  have resource : ((step.start revision).known path).resource =
      (Known.ofObservation (path ∈ step.before.views) (at? step.before.records path)).resource := by
    rw [known_start, FullLoad.known_snapshot (Reading.loads_of_load step.loadedBefore),
      noResource path inside, Option.map_none, Option.or_none]
    rfl
  have loadsBefore := Reading.loads_of_load step.loadedBefore
  have loadsAfter := Reading.loads_of_load step.loadedAfter
  rw [known_refreshed, if_pos inside, known_rescanned, current,
    Known.replaced_eq_retained_iff (fun view => parsed_of_view loadsAfter (of_decide_eq_true view)),
    step.loadRecord_eq_iff, resource, ReadsAlike]
  by_cases viewAfter : path ∈ step.after.views
  · obtain ⟨state, found⟩ := parsed_of_view loadsAfter viewAfter
    have read := (Reading.loads_of_load step.loadedAfter).records path
    have absent : reading.loadRecord step.opened step.afterTree path = none ↔
        step.opened.settings.admits step.afterTree path = false := by
      rw [found] at read
      rw [Reading.loadRecord]
      cases document : (step.afterTree.node path).document? with
      | none => simp [document] at read
      | some document => simp
    rw [absent, found]
    by_cases viewBefore : path ∈ step.before.views
    · obtain ⟨previous, foundBefore⟩ := parsed_of_view loadsBefore viewBefore
      simp [viewAfter, viewBefore, foundBefore, Known.ofObservation, Observation.state?]
    · rw [decide_eq_false viewBefore, Known.resource_ofObservation_false]
      simp [viewAfter, viewBefore, Known.ofObservation]
  · by_cases viewBefore : path ∈ step.before.views
    · obtain ⟨previous, foundBefore⟩ := parsed_of_view loadsBefore viewBefore
      simp [viewAfter, viewBefore, foundBefore, Known.ofObservation]
    · simp [viewAfter, viewBefore]

/-- A refresh of the records equals a full refresh exactly when the opened definitions read each
of them as the current ones do. -/
theorem refreshed_eq_rescanned_iff (revision : Text → String) :
    step.refreshed revision = step.rescanned revision ↔
      ∀ path ∈ step.paths, step.ReadsAlike path := by
  constructor
  · intro same path inside
    exact (step.agrees_iff inside).mp (congrArg (·.1.known path) same)
  · intro alike
    have settings : (step.refreshed revision).1.settings = (step.rescanned revision).1.settings :=
      (TreeSnapshot.settings_refreshPaths _ _).trans step.sameDefinitions.1.symm
    have snapshots : (step.refreshed revision).1 = (step.rescanned revision).1 := by
      refine TreeSnapshot.ext_known settings fun path => ?_
      by_cases inside : path ∈ step.paths
      · exact (step.agrees_iff inside).mpr (alike path inside)
      · rw [step.rescanned_outside inside, known_refreshed, if_neg inside]
    have resources : (step.refreshed revision).1.resources = (step.start revision).resources :=
      KeyedMap.ext_lookup fun path => by
        have known := congrArg Known.resource
          (step.known_refreshed path : (step.refreshed revision).1.known path = _)
        split at known
        next => exact known.trans (Known.resource_replaced _ _)
        next => exact known
    have outside (path : Text) (no : path ∉ step.paths) :
        (step.start revision).records.lookup path =
          (step.refreshed revision).1.records.lookup path := by
      have known := congrArg Known.record
        (step.known_refreshed path : (step.refreshed revision).1.known path = _)
      rw [if_neg no] at known
      exact known.symm
    refine Prod.ext snapshots ?_
    calc (step.refreshed revision).2
        = recordEvents (step.start revision).records (step.refreshed revision).1.records :=
          recordEvents_restrict outside
      _ = (step.start revision).diff (step.refreshed revision).1 := by
          rw [TreeSnapshot.diff, resources, resourceEvents_self, List.nil_append]
      _ = (step.rescanned revision).2 := by
          rw [snapshots]
          rfl

end RecordStep

/-- The definition of a type that gives a default status. -/
def statusType (status : String) : Text :=
  ("---\nname: note\nfields:\n  status: \x7btype: string, default: " ++ status ++
    "\x7d\n---\n").toList

/-- A note of that type. -/
def noteDocument (body : String) : Text := ("---\ntype: note\n---\n" ++ body).toList

/-- A collection of v0.3 whose notes have the default status. -/
def statusReading : RecordReading where
  settings := fun _ =>
    { isCanonical := true
      extensions := []
      exclude := []
      includeSubfolders := true
      typesFolder := "_types".toList
      contractsFolder := "_contracts".toList
      migrationsFolder := "_types/_migrations".toList
      cacheFolder := ".mdbase".toList }
  isConfiguredSource := fun _ _ => false
  observe := fun resources _ document =>
    let status := if resources "_types/note.md".toList = some (statusType "draft") then "draft"
      else "open"
    .parsed
      { revision := String.ofList document
        rawFrontmatter := [("type", .string "note")]
        effectiveFrontmatter := .object [("status", .string status), ("type", .string "note")]
        types := ["note"]
        body := String.ofList (document.drop (noteDocument "").length) }
  isCanonicalView := fun _ _ _ => false
  isCanonicalView_invalid := fun _ _ => rfl

/-- A collection with one note. -/
def statusTree (status body : String) : Tree where
  entries :=
    [(configurationPath, .file "spec_version: 0.3.0".toList), ("_types".toList, .directory),
      ("_types/note.md".toList, .file (statusType status)),
      ("a.md".toList, .file (noteDocument body))]

theorem statusTree_differ {status body other : String} {path : Text}
    (differ : (statusTree status body).node path ≠ (statusTree status other).node path) :
    path = "a.md".toList := by
  have member := Tree.mem_of_differ differ
  simp only [statusTree, List.map_cons, List.map_nil, List.cons_append, List.nil_append,
    List.mem_cons, List.not_mem_nil, or_false] at member
  rcases member with rfl | rfl | rfl | rfl | rfl | rfl | rfl | rfl
  all_goals first | rfl | exact absurd rfl differ

/-- The default was `draft` when the watcher started, and is `open` when the note is edited. -/
def statusStep : RecordStep statusReading where
  openedTree := statusTree "draft" "old"
  opened := (statusReading.load (statusTree "draft" "old")).get (by decide +kernel)
  loadedOpened := (Option.some_get _).symm
  older := ((statusReading.load (statusTree "draft" "old")).get (by decide +kernel)).snapshot
    String.ofList
  beforeTree := statusTree "open" "old"
  before := (statusReading.load (statusTree "open" "old")).get (by decide +kernel)
  loadedBefore := (Option.some_get _).symm
  afterTree := statusTree "open" "new"
  after := (statusReading.load (statusTree "open" "new")).get (by decide +kernel)
  loadedAfter := (Option.some_get _).symm
  paths := ["a.md".toList]
  rootedBefore := Tree.isRooted_of_entries (by decide +kernel)
  rootedAfter := Tree.isRooted_of_entries (by decide +kernel)
  documents := fun path outside => by
    by_contra differ
    have here := statusTree_differ fun same => differ (congrArg Node.document? same)
    exact outside (List.mem_singleton.mpr here)
  fences := fun folder => by
    by_contra differ
    have here := statusTree_differ differ
    have slash : '/' ∈ configurationOf folder := List.mem_append_right _ List.mem_cons_self
    rw [here] at slash
    exact absurd slash (by decide)
  records := by decide +kernel

/-- The edited note keeps the default of the type as it was when the watcher started. -/
theorem refreshed_ne_rescanned_status :
    statusStep.refreshed String.ofList ≠ statusStep.rescanned String.ofList := by
  intro same
  have statuses := congrArg
    (fun result => (result.1.records.lookup "a.md".toList).map (·.effectiveFrontmatter)) same
  have refreshed : ((statusStep.refreshed String.ofList).1.records.lookup "a.md".toList).map
      (·.effectiveFrontmatter) =
        some (.object [("status", .string "draft"), ("type", .string "note")]) := by
    decide +kernel
  have rescanned : ((statusStep.rescanned String.ofList).1.records.lookup "a.md".toList).map
      (·.effectiveFrontmatter) =
        some (.object [("status", .string "open"), ("type", .string "note")]) := by
    decide +kernel
  rw [refreshed, rescanned] at statuses
  exact absurd statuses (by decide +kernel)

end Mdbase.Watch
