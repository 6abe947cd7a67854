import Mdbase.Watch.EventCoverage

/-!
# Which settings the watcher serves

Changes that nothing in the settings brings in sight are left aside: of a configuration below the
root, and of resources at ignored paths. The filter reports all others exactly under the settings
by which it watches what the loader reads. Where it does not watch a path, one file that comes to
a small tree is not reported.
-/

namespace Mdbase.Watch

open Library Links

variable {Record : Type} {before after : FullLoad Record} {path : Text} {settings : PathSettings}

/-- Some change is none that changes a record unseen. -/
def Seen (reading : Reading Record) (before : FullLoad Record) (event : FileEvent)
    (beforeTree afterTree : Tree) : Prop :=
  ∀ after, reading.load afterTree = some after →
    ¬ChangesUnseen before after event beforeTree afterTree

/-- Under some settings, every described change is reported, unless it changes a record unseen. -/
def PathSettings.ReportsAll (settings : PathSettings) : Prop :=
  ∀ (Record : Type) (reading : Reading Record) (beforeTree afterTree : Tree) (event : FileEvent)
    (before : FullLoad Record), reading.load beforeTree = some before →
      before.settings = settings → Describes event beforeTree afterTree →
        Seen reading before event beforeTree afterTree →
          DropsNothing reading beforeTree afterTree event

/-- A tree with a configuration, some folders and some empty files. -/
def standing (configuration : Text) (folders files : List Text) : Tree where
  entries := (configurationPath, .file configuration) ::
    (folders.map (fun folder => (folder, .directory)) ++ files.map fun file => (file, .file []))

theorem find?_map_path (paths : List Text) (node : Node) (path : Text) :
    (paths.map fun other => (other, node)).find? (fun entry => entry.1 = path) =
      if path ∈ paths then some (path, node) else none := by
  induction paths with
  | nil => rfl
  | cons first rest ih =>
    by_cases here : first = path
    · subst here
      simp
    · rw [List.map_cons, List.find?_cons_of_neg (by simpa using here), ih]
      simp [Ne.symm here]

/-- The nodes of a tree with one configuration and empty files. -/
theorem node_standing (configuration : Text) (folders files : List Text) (path : Text) :
    (standing configuration folders files).node path =
      if path = configurationPath then .file configuration
      else if path ∈ folders then .directory
      else if path ∈ files then .file []
      else .absent := by
  unfold Tree.node standing
  by_cases own : path = configurationPath
  · subst own
    simp
  · rw [List.find?_cons_of_neg (by simpa using Ne.symm own), List.find?_append, find?_map_path,
      find?_map_path, if_neg own]
    by_cases folder : path ∈ folders
    · simp [folder]
    · by_cases file : path ∈ files <;> simp [folder, file]

/-- Folders that are closed upwards, and files below them. -/
structure IsClosed (folders files : List Text) : Prop where
  portable : ∀ path ∈ folders ++ files, IsPortable path
  above : ∀ path ∈ folders ++ files, ∀ folder, IsBelow folder path → folder ∈ folders
  configuration : configurationPath ∉ folders ++ files
  apart : ∀ path ∈ files, path ∉ folders

theorem not_isBelow_self (path : Text) : ¬IsBelow path path := fun below => by
  have length := below.length_le
  simp at length

variable {configuration : Text} {folders files : List Text}

theorem configurationOf_ne (folder : Text) : configurationOf folder ≠ configurationPath := by
  intro same
  have slash : '/' ∈ configurationOf folder := by simp [configurationOf]
  rw [same] at slash
  exact absurd slash (by decide)

theorem isExcluded_configuration (settings : PathSettings) :
    settings.isExcluded configurationPath = true := by
  simp only [PathSettings.isExcluded, Bool.or_eq_true, decide_eq_true_eq]
  exact .inl (.inr List.mem_cons_self)

theorem ne_configuration_of_isScanned {tree : Tree}
    (scanned : tree.isScanned settings path = true) : path ≠ configurationPath := by
  rintro rfl
  simp [Tree.isScanned, PathSettings.isRecordPath, isExcluded_configuration] at scanned

namespace IsClosed

theorem node_folder (closed : IsClosed folders files) {folder : Text} (member : folder ∈ folders) :
    (standing configuration folders files).node folder = .directory := by
  rw [node_standing, if_neg, if_pos member]
  rintro rfl
  exact closed.configuration (List.mem_append_left _ member)

theorem node_file (closed : IsClosed folders files) {file : Text} (member : file ∈ files) :
    (standing configuration folders files).node file = .file [] := by
  rw [node_standing, if_neg, if_neg (closed.apart file member), if_pos member]
  rintro rfl
  exact closed.configuration (List.mem_append_right _ member)

theorem isRooted (closed : IsClosed folders files) :
    (standing configuration folders files).IsRooted := by
  intro path present folder below
  refine closed.node_folder ?_
  rw [node_standing] at present
  split_ifs at present with own inside file
  · exact absurd (own ▸ below) (not_isBelow_configurationPath folder)
  · exact closed.above path (List.mem_append_left _ inside) folder below
  · exact closed.above path (List.mem_append_right _ file) folder below
  · exact absurd rfl present

theorem isPortable (closed : IsClosed folders files)
    (present : (standing configuration folders files).node path ≠ .absent) : IsPortable path := by
  rw [node_standing] at present
  split_ifs at present with own inside file
  · subst own
    unfold IsPortable
    decide +kernel
  · exact closed.portable path (List.mem_append_left _ inside)
  · exact closed.portable path (List.mem_append_right _ file)
  · exact absurd rfl present

/-- The scan of such a tree finds a record that no configuration below the root fences off. -/
theorem isScanned (closed : IsClosed folders files) (admits : settings.Admits path)
    (member : path ∈ files)
    (open_ : ∀ folder, IsBelow folder path → configurationOf folder ∉ files)
    (openBelow : ∀ folder deeper, IsBelow folder deeper → IsBelow deeper path →
      configurationOf folder ∉ folders) :
    (standing configuration folders files).isScanned settings path = true := by
  rw [Tree.isScanned, admits.record, Bool.and_true, List.all_eq_true]
  intro folder above
  have below := mem_ancestors.mp above
  obtain ⟨subfolders, shown, included⟩ := admits.folders folder below
  have inside := closed.above path (List.mem_append_right _ member) folder below
  simp only [Tree.isEntered, closed.node_folder inside, subfolders, shown, included,
    Bool.and_eq_true, List.all_eq_true, decide_eq_true_eq, Bool.not_false, and_true, true_and]
  refine ⟨fun parent upper => ?_, ?_⟩
  · have higher := mem_ancestors.mp upper
    rw [node_standing, if_neg (configurationOf_ne parent),
      if_neg (openBelow parent folder higher below),
      if_neg (open_ parent (higher.trans below))]
  · rw [node_standing, if_neg (configurationOf_ne folder), if_neg (open_ folder below)]
    split_ifs <;> rfl

end IsClosed

/-- Everything that was read of a collection, as what is observed of each of its records. -/
def everything (first second : PathSettings) : Reading (Text → Option Text) where
  settings := fun configuration => if configuration = [] then first else second
  isConfiguredSource := fun _ _ => true
  observe := fun resources _ _ => resources
  isCanonicalView := fun _ _ _ => false

theorem everything_settings (first second : PathSettings) :
    (everything first second).settings configuration =
      if configuration = [] then first else second := rfl

theorem exists_load {configuration : Text} (reading : Reading Record)
    (here : tree.node configurationPath = .file configuration) :
    ∃ load, reading.load tree = some load ∧ load.settings = reading.settings configuration := by
  unfold Reading.load
  rw [here]
  exact ⟨_, rfl, rfl⟩

theorem node_configuration :
    (standing configuration folders files).node configurationPath = .file configuration := by
  rw [node_standing, if_pos rfl]

theorem any_path_eq {value : Type} {rows : List (Text × value)} (unread : at? rows path = none) :
    (rows.any fun row => row.1 = path) = false :=
  List.any_eq_false.mpr (List.find?_eq_none.mp (Option.map_eq_none_iff.mp unread))

/-- Where nothing has been loaded, the filter knows control paths by the settings alone. -/
theorem FullLoad.isControl_of_isControlPath (snapshot : FullLoad Record)
    (unread : at? snapshot.resources path = none) (unseen : path ∉ snapshot.views)
    (control : snapshot.isControlPath path = true) : snapshot.settings.IsControl path := by
  rw [FullLoad.isControlPath, any_path_eq unread] at control
  simp only [Bool.or_eq_true, decide_eq_true_eq, unseen, Bool.false_eq_true, or_false] at control
  rcases control with (((own | types) | contracts) | schema) | base
  · exact .inl own
  · exact .inr (.inl types)
  · exact .inr (.inr (.inl contracts))
  · exact .inr (.inr (.inr (.inl schema)))
  · exact .inr (.inr (.inr (.inr base)))

/-- The event of a file that comes: it names the file, or a path above it without a kind. -/
def comes (file named : Text) : FileEvent where
  kind := if file = named then .createFile else .any
  paths := [.below named]

theorem PathSettings.Admits.ne_configuration (admits : settings.Admits path) :
    path ≠ configurationPath ∧ ¬IsBelow configurationPath path := by
  constructor
  · rintro rfl
    have record := admits.record
    rw [PathSettings.isRecordPath, isExcluded_configuration] at record
    simp at record
  · intro below
    have included := (admits.folders _ below).2.2
    rw [isExcluded_configuration] at included
    cases included

theorem PathSettings.Admits.nonempty (admits : settings.Admits path) : path ≠ [] := by
  rintro rfl
  have record := admits.record
  rw [PathSettings.isRecordPath, Bool.and_eq_true] at record
  have extension := record.2
  simp [PathSettings.isValidExtension] at extension

theorem PathSettings.Admits.not_fence (admits : settings.Admits path) {folder : Text} :
    configurationOf folder ≠ path :=
  (admits.unfenced folder).1.symm

theorem node_standing_cons {file : Text} (other : path ≠ file) :
    (standing configuration folders (file :: files)).node path =
      (standing configuration folders files).node path := by
  simp [node_standing, other]

theorem IsClosed.tail {file : Text} (closed : IsClosed folders (file :: files)) :
    IsClosed folders files := by
  have more : folders ++ files ⊆ folders ++ file :: files :=
    ((List.sublist_cons_self file files).append_left folders).subset
  exact
    { portable := fun path member => closed.portable path (more member)
      above := fun path member => closed.above path (more member)
      configuration := fun member => closed.configuration (more member)
      apart := fun path member => closed.apart path (List.mem_cons_of_mem _ member) }

theorem IsClosed.describes {file named : Text} (closed : IsClosed folders (file :: files))
    (nonempty : named ≠ []) (at_ : file = named ∨ IsBelow named file) :
    Describes (comes file named) (standing configuration folders files)
      (standing configuration folders (file :: files)) where
  nonempty := by
    rw [comes, FileEvent.named]
    simpa using nonempty.symm
  rootedBefore := closed.tail.isRooted
  rootedAfter := closed.isRooted
  portable := fun _ present => present.elim closed.tail.isPortable closed.isPortable
  outside := fun path differ =>
    ⟨named, List.mem_cons_self, by
      have same : path = file := by_contra fun other => differ (node_standing_cons other).symm
      exact same ▸ at_⟩
  alone := by
    intro kind other member path below
    refine (node_standing_cons ?_).symm
    rintro rfl
    rcases List.mem_singleton.mp member with rfl
    rw [comes] at kind
    split_ifs at kind with same
    · exact not_isBelow_self _ (same ▸ below)
    · simp at kind
  created := by
    intro kind
    rw [comes] at kind
    split_ifs at kind <;> simp at kind
  renamed := by
    intro kind
    rw [comes] at kind
    split_ifs at kind

/-- What is reported for an event that names one path is reported by that path. -/
theorem PathSettings.ReportsAll.of_named (reports : settings.ReportsAll) {reading : Reading Record}
    {beforeTree afterTree : Tree} {event : FileEvent} {named : Text}
    (loaded : reading.load beforeTree = some before)
    (loadedAfter : reading.load afterTree = some after) (settingsBefore : before.settings = settings)
    (describes : Describes event beforeTree afterTree)
    (seen : Seen reading before event beforeTree afterTree) (concerns : Concerns event before after)
    (paths : event.named = [named]) (narrow : event.isWholesale = false)
    (differs : RecordDiffers before after path) :
    settings.LetsThrough named ∧ (before.asksForAll afterTree event.kind named = true ∨
      named = path ∧ before.hasRecordExtension path = true) := by
  have reported := (reports _ reading _ _ event before loaded settingsBefore describes seen).1
    before after loaded loadedAfter concerns
  rcases covers_iff_accounts.mp reported with wholesale | accounts
  · exact Bool.noConfusion (wholesale.symm.trans narrow)
  obtain ⟨other, visible, how⟩ := accounts path differs
  obtain ⟨here, through⟩ := List.mem_filter.mp visible
  rcases List.mem_singleton.mp (paths ▸ here) with rfl
  rw [Bool.and_eq_true, Bool.not_eq_true', before.isIgnoredPath_eq_false_iff,
    settingsBefore] at through
  exact ⟨through.2, how⟩

/-- A file that comes is reported only if the filter lets the named path through, and knows the
file for a control path or a record when it is named itself. -/
theorem PathSettings.ReportsAll.of_comes (reports : settings.ReportsAll) {file named : Text}
    (closed : IsClosed folders (file :: files)) (fresh : file ∉ files)
    (admits : settings.Admits path)
    (stands : path = file ∨
      path ∈ files ∧ isStructuralResource settings (fun _ => true) file = true ∧
        file = named ∧ settings.LetsThrough file)
    (unfenced : ∀ folder, IsBelow folder path → configurationOf folder ∉ file :: files)
    (unfencedBelow : ∀ folder deeper, IsBelow folder deeper → IsBelow deeper path →
      configurationOf folder ∉ folders)
    (only : ∀ other ∈ files, other = path)
    (nonempty : named ≠ []) (at_ : file = named ∨ IsBelow named file) :
    settings.LetsThrough named ∧
      (file = named → settings.IsControl file ∨
        path = file ∧ settings.HasRecordExtension file) := by
  obtain ⟨before, loaded, settingsBefore⟩ :=
    exists_load (everything settings settings) (@node_configuration [] folders files)
  obtain ⟨after, loadedAfter, settingsAfter⟩ :=
    exists_load (everything settings settings) (@node_configuration [] folders (file :: files))
  rw [everything_settings, if_pos rfl] at settingsBefore settingsAfter
  have loads := Reading.loads_of_load loaded
  have loadsAfter := Reading.loads_of_load loadedAfter
  have absent : (standing [] folders files).node file = .absent := by
    have own : file ≠ configurationPath := fun same =>
      closed.configuration (same ▸ List.mem_append_right _ List.mem_cons_self)
    rw [node_standing, if_neg own, if_neg (closed.apart file List.mem_cons_self), if_neg fresh]
  have there : (standing [] folders (file :: files)).node file = .file [] :=
    closed.node_file List.mem_cons_self
  have unread : at? before.resources file = none := by
    obtain ⟨configuration, -, -, resources⟩ := loads.configuration
    rw [resources, absent]
    exact ite_self _
  have unseen : file ∉ before.views := by
    rw [loads.views, loads.records, absent]
    simp [Node.document?]
  have member : path ∈ file :: files := stands.elim (fun same => same ▸ List.mem_cons_self)
    fun both => List.mem_cons_of_mem _ both.1
  have readAfter : at? after.records path = some (at? after.resources) := by
    rw [loadsAfter.records, settingsAfter, closed.node_file member,
      closed.isScanned admits member unfenced unfencedBelow]
    rfl
  have readResource (structural : isStructuralResource settings (fun _ => true) file = true) :
      at? after.resources file = some [] := by
    obtain ⟨configuration, -, -, resources⟩ := loadsAfter.configuration
    rw [resources, settingsAfter, there]
    exact if_pos (.inr structural)
  have differs : RecordDiffers before after path := by
    rw [RecordDiffers, readAfter]
    rcases stands with rfl | ⟨among, structural, -, -⟩
    · rw [loads.records, absent]
      simp [Node.document?]
    · rw [loads.records, closed.tail.node_file among, settingsBefore,
        closed.tail.isScanned admits among
          (fun folder below => fun here => unfenced folder below (List.mem_cons_of_mem _ here))
          unfencedBelow, if_pos rfl]
      intro same
      have equal : at? before.resources file = at? after.resources file :=
        congrFun (Option.some.inj same) file
      rw [unread, readResource structural] at equal
      cases equal
  have concerns : Concerns (comes file named) before after := by
    refine .inl ⟨file, ?_, .inr ⟨named, List.mem_cons_self, at_⟩⟩
    rcases stands with rfl | ⟨-, structural, -, -⟩
    · exact .inl differs
    · refine .inr fun same => ?_
      rw [unread, readResource structural] at same
      cases same
  have seen : Seen (everything settings settings) before (comes file named)
      (standing [] folders files) (standing [] folders (file :: files)) := by
    rintro other otherLoaded ⟨-, -, record, -, unchanged, differs, cause⟩
    cases loadedAfter.symm.trans otherLoaded
    -- the only record that can stand unchanged is the one beside the file
    have among : record ∈ files := by
      have here : ∃ document, (standing [] folders files).node record = .file document ∧
          record ≠ configurationPath := by
        rcases scanned_of_differs loads loadsAfter differs with
          ⟨scanned, document, here⟩ | ⟨scanned, document, here⟩
        · exact ⟨document, here, ne_configuration_of_isScanned scanned⟩
        · exact ⟨document, unchanged.trans here, ne_configuration_of_isScanned scanned⟩
      obtain ⟨document, here, ne⟩ := here
      rw [node_standing, if_neg ne] at here
      split_ifs at here with inside among
      exact among
    rcases only record among with rfl
    rcases cause with ⟨folder, below, fence⟩ | ⟨-, -, -, other, here, -, ignored⟩
    · refine unfenced folder below (List.mem_cons.mpr (.inl (by_contra fun elsewhere => ?_)))
      exact fence (node_standing_cons elsewhere).symm
    · rcases List.mem_singleton.mp here with rfl
      rcases stands with rfl | ⟨-, -, rfl, through⟩
      · exact fresh among
      · exact ignored (settingsBefore ▸ through)
  obtain ⟨through, how⟩ := reports.of_named loaded loadedAfter settingsBefore
    (closed.describes nonempty at_) seen concerns rfl rfl differs
  refine ⟨through, ?_⟩
  rintro rfl
  rcases how with asks | ⟨rfl, extension⟩
  · refine .inl (settingsBefore ▸ before.isControl_of_isControlPath unread unseen ?_)
    rw [FullLoad.asksForAll, comes, if_pos rfl] at asks
    simpa using asks
  · exact .inr ⟨rfl, settingsBefore ▸ before.hasRecordExtension_iff.mp extension⟩

theorem IsPortable.above (portable : IsPortable path) {folder : Text}
    (below : IsBelow folder path) : IsPortable folder := by
  obtain ⟨rest, rfl⟩ := below
  intro component member
  refine portable component ?_
  rw [List.append_assoc, List.singleton_append, components, List.splitOn_append_cons_self]
  exact List.mem_append_left _ member

theorem isClosed_ancestors (portable : IsPortable path)
    (nonConfiguration : path ≠ configurationPath)
    (notBelow : ¬IsBelow configurationPath path) : IsClosed (ancestors path) [path] where
  portable := by
    intro other member
    rcases List.mem_append.mp member with inside | among
    · exact portable.above (mem_ancestors.mp inside)
    · exact List.mem_singleton.mp among ▸ portable
  above := by
    intro other member folder below
    rcases List.mem_append.mp member with inside | among
    · exact mem_ancestors.mpr (below.trans (mem_ancestors.mp inside))
    · rcases List.mem_singleton.mp among with rfl
      exact mem_ancestors.mpr below
  configuration := by
    rw [List.mem_append, List.mem_singleton, mem_ancestors, not_or]
    exact ⟨notBelow, nonConfiguration.symm⟩
  apart := by
    intro other member inside
    rcases List.mem_singleton.mp member with rfl
    exact not_isBelow_self _ (mem_ancestors.mp inside)

theorem PathSettings.ReportsAll.of_record (reports : settings.ReportsAll)
    (admits : settings.Admits path) {named : Text} (nonempty : named ≠ [])
    (at_ : path = named ∨ IsBelow named path) :
    settings.LetsThrough named ∧
      (path = named → settings.IsControl path ∨ settings.HasRecordExtension path) := by
  obtain ⟨through, extension⟩ := reports.of_comes
    (isClosed_ancestors admits.portable admits.ne_configuration.1 admits.ne_configuration.2)
    List.not_mem_nil admits
    (.inl rfl) (fun folder _ here => admits.not_fence (List.mem_singleton.mp here))
    (fun folder _ _ _ here => (admits.unfenced folder).2 (mem_ancestors.mp here))
    (fun _ here => absurd here List.not_mem_nil) nonempty at_
  exact ⟨through, fun same => (extension same).imp_right And.right⟩

theorem IsApart.isClosed {resource : Text} (apart : IsApart resource path)
    (admits : settings.Admits path) :
    IsClosed (ancestors path ++ ancestors resource) [resource, path] where
  portable := by
    intro other member
    simp only [List.mem_append, List.mem_cons, List.not_mem_nil, or_false, mem_ancestors] at member
    rcases member with (inside | inside) | rfl | rfl
    · exact admits.portable.above inside
    · exact apart.portable.above inside
    · exact apart.portable
    · exact admits.portable
  above := by
    intro other member folder below
    simp only [List.mem_append, List.mem_cons, List.not_mem_nil, or_false, mem_ancestors] at *
    rcases member with (inside | inside) | rfl | rfl
    · exact .inl (below.trans inside)
    · exact .inr (below.trans inside)
    · exact .inr below
    · exact .inl below
  configuration := by
    simp only [List.mem_append, List.mem_cons, List.not_mem_nil, or_false, mem_ancestors]
    rintro ((below | below) | same | same)
    · exact admits.ne_configuration.2 below
    · exact apart.notConfiguration.2 below
    · exact apart.notConfiguration.1 same.symm
    · exact admits.ne_configuration.1 same.symm
  apart := by
    simp only [List.mem_append, List.mem_cons, List.not_mem_nil, or_false, mem_ancestors]
    rintro other (rfl | rfl) (below | below)
    · exact apart.notAbove below
    · exact not_isBelow_self _ below
    · exact not_isBelow_self _ below
    · exact apart.notBelow below

theorem ne_nil_of_structural
    (structural : isStructuralResource settings (fun _ => true) path = true) : path ≠ [] := by
  rintro rfl
  have none_ : pathExtension [] = none := by decide +kernel
  simp [isStructuralResource, none_] at structural

theorem PathSettings.ReportsAll.of_resource (reports : settings.ReportsAll)
    (admits : settings.Admits path) {resource : Text} (apart : IsApart resource path)
    (structural : isStructuralResource settings (fun _ => true) resource = true)
    (through : settings.LetsThrough resource) : settings.IsControl resource := by
  have unfenced : ∀ folder, IsBelow folder path → configurationOf folder ∉ [resource, path] := by
    intro folder below here
    rcases List.mem_cons.mp here with same | here
    · exact apart.unfenced folder below same.symm
    · exact admits.not_fence (List.mem_singleton.mp here)
  have unfencedBelow : ∀ folder deeper, IsBelow folder deeper → IsBelow deeper path →
      configurationOf folder ∉ ancestors path ++ ancestors resource := by
    intro folder deeper above deep here
    rcases List.mem_append.mp here with inside | inside
    · exact (admits.unfenced folder).2 (mem_ancestors.mp inside)
    · exact apart.unfencedBelow folder deeper above deep (mem_ancestors.mp inside)
  have known := reports.of_comes (apart.isClosed admits)
    (fun here => apart.ne (List.mem_singleton.mp here)) admits
    (.inr ⟨List.mem_cons_self, structural, rfl, through⟩) unfenced unfencedBelow
    (fun _ here => List.mem_singleton.mp here) (ne_nil_of_structural structural) (.inl rfl)
  exact (known.2 rfl).resolve_right fun own => apart.ne own.1.symm

/-- Settings by which every note is a record. -/
def permissive : PathSettings where
  isCanonical := true
  extensions := []
  exclude := []
  includeSubfolders := true
  typesFolder := "_types".toList
  contractsFolder := "_contracts".toList
  migrationsFolder := "_types/_migrations".toList
  cacheFolder := ".mdbase".toList

/-- The configuration is written. -/
def configurationEvent : FileEvent where
  kind := .modifyData
  paths := [.below configurationPath]

theorem PathSettings.ReportsAll.of_configuration (reports : settings.ReportsAll) :
    settings.LetsThrough configurationPath := by
  obtain ⟨before, loaded, settingsBefore⟩ :=
    exists_load (everything settings permissive) (@node_configuration [] [] ["a.md".toList])
  obtain ⟨after, loadedAfter, settingsAfter⟩ :=
    exists_load (everything settings permissive) (@node_configuration ['x'] [] ["a.md".toList])
  rw [everything_settings, if_pos rfl] at settingsBefore
  rw [everything_settings, if_neg (List.cons_ne_nil _ _)] at settingsAfter
  have loads := Reading.loads_of_load loaded
  have loadsAfter := Reading.loads_of_load loadedAfter
  have closed : IsClosed [] ["a.md".toList] := ⟨fun path member => by
      rcases List.mem_singleton.mp member with rfl
      unfold IsPortable
      decide +kernel, fun path member folder below => by
    rcases List.mem_singleton.mp member with rfl
    exact absurd (below.subset (by simp : '/' ∈ folder ++ ['/'])) (by decide), by decide, by decide⟩
  have other {path : Text} (elsewhere : path ≠ configurationPath) :
      (standing [] [] ["a.md".toList]).node path =
        (standing ['x'] [] ["a.md".toList]).node path := by
    rw [node_standing, node_standing, if_neg elsewhere, if_neg elsewhere]
  have describes : Describes configurationEvent (standing [] [] ["a.md".toList])
      (standing ['x'] [] ["a.md".toList]) :=
    { nonempty := by decide
      rootedBefore := closed.isRooted
      rootedAfter := closed.isRooted
      portable := fun _ present => present.elim closed.isPortable closed.isPortable
      outside := fun path differ => ⟨configurationPath, List.mem_cons_self,
        .inl (by_contra fun elsewhere => differ (other elsewhere))⟩
      alone := by
        intro _ named member path below
        rcases List.mem_singleton.mp member with rfl
        refine other ?_
        rintro rfl
        exact not_isBelow_self _ below
      created := by decide
      renamed := fun kind => by cases kind }
  have configurations : at? before.resources configurationPath = some [] ∧
      at? after.resources configurationPath = some ['x'] := by
    obtain ⟨_, -, -, resources⟩ := loads.configuration
    obtain ⟨_, -, -, resourcesAfter⟩ := loadsAfter.configuration
    rw [resources, resourcesAfter, if_pos (.inl rfl), if_pos (.inl rfl), node_configuration,
      node_configuration]
    exact ⟨rfl, rfl⟩
  have differs : RecordDiffers before after "a.md".toList := by
    have scanned :
        (standing ['x'] [] ["a.md".toList]).isScanned permissive "a.md".toList = true := by
      decide +kernel
    rw [RecordDiffers, loads.records, loadsAfter.records, settingsAfter, scanned, if_pos rfl,
      closed.node_file List.mem_cons_self, closed.node_file List.mem_cons_self]
    split_ifs
    · intro same
      have equal : at? before.resources configurationPath = at? after.resources configurationPath :=
        congrFun (Option.some.inj same) configurationPath
      rw [configurations.1, configurations.2] at equal
      cases equal
    · exact fun none_ => by cases none_
  have concerns : Concerns configurationEvent before after := by
    refine .inl ⟨configurationPath, .inr ?_, .inr ⟨_, List.mem_cons_self, .inl rfl⟩⟩
    rw [ResourceDiffers, configurations.1, configurations.2]
    decide
  have seen : Seen (everything settings permissive) before configurationEvent
      (standing [] [] ["a.md".toList]) (standing ['x'] [] ["a.md".toList]) := by
    rintro _ again ⟨-, -, path, -, -, -, ⟨folder, -, fence⟩ |
      ⟨resource, ne, changed, named, here, at_, -⟩⟩
    · exact fence (other (configurationOf_ne folder))
    · rcases List.mem_singleton.mp here with rfl
      cases loadedAfter.symm.trans again
      have absent : (standing [] [] ["a.md".toList]).node resource = .absent := by
        by_contra present
        have directory := closed.isRooted resource present _ (at_.resolve_left ne)
        rw [node_configuration] at directory
        cases directory
      obtain ⟨_, -, -, resources⟩ := loads.configuration
      obtain ⟨_, -, -, resourcesAfter⟩ := loadsAfter.configuration
      refine changed ?_
      rw [resources, resourcesAfter, ← other ne, absent]
      simp [Node.document?]
  exact (reports.of_named loaded loadedAfter settingsBefore describes seen concerns rfl rfl
    differs).1

/-- The settings under which every described change is reported, those left aside that change a
record unseen, are those by which the filter watches what the loader reads. Under these, a change
is reported exactly when it does not change a record unseen. -/
theorem dropsNothing_iff (settings : PathSettings) :
    (settings.ReportsAll ↔ settings.IsWatched) ∧
      (settings.IsWatched → ∀ (Record : Type) (reading : Reading Record)
        (beforeTree afterTree : Tree) (event : FileEvent) (before : FullLoad Record),
        reading.load beforeTree = some before → before.settings = settings →
          Describes event beforeTree afterTree →
            (DropsNothing reading beforeTree afterTree event ↔
              Seen reading before event beforeTree afterTree)) := by
  have reports (watched : settings.IsWatched) : settings.ReportsAll := by
    rintro Record reading beforeTree afterTree event before loaded rfl describes seen
    refine ⟨fun other after loadedBefore loadedAfter _ => ?_, fun _ _ => enqueues_of_relevant⟩
    cases loaded.symm.trans loadedBefore
    exact covers_iff_accounts.mpr (describes.accounts watched (seen after loadedAfter)
      (Reading.loads_of_load loaded) (Reading.loads_of_load loadedAfter))
  refine ⟨⟨fun reports => ?_, reports⟩, ?_⟩
  · refine ⟨fun path admits pattern member => ⟨?_, fun folder nonempty below => ?_⟩,
      fun path admits => (reports.of_record admits admits.nonempty (.inl rfl)).2 rfl,
      reports.of_configuration, fun path admits resource apart => reports.of_resource admits apart⟩
    · exact (reports.of_record admits admits.nonempty (.inl rfl)).1.patterns pattern member
    · exact (reports.of_record admits nonempty (.inr below)).1.patterns pattern member
  · intro watched Record reading beforeTree afterTree event before loaded here describes
    refine ⟨fun drops after loadedAfter changes => ?_,
      reports watched _ _ _ _ _ _ loaded here describes⟩
    exact describes.not_dropsNothing changes loaded loadedAfter drops

/-- A collection of v0.3 that excludes drafts at its root. -/
def draftReading : Reading Text where
  settings := fun _ => { permissive with exclude := ["*.draft.md".toList] }
  isConfiguredSource := fun _ _ => false
  observe := fun _ _ document => document
  isCanonicalView := fun _ _ _ => false

/-- A draft in a folder, which is a record, with some document. -/
def draftTree (document : Text) : Tree where
  entries :=
    [(configurationPath, .file "spec_version: 0.3.0".toList), ("notes".toList, .directory),
      ("notes/a.draft.md".toList, .file document)]

/-- The draft is edited. -/
def draftEvent : FileEvent where
  kind := .modifyData
  paths := [.below "notes/a.draft.md".toList]

theorem draftEvent_describes :
    Describes draftEvent (draftTree "old".toList) (draftTree "new".toList) where
  nonempty := by decide
  rootedBefore := Tree.isRooted_of_entries (by decide +kernel)
  rootedAfter := Tree.isRooted_of_entries (by decide +kernel)
  portable := by
    have all : ∀ path ∈ (draftTree "old".toList).entries.map (·.1) ++
        (draftTree "new".toList).entries.map (·.1), IsPortable path := by
      unfold IsPortable
      decide +kernel
    exact fun path present => all path (List.mem_append.mpr
      (present.imp Tree.mem_of_node Tree.mem_of_node))
  outside := by
    intro path differ
    have all : ∀ path ∈ (draftTree "old".toList).entries.map (·.1) ++
        (draftTree "new".toList).entries.map (·.1),
          (draftTree "old".toList).node path ≠ (draftTree "new".toList).node path →
            ∃ named ∈ draftEvent.named, path = named ∨ IsBelow named path := by
      decide +kernel
    exact all path (Tree.mem_of_differ differ) differ
  alone := by
    intro _ named member path below
    by_contra differ
    have none_ : ∀ path ∈ (draftTree "old".toList).entries.map (·.1) ++
        (draftTree "new".toList).entries.map (·.1),
          ∀ named ∈ draftEvent.named, ¬IsBelow named path := by
      decide +kernel
    exact none_ path (Tree.mem_of_differ differ) named member below
  created := nofun
  renamed := nofun

/-- The edit of the draft is dropped. -/
theorem not_dropsNothing_draft :
    Describes draftEvent (draftTree "old".toList) (draftTree "new".toList) ∧
      ¬DropsNothing draftReading (draftTree "old".toList) (draftTree "new".toList) draftEvent := by
  refine ⟨draftEvent_describes, fun drops => ?_⟩
  have first : (draftReading.load (draftTree "old".toList)).map (fun load =>
      (at? load.records "notes/a.draft.md".toList,
        load.invalidationPaths (draftTree "new".toList) draftEvent)) =
        some (some "old".toList, some []) := by
    decide +kernel
  have second : (draftReading.load (draftTree "new".toList)).map (fun load =>
      at? load.records "notes/a.draft.md".toList) = some (some "new".toList) := by
    decide +kernel
  obtain ⟨before, loadedBefore, read⟩ := Option.map_eq_some_iff.mp first
  obtain ⟨after, loadedAfter, readAfter⟩ := Option.map_eq_some_iff.mp second
  obtain ⟨readBefore, nothing⟩ := Prod.mk.inj read
  have differs : RecordDiffers before after "notes/a.draft.md".toList := by
    rw [RecordDiffers, readBefore, readAfter]
    decide
  have concerns : Concerns draftEvent before after :=
    .inl ⟨_, .inl differs, .inr ⟨_, List.mem_cons_self, .inl rfl⟩⟩
  have covered := drops.1 before after loadedBefore loadedAfter concerns [] nothing _ differs
  cases covered

end Mdbase.Watch
