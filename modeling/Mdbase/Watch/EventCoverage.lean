import Mdbase.Watch.Invalidation

/-!
# Which changes an event reports

An event describes a change of the tree. The records that a full load would read differently
have to be refreshed for it. The filter reports them when it does not ignore the paths that the
event names, or one of these asks for a full refresh. It ignores paths by the patterns of v0.2,
whatever the profile of the collection, and resources even where their folders do not follow the
path policy. It reads extensions in its own way, and it does not know that a configuration below
the root takes records out of the collection. The settings decide whether anything is dropped.
-/

namespace Mdbase.Watch

open Library Links

variable {Record : Type}

/-- A record differs between two loads. -/
def RecordDiffers (before after : FullLoad Record) (path : Text) : Prop :=
  at? before.records path ≠ at? after.records path

/-- A resource differs between two loads. -/
def ResourceDiffers (before after : FullLoad Record) (path : Text) : Prop :=
  at? before.resources path ≠ at? after.resources path

/-- The loads differ at a path that an event names, or below it, or in a record that a named
configuration below the root hides or reveals. -/
def Concerns (event : FileEvent) (before after : FullLoad Record) : Prop :=
  (∃ path, (RecordDiffers before after path ∨ ResourceDiffers before after path) ∧
      (.root ∈ event.paths ∨ ∃ named ∈ event.named, path = named ∨ IsBelow named path)) ∨
    ∃ folder path, configurationOf folder ∈ event.named ∧ IsBelow folder path ∧
      RecordDiffers before after path

/-- Everything, or every record that differs. -/
def Covers (before after : FullLoad Record) (paths : Option (List Text)) : Prop :=
  ∀ refreshed, paths = some refreshed → ∀ path, RecordDiffers before after path → path ∈ refreshed

/-- No relevant event is dropped: the change from one tree to another is reported by the event
that describes it, and an event that is treated as relevant has advanced the revision. -/
def DropsNothing (reading : Reading Record) (beforeTree afterTree : Tree) (event : FileEvent) :
    Prop :=
  (∀ before after, reading.load beforeTree = some before → reading.load afterTree = some after →
    Concerns event before after → Covers before after (before.invalidationPaths afterTree event)) ∧
  ∀ before, reading.load beforeTree = some before → event.invalidatesSnapshot = true →
    before.invalidationPaths afterTree event ≠ some [] → event.enqueuesReconciliation = true

/-- Every record that differs is named by a path that is not ignored, or some such path, or the
event, stands for everything. -/
def Accounts (before after : FullLoad Record) (tree : Tree) (event : FileEvent) : Prop :=
  event.isWholesale = true ∨
    ∀ path, RecordDiffers before after path → ∃ named ∈ before.visible event,
      before.asksForAll tree event.kind named = true ∨
        named = path ∧ before.hasRecordExtension path = true

variable {before after : FullLoad Record} {tree : Tree} {event : FileEvent}

/-- The invalidation covers a change exactly if each differing path is accounted for. -/
theorem covers_iff_accounts :
    Covers before after (before.invalidationPaths tree event) ↔
      Accounts before after tree event := by
  rw [before.invalidationPaths_eq]
  cases wholesale : event.isWholesale with
  | true => exact ⟨fun _ => .inl wholesale, fun _ => nofun⟩
  | false =>
    rw [Bool.false_or]
    by_cases asked : (before.visible event).any (before.asksForAll tree event.kind) = true
    · rw [if_pos asked]
      obtain ⟨named, member, asks⟩ := List.any_eq_true.mp asked
      exact ⟨fun _ => .inr fun _ _ => ⟨named, member, .inl asks⟩, fun _ => nofun⟩
    · rw [if_neg asked]
      constructor
      · intro covers
        refine .inr fun path differs => ⟨path, ?_⟩
        obtain ⟨member, extension⟩ := List.mem_filter.mp (covers _ rfl path differs)
        exact ⟨member, .inr ⟨rfl, extension⟩⟩
      · rintro (whole | accounts) refreshed ⟨⟩ path differs
        · exact Bool.noConfusion (wholesale.symm.trans whole)
        · obtain ⟨named, member, asks | ⟨rfl, extension⟩⟩ := accounts path differs
          · exact absurd (List.any_eq_true.mpr ⟨named, member, asks⟩) asked
          · exact List.mem_filter.mpr ⟨member, extension⟩

variable {before : FullLoad Record}

theorem enqueues_of_relevant (invalidates : event.invalidatesSnapshot = true)
    (relevant : before.invalidationPaths tree event ≠ some []) :
    event.enqueuesReconciliation = true := by
  rw [FileEvent.enqueuesReconciliation, invalidates, Bool.true_and, Bool.or_eq_true]
  rw [before.invalidationPaths_eq] at relevant
  cases wholesale : event.isWholesale with
  | true =>
    refine (Bool.or_eq_true _ _ ▸ wholesale).imp id fun outside => ?_
    obtain ⟨path, member, is⟩ := List.any_eq_true.mp outside
    refine List.any_eq_true.mpr ⟨path, member, ?_⟩
    cases path with
    | root | elsewhere => rfl
    | below path => cases is
  | false =>
    have some_ : before.visible event ≠ [] := by
      intro none_
      rw [wholesale, none_] at relevant
      exact relevant rfl
    obtain ⟨path, member⟩ := List.exists_mem_of_ne_nil _ some_
    obtain ⟨named, seen⟩ := List.mem_filter.mp member
    obtain ⟨_ | path | _, here, same⟩ := List.mem_filterMap.mp named
    · cases same
    · cases same
      refine .inr (List.any_eq_true.mpr ⟨.below path, here, ?_⟩)
      simp only [FullLoad.isIgnoredPath, Bool.and_eq_true, Bool.not_eq_true',
        Bool.or_eq_false_iff] at seen
      exact congrArg (!·) seen.2.1.1.1.1
    · cases same

/-- Nothing is below what is no folder. -/
def Tree.IsRooted (tree : Tree) : Prop :=
  ∀ path, tree.node path ≠ .absent → ∀ folder, IsBelow folder path → tree.node folder = .directory

/-- No component of a path is empty or a dot. -/
def IsPortable (path : Text) : Prop :=
  ∀ component ∈ components path, component ≠ [] ∧ component ≠ ['.']

/-- What an event says of the change: the trees differ at the named paths and below them, the
kind says whether they differ below, and created paths did not exist. The empty path is the
root. -/
structure Describes (event : FileEvent) (before after : Tree) : Prop where
  nonempty : [] ∉ event.named
  rootedBefore : before.IsRooted
  rootedAfter : after.IsRooted
  portable : ∀ path, before.node path ≠ .absent ∨ after.node path ≠ .absent → IsPortable path
  outside : ∀ path, before.node path ≠ after.node path →
    ∃ named ∈ event.named, path = named ∨ IsBelow named path
  alone : event.kind ∈ [.access, .createFile, .modifyAny, .modifyData, .modifyAccessTime,
      .modifyMetadata, .modifyOther, .removeFile] →
    ∀ named ∈ event.named, ∀ path, IsBelow named path → before.node path = after.node path
  created : event.kind ∈ [.createAny, .createOther] →
    ∀ named ∈ event.named, before.node named = .absent
  renamed : event.kind = .modifyName → ∀ named ∈ event.named, ∀ document,
    after.node named = .file document → ∀ path, IsBelow named path → before.node path = .absent

variable {path : Text}

theorem Tree.mem_of_node (present : tree.node path ≠ .absent) : path ∈ tree.entries.map (·.1) := by
  unfold Tree.node at present
  split at present
  next entry found =>
    have same : entry.1 = path := by simpa using List.find?_some found
    exact List.mem_map.mpr ⟨entry, List.mem_of_find?_eq_some found, same⟩
  next => exact absurd rfl present

theorem Tree.isRooted_of_entries
    (rooted : ∀ path ∈ tree.entries.map (·.1), ∀ folder ∈ ancestors path,
      tree.node folder = .directory) : tree.IsRooted :=
  fun path present folder below =>
    rooted path (Tree.mem_of_node present) folder (mem_ancestors.mpr below)

theorem Tree.mem_of_differ {before after : Tree} (differ : before.node path ≠ after.node path) :
    path ∈ before.entries.map (·.1) ++ after.entries.map (·.1) := by
  by_cases present : before.node path = .absent
  · exact List.mem_append_right _ (Tree.mem_of_node fun none_ => differ (present.trans none_.symm))
  · exact List.mem_append_left _ (Tree.mem_of_node present)

theorem IsBelow.trans {upper folder : Text} (above : IsBelow upper folder)
    (below : IsBelow folder path) : IsBelow upper path :=
  List.IsPrefix.trans above ((List.prefix_append folder ['/']).trans below)

/-- A file of two trees is found by both scans or by none, when the configurations of the folders
above it are the same. -/
theorem Tree.isScanned_congr {before after : Tree} (rootedBefore : before.IsRooted)
    (rootedAfter : after.IsRooted)
    (fences : ∀ folder, IsBelow folder path →
      before.node (configurationOf folder) = after.node (configurationOf folder))
    (inBefore : before.node path ≠ .absent) (inAfter : after.node path ≠ .absent)
    (settings : PathSettings) : after.isScanned settings path = before.isScanned settings path := by
  have entered : ∀ folder ∈ ancestors path,
      after.isEntered settings folder = before.isEntered settings folder := by
    intro folder above
    have below := mem_ancestors.mp above
    have parents : (ancestors folder).all (fun parent =>
        after.node (configurationOf parent) = .absent) =
          (ancestors folder).all fun parent => before.node (configurationOf parent) = .absent := by
      rw [Bool.eq_iff_iff, List.all_eq_true, List.all_eq_true]
      refine forall₂_congr fun parent member => ?_
      rw [fences parent ((mem_ancestors.mp member).trans below)]
    rw [Tree.isEntered, Tree.isEntered, parents, fences folder below,
      rootedBefore path inBefore folder below, rootedAfter path inAfter folder below]
  rw [Tree.isScanned, Tree.isScanned, Bool.eq_iff_iff, Bool.and_eq_true, Bool.and_eq_true,
    List.all_eq_true, List.all_eq_true]
  exact and_congr_left fun _ => forall₂_congr fun folder above => by rw [entered folder above]

/-- The loader takes a file at a path for a record, if there are folders above it. -/
structure PathSettings.Admits (settings : PathSettings) (path : Text) : Prop where
  portable : IsPortable path
  record : settings.isRecordPath path = true
  folders : ∀ folder, IsBelow folder path → settings.includeSubfolders = true ∧
    hasHiddenComponent folder = false ∧ settings.isExcluded folder = false
  unfenced : ∀ folder, path ≠ configurationOf folder ∧ ¬IsBelow (configurationOf folder) path

/-- The filter does not ignore a path. It reads the patterns as those of v0.2. -/
structure PathSettings.LetsThrough (settings : PathSettings) (path : Text) : Prop where
  shown : hasHiddenComponent path = false
  cache : isAtOrBelow settings.cacheFolder path = false
  migrations : isAtOrBelow settings.migrationsFolder path = false
  patterns : ∀ pattern ∈ settings.exclude, matchGlobPattern pattern path = false
  subfolders : settings.includeSubfolders = true ∨ '/' ∉ path

/-- The filter knows a path for one that the whole collection depends on, whatever has been
loaded. -/
def PathSettings.IsControl (settings : PathSettings) (path : Text) : Prop :=
  path ∈ [configurationPath, "mdbase.lock.yaml".toList, "mdbase.provisions.yaml".toList] ∨
    isAtOrBelow settings.typesFolder path = true ∨
    isAtOrBelow settings.contractsFolder path = true ∨ isSchemaResourcePath path = true ∨
    pathExtension path = some "base".toList

/-- The filter finds the extension of a record on a path. -/
def PathSettings.HasRecordExtension (settings : PathSettings) (path : Text) : Prop :=
  ∃ extension, pathExtension path = some extension ∧ (extension = "md".toList ∨
    ∃ setting ∈ settings.extensions, extension = setting.dropWhile (· = '.'))

/-- A resource can stand beside a record: neither is above the other, and no folder of the
resource takes the record out of the collection. -/
structure IsApart (resource record : Text) : Prop where
  portable : IsPortable resource
  ne : resource ≠ record
  notAbove : ¬IsBelow resource record
  notBelow : ¬IsBelow record resource
  notConfiguration : resource ≠ configurationPath ∧ ¬IsBelow configurationPath resource
  unfenced : ∀ folder, IsBelow folder record → resource ≠ configurationOf folder
  unfencedBelow : ∀ folder deeper, IsBelow folder deeper → IsBelow deeper record →
    ¬IsBelow (configurationOf folder) resource

/-- The filter watches what the loader reads by some settings. -/
structure PathSettings.IsWatched (settings : PathSettings) : Prop where
  /-- No pattern matches a record, or a folder above one, when it is read as one of v0.2. -/
  patterns : ∀ path, settings.Admits path → ∀ pattern ∈ settings.exclude,
    matchGlobPattern pattern path = false ∧
      ∀ folder, folder ≠ [] → IsBelow folder path → matchGlobPattern pattern folder = false
  /-- Every record has an extension that the filter finds, unless it is a control path. -/
  extensions : ∀ path, settings.Admits path →
    settings.IsControl path ∨ settings.HasRecordExtension path
  configuration : settings.LetsThrough configurationPath
  /-- A resource beside a record is a control path, unless it is ignored. -/
  resources : ∀ path, settings.Admits path → ∀ resource, IsApart resource path →
    isStructuralResource settings (fun _ => true) resource = true →
    settings.LetsThrough resource → settings.IsControl resource

/-- By an event that asks for no full refresh, a record that stands unchanged and is not named
differs, since a configuration below the root comes or goes above it, or a resource changes that
the event names by an ignored path. -/
structure ChangesUnseen (before after : FullLoad Record) (event : FileEvent)
    (beforeTree afterTree : Tree) : Prop where
  narrow : event.isWholesale = false
  quiet : ∀ named ∈ before.visible event, before.asksForAll afterTree event.kind named = false
  unseen : ∃ path ∉ event.named, beforeTree.node path = afterTree.node path ∧
    RecordDiffers before after path ∧
      ((∃ folder, IsBelow folder path ∧
          beforeTree.node (configurationOf folder) ≠ afterTree.node (configurationOf folder)) ∨
        ∃ resource, resource ≠ configurationPath ∧ ResourceDiffers before after resource ∧
          ∃ named ∈ event.named, (resource = named ∨ IsBelow named resource) ∧
            ¬before.settings.LetsThrough named)

variable {settings : PathSettings}

theorem FullLoad.isIgnoredPath_eq_false_iff (snapshot : FullLoad Record) :
    snapshot.isIgnoredPath path = false ↔ snapshot.settings.LetsThrough path := by
  simp only [FullLoad.isIgnoredPath, Bool.or_eq_false_iff, List.any_eq_false, Bool.not_eq_true,
    Bool.and_eq_false_iff, Bool.not_eq_false', List.contains_eq_mem, decide_eq_false_iff_not]
  constructor
  · rintro ⟨⟨⟨⟨shown, cache⟩, migrations⟩, patterns⟩, subfolders⟩
    exact ⟨shown, cache, migrations, patterns, subfolders⟩
  · rintro ⟨shown, cache, migrations, patterns, subfolders⟩
    exact ⟨⟨⟨⟨shown, cache⟩, migrations⟩, patterns⟩, subfolders⟩

theorem FullLoad.isControlPath_of_isControl (snapshot : FullLoad Record)
    (control : snapshot.settings.IsControl path) : snapshot.isControlPath path = true := by
  simp only [FullLoad.isControlPath, Bool.or_eq_true, decide_eq_true_eq]
  rcases control with own | types | contracts | schema | base
  · exact .inl (.inl (.inl (.inl (.inl (.inl own)))))
  · simp [types]
  · simp [contracts]
  · simp [schema]
  · simp [base]

theorem FullLoad.hasRecordExtension_iff (snapshot : FullLoad Record) :
    snapshot.hasRecordExtension path = true ↔ snapshot.settings.HasRecordExtension path := by
  rw [FullLoad.hasRecordExtension, Option.any_eq_true]
  refine exists_congr fun extension => and_congr_right fun _ => ?_
  rw [decide_eq_true_iff, FullLoad.recordExtensions, List.mem_cons, List.mem_map]
  exact or_congr_right (exists_congr fun setting => and_congr_right fun _ => eq_comm)

theorem exists_above_of_slash (slash : '/' ∈ path) : ∃ folder, IsBelow folder path := by
  obtain ⟨before, after, rfl⟩ := List.append_of_mem slash
  exact ⟨before, after, by simp⟩

/-- What is read as a record is not ignored, nor are the folders above it. -/
theorem PathSettings.IsWatched.letsThrough (watched : settings.IsWatched)
    (admits : settings.Admits path) {named : Text} (nonempty : named ≠ [])
    (at_ : path = named ∨ IsBelow named path) : settings.LetsThrough named := by
  have open_ {named : Text} (shown : settings.isExcluded named = false) :
      isAtOrBelow settings.cacheFolder named = false ∧
        isAtOrBelow settings.migrationsFolder named = false := by
    unfold PathSettings.isExcluded at shown
    simp only [Bool.or_eq_false_iff] at shown
    exact ⟨shown.1.1.1.1.2, shown.1.1.1.2⟩
  rcases at_ with rfl | below
  · have record := admits.record
    simp only [PathSettings.isRecordPath, Bool.and_eq_true, Bool.not_eq_true'] at record
    obtain ⟨⟨⟨-, shown⟩, included⟩, -⟩ := record
    refine ⟨shown, (open_ included).1, (open_ included).2,
      fun pattern member => (watched.patterns path admits pattern member).1, ?_⟩
    refine or_iff_not_imp_right.mpr fun slash => ?_
    obtain ⟨folder, below⟩ := exists_above_of_slash (not_not.mp slash)
    exact (admits.folders folder below).1
  · obtain ⟨subfolders, shown, included⟩ := admits.folders named below
    exact ⟨shown, (open_ included).1, (open_ included).2,
      fun pattern member => (watched.patterns path admits pattern member).2 named nonempty below,
      .inl subfolders⟩

/-- A record that a scan finds is admitted. -/
theorem Tree.admits_of_isScanned (portable : IsPortable path)
    (scanned : tree.isScanned settings path = true)
    {document : Text} (here : tree.node path = .file document) : settings.Admits path := by
  rw [Tree.isScanned, Bool.and_eq_true, List.all_eq_true] at scanned
  obtain ⟨entered, record⟩ := scanned
  have enters {folder : Text} (below : IsBelow folder path) := entered folder (mem_ancestors.mpr below)
  simp only [Tree.isEntered, Bool.and_eq_true, decide_eq_true_eq, Bool.not_eq_true',
    List.all_eq_true] at enters
  refine ⟨portable, record, fun folder below => ?_, fun folder => ⟨?_, fun below => ?_⟩⟩
  · obtain ⟨⟨⟨⟨⟨-, subfolders⟩, shown⟩, included⟩, -⟩, -⟩ := enters below
    exact ⟨subfolders, shown, included⟩
  · rintro rfl
    have above : IsBelow folder (configurationOf folder) :=
      ⟨configurationPath, by simp [configurationOf]⟩
    have fence := (enters above).2
    rw [here] at fence
    cases fence
  · have above : IsBelow folder (configurationOf folder) :=
      ⟨configurationPath, by simp [configurationOf]⟩
    obtain ⟨⟨⟨⟨⟨directory, -⟩, -⟩, -⟩, fences⟩, -⟩ := enters below
    rw [fences folder (mem_ancestors.mpr above)] at directory
    cases directory

variable {beforeTree afterTree : Tree}

/-- Below a named path that does not ask for everything, nothing changed or nothing is left. -/
theorem Describes.below (describes : Describes event beforeTree afterTree) {named : Text}
    (member : named ∈ event.named) (asks : before.asksForAll afterTree event.kind named = false) :
    (∀ path, IsBelow named path → beforeTree.node path = afterTree.node path) ∨
      ∀ path, IsBelow named path → afterTree.node path = .absent ∧
        at? before.records path = none ∧ at? before.resources path = none := by
  have gone {tree : Tree} (rooted : tree.IsRooted) (file : tree.node named ≠ .directory) :
      ∀ path, IsBelow named path → tree.node path = .absent := fun path below =>
    by_contra fun present => file (rooted path present named below)
  simp only [FullLoad.asksForAll, Bool.or_eq_false_iff, Bool.and_eq_false_iff,
    decide_eq_false_iff_not, List.mem_cons, List.not_mem_nil, or_false, not_or] at asks
  obtain ⟨⟨⟨always, renamed⟩, created⟩, -⟩ := asks
  cases kind : event.kind with
  | any | other | createFolder | removeFolder | removeAny | removeOther => simp [kind] at always
  | access | createFile | modifyAny | modifyData | modifyAccessTime | modifyMetadata |
      modifyOther | removeFile =>
      exact .inl (describes.alone (by rw [kind]; decide) named member)
  | createAny | createOther =>
    have isNew := describes.created (by rw [kind]; decide) named member
    have file : afterTree.node named ≠ .directory :=
      created.resolve_left fun no => by simp [kind] at no
    refine .inl fun path below => ?_
    rw [gone describes.rootedBefore (by rw [isNew]; simp) path below,
      gone describes.rootedAfter file path below]
  | modifyName =>
    have holds := renamed.resolve_left fun no => no kind
    unfold FullLoad.renamedPathMayHoldRecords at holds
    split at holds
    next document here =>
      refine .inl fun path below => ?_
      rw [describes.renamed kind named member document here path below,
        gone describes.rootedAfter (by rw [here]; simp) path below]
    next => cases holds
    next => cases holds
    rename_i here
    rw [FullLoad.holdsBelow, Bool.or_eq_false_iff] at holds
    refine .inr fun path below => ⟨gone describes.rootedAfter (by rw [here]; simp) path below,
      at?_eq_none_of_any holds.1 ?_, at?_eq_none_of_any holds.2 ?_⟩
    · exact List.isPrefixOf_iff_prefix.mpr below
    · exact List.isPrefixOf_iff_prefix.mpr below

theorem not_isBelow_configurationPath (folder : Text) : ¬IsBelow folder configurationPath := by
  intro below
  have member : '/' ∈ configurationPath := below.subset (by simp)
  exact absurd member (by decide)

theorem IsBelow.of_configurationOf {named folder path : Text}
    (above : IsBelow named (configurationOf folder)) (below : IsBelow folder path) :
    IsBelow named path := by
  have start : folder ++ ['/'] <+: configurationOf folder :=
    ⟨configurationPath, by rw [configurationOf, List.append_assoc]; rfl⟩
  rcases List.prefix_or_prefix_of_prefix above start with shorter | longer
  · exact shorter.trans below
  · obtain ⟨more, same⟩ := longer
    rw [IsBelow, ← same, configurationOf, List.append_assoc, List.prefix_append_right_inj] at above
    obtain ⟨rest, whole⟩ := above
    rw [List.singleton_append, List.cons_append, List.cons.injEq] at whole
    rcases List.eq_nil_or_concat more with rfl | ⟨start, last, rfl⟩
    · rw [IsBelow, ← same, List.append_nil]
      exact below
    · -- The slash after the upper folder would be in the name of the configuration.
      rw [List.concat_eq_append, ← List.append_assoc] at same
      have slash : last = '/' := List.singleton_inj.mp (List.append_inj_right' same rfl)
      have member : '/' ∈ configurationPath := by
        rw [← whole.2, slash]
        simp
      exact absurd member (by decide)

variable {reading : Reading Record}

theorem FullLoad.mem_visible {named : Text} (describes : Describes event beforeTree afterTree)
    (member : named ∈ event.named) (through : before.settings.LetsThrough named) :
    named ∈ before.visible event := by
  refine List.mem_filter.mpr ⟨member, ?_⟩
  rw [before.isIgnoredPath_eq_false_iff.mpr through, Bool.not_false, Bool.and_true,
    decide_eq_true_iff]
  rintro rfl
  exact describes.nonempty member

/-- A record that differs between two loads is found by one of the scans. -/
theorem scanned_of_differs (loadedBefore : reading.Loads beforeTree before)
    (loadedAfter : reading.Loads afterTree after) (differs : RecordDiffers before after path) :
    (beforeTree.isScanned before.settings path = true ∧
        ∃ document, beforeTree.node path = .file document) ∨
      afterTree.isScanned after.settings path = true ∧
        ∃ document, afterTree.node path = .file document := by
  have read {tree : Tree} {load : FullLoad Record} (loads : reading.Loads tree load)
      (none_ : ¬(tree.isScanned load.settings path = true ∧
        ∃ document, tree.node path = .file document)) : at? load.records path = none := by
    rw [loads.records]
    split
    next scanned =>
      cases here : tree.node path with
      | file document => exact absurd ⟨scanned, document, here⟩ none_
      | absent | directory | other => rfl
    next => rfl
  by_contra neither
  rw [not_or] at neither
  exact differs ((read loadedBefore neither.1).trans (read loadedAfter neither.2).symm)

/-- A change at a place where the event names a path above a record leaves the record alone, or
the places below. -/
theorem Describes.above (describes : Describes event beforeTree afterTree)
    (watched : before.settings.IsWatched) (loadedAfter : reading.Loads afterTree after)
    (quiet : ∀ named ∈ before.visible event,
      before.asksForAll afterTree event.kind named = false)
    (admits : before.settings.Admits path) (differs : RecordDiffers before after path)
    {named : Text} (member : named ∈ event.named) (below : IsBelow named path) :
    ∀ other, IsBelow named other → beforeTree.node other = afterTree.node other := by
  have nonempty : named ≠ [] := fun none_ => describes.nonempty (none_ ▸ member)
  have seen := before.mem_visible describes member
    (watched.letsThrough admits nonempty (.inr below))
  refine (describes.below member (quiet named seen)).resolve_right fun gone => differs ?_
  obtain ⟨absent, unread, -⟩ := gone path below
  rw [unread, loadedAfter.records, absent]
  exact (ite_self _).symm

theorem isStructuralResource_mono {isConfigured : Text → Bool}
    (structural : isStructuralResource settings isConfigured path = true) :
    isStructuralResource settings (fun _ => true) path = true := by
  simp only [isStructuralResource, Bool.or_eq_true, Bool.and_eq_true] at structural ⊢
  exact structural.imp_right fun view => ⟨view.1, trivial⟩

theorem Tree.isScanned_eq_false_of_fence {folder : Text} (below : IsBelow folder path)
    (fence : (∃ document, tree.node (configurationOf folder) = .file document) ∨
      ∃ deeper, IsBelow folder deeper ∧ IsBelow deeper path ∧
        tree.node (configurationOf folder) ≠ .absent) :
    tree.isScanned settings path = false := by
  rw [Bool.eq_false_iff, Tree.isScanned]
  intro scanned
  have entered := List.all_eq_true.mp ((Bool.and_eq_true _ _).mp scanned).1
  rcases fence with ⟨document, here⟩ | ⟨deeper, above, deep, present⟩
  · have enters := entered folder (mem_ancestors.mpr below)
    rw [Tree.isEntered, here, Bool.and_false] at enters
    cases enters
  · have enters := entered deeper (mem_ancestors.mpr deep)
    simp only [Tree.isEntered, Bool.and_eq_true, List.all_eq_true, decide_eq_true_eq] at enters
    exact present (enters.1.2 folder (mem_ancestors.mpr above))

/-- A change that asks for nothing leaves the resources beside a record that stands
unchanged. -/
theorem Describes.sameResources (describes : Describes event beforeTree afterTree)
    (watched : before.settings.IsWatched)
    (quiet : ∀ named ∈ before.visible event,
      before.asksForAll afterTree event.kind named = false)
    (configurations : beforeTree.node configurationPath = afterTree.node configurationPath)
    (configured : beforeTree.node configurationPath ≠ .directory)
    (same : beforeTree.node path = afterTree.node path) {document : Text}
    (here : beforeTree.node path = .file document)
    (scannedBefore : beforeTree.isScanned before.settings path = true)
    (scannedAfter : afterTree.isScanned before.settings path = true) {resource : Text}
    (structural : isStructuralResource before.settings (fun _ => true) resource = true)
    (through : ∀ named ∈ event.named, resource = named ∨ IsBelow named resource →
      before.settings.LetsThrough named) :
    (beforeTree.node resource).document? = (afterTree.node resource).document? ∨
      at? before.resources resource = none ∧ afterTree.node resource = .absent := by
  by_contra neither
  obtain ⟨differ, kept⟩ := not_or.mp neither
  have moved : beforeTree.node resource ≠ afterTree.node resource :=
    fun equal => differ (congrArg _ equal)
  have there := same.symm.trans here
  -- one of the trees has a file at the resource
  obtain ⟨tree, rooted, document, file, stands, unconfigured, scanned⟩ : ∃ tree : Tree,
      tree.IsRooted ∧ ∃ found, tree.node resource = .file found ∧ tree.node path = .file document ∧
        tree.node configurationPath ≠ .directory ∧ tree.isScanned before.settings path = true := by
    cases left : beforeTree.node resource with
    | file found =>
      exact ⟨_, describes.rootedBefore, found, left, here, configured, scannedBefore⟩
    | absent | directory | other =>
      cases right : afterTree.node resource with
      | file found =>
        exact ⟨_, describes.rootedAfter, found, right, there, configurations ▸ configured,
          scannedAfter⟩
      | absent | directory | other => simp [left, right, Node.document?] at differ
  have present : tree.node resource ≠ .absent := by simp [file]
  have portable : IsPortable path := describes.portable path (.inl (by simp [here]))
  have apart : IsApart resource path := by
    refine ⟨describes.portable resource ?_, ?_, fun above => ?_, fun below => ?_,
      ⟨?_, fun below => ?_⟩, ?_, ?_⟩
    · by_contra absent
      obtain ⟨left, right⟩ := not_or.mp absent
      exact moved ((not_not.mp left).trans (not_not.mp right).symm)
    · rintro rfl
      exact moved same
    · rw [rooted path (by simp [stands]) resource above] at file
      cases file
    · rw [rooted resource present path below] at stands
      cases stands
    · rintro rfl
      exact moved configurations
    · exact unconfigured (rooted resource present _ below)
    · rintro folder below rfl
      rw [Tree.isScanned_eq_false_of_fence below (.inl ⟨_, file⟩)] at scanned
      cases scanned
    · intro folder deeper above deep below
      have directory := rooted resource present _ below
      rw [Tree.isScanned_eq_false_of_fence (above.trans deep)
        (.inr ⟨_, above, deep, by simp [directory]⟩)] at scanned
      cases scanned
  obtain ⟨named, member, at_⟩ := describes.outside resource moved
  have open_ := through named member at_
  have seen := before.mem_visible describes member open_
  rcases at_ with rfl | above
  · have control := watched.resources path (Tree.admits_of_isScanned portable scanned stands)
      resource apart structural open_
    have asks := quiet resource seen
    rw [FullLoad.asksForAll, before.isControlPath_of_isControl control, Bool.or_true] at asks
    cases asks
  · rcases describes.below member (quiet named seen) with unchanged | gone
    · exact moved (unchanged _ above)
    · obtain ⟨absent, -, unread⟩ := gone resource above
      exact kept ⟨unread, absent⟩

/-- Under settings by which the filter watches what the loader reads, a change that asks for
nothing keeps the configuration. -/
theorem Describes.sameConfiguration (describes : Describes event beforeTree afterTree)
    (watched : before.settings.IsWatched)
    (quiet : ∀ named ∈ before.visible event,
      before.asksForAll afterTree event.kind named = false) :
    beforeTree.node configurationPath = afterTree.node configurationPath := by
  by_contra different
  obtain ⟨named, member, rfl | below⟩ := describes.outside configurationPath different
  · have asks := quiet _ (before.mem_visible describes member watched.configuration)
    rw [FullLoad.asksForAll, before.isControlPath_of_isControl (.inl (by simp)),
      Bool.or_true] at asks
    cases asks
  · exact not_isBelow_configurationPath named below

/-- Under settings by which the filter watches what the loader reads, a described change is
accounted for, unless it changes a record unseen. -/
theorem Describes.accounts (describes : Describes event beforeTree afterTree)
    (watched : before.settings.IsWatched)
    (seen : ¬ChangesUnseen before after event beforeTree afterTree)
    (loadedBefore : reading.Loads beforeTree before) (loadedAfter : reading.Loads afterTree after) :
    Accounts before after afterTree event := by
  cases wholesale : event.isWholesale with
  | true => exact .inl wholesale
  | false =>
  by_cases asked : ∃ named ∈ before.visible event,
      before.asksForAll afterTree event.kind named = true
  · obtain ⟨named, member, asks⟩ := asked
    exact .inr fun _ _ => ⟨named, member, .inl asks⟩
  have quiet (named : Text) (member : named ∈ before.visible event) :
      before.asksForAll afterTree event.kind named = false :=
    Bool.eq_false_iff.mpr fun asks => asked ⟨named, member, asks⟩
  have configurations := describes.sameConfiguration watched quiet
  obtain ⟨configuration, standsBefore, settingsBefore, resourcesBefore⟩ :=
    loadedBefore.configuration
  obtain ⟨other, standsAfter, settingsAfter, resourcesAfter⟩ := loadedAfter.configuration
  cases Node.file.inj ((standsBefore.symm.trans configurations).trans standsAfter)
  have sameSettings : after.settings = before.settings := settingsAfter.trans settingsBefore.symm
  refine .inr fun path differs => ⟨path, ?_⟩
  have found := scanned_of_differs loadedBefore loadedAfter differs
  rw [sameSettings] at found
  have admits : before.settings.Admits path := by
    rcases found with ⟨scanned, _, here⟩ | ⟨scanned, _, here⟩
    · exact Tree.admits_of_isScanned (describes.portable path (.inl (by simp [here]))) scanned here
    · exact Tree.admits_of_isScanned (describes.portable path (.inr (by simp [here]))) scanned here
  by_cases member : path ∈ event.named
  · have nonempty : path ≠ [] := fun none_ => describes.nonempty (none_ ▸ member)
    have visible := before.mem_visible describes member
      (watched.letsThrough admits nonempty (.inl rfl))
    have uncontrolled : ¬before.settings.IsControl path := fun control => by
      have asks := quiet path visible
      rw [FullLoad.asksForAll, before.isControlPath_of_isControl control, Bool.or_true] at asks
      cases asks
    exact ⟨visible, .inr ⟨rfl,
      before.hasRecordExtension_iff.mpr ((watched.extensions path admits).resolve_left uncontrolled)⟩⟩
  · -- a record that is not named stands unchanged, and so does what it depends on
    exfalso
    have same : beforeTree.node path = afterTree.node path := by
      by_contra other
      obtain ⟨named, here, rfl | below⟩ := describes.outside path other
      · exact member here
      · exact other (describes.above watched loadedAfter quiet admits differs here below path below)
    obtain ⟨document, here⟩ : ∃ document, beforeTree.node path = .file document := by
      rcases found with ⟨-, document, here⟩ | ⟨-, document, here⟩
      · exact ⟨document, here⟩
      · exact ⟨document, same.trans here⟩
    have scans : beforeTree.isScanned before.settings path =
        afterTree.isScanned before.settings path := by
      refine (Tree.isScanned_congr describes.rootedBefore describes.rootedAfter
        (fun folder below => by_contra fun fence => seen ⟨wholesale, quiet, path, member, same,
          differs, .inl ⟨folder, below, fence⟩⟩) (by simp [here]) (by simp [← same, here]) _).symm
    have scanned : beforeTree.isScanned before.settings path = true := by
      rcases found with ⟨scanned, -⟩ | ⟨scanned, -⟩
      · exact scanned
      · exact scans.trans scanned
    have resources : at? after.resources = at? before.resources := by
      funext resource
      by_contra other
      have ne : resource ≠ configurationPath := by
        rintro rfl
        refine other ?_
        rw [resourcesAfter, resourcesBefore, if_pos (.inl rfl), if_pos (.inl rfl), configurations]
      have structural : isStructuralResource before.settings
          (reading.isConfiguredSource configuration) resource = true := by
        by_contra unstructured
        refine other ?_
        rw [resourcesAfter, resourcesBefore, sameSettings, if_neg (not_or.mpr ⟨ne, unstructured⟩),
          if_neg (not_or.mpr ⟨ne, unstructured⟩)]
      have through : ∀ named ∈ event.named, resource = named ∨ IsBelow named resource →
          before.settings.LetsThrough named := fun named here at_ =>
        by_contra fun ignored => seen ⟨wholesale, quiet, path, member, same, differs,
          .inr ⟨resource, ne, fun equal => other equal.symm, named, here, at_, ignored⟩⟩
      refine other ?_
      rcases describes.sameResources watched quiet configurations (by simp [standsBefore]) same
        here scanned (scans ▸ scanned) (isStructuralResource_mono structural) through with
        equal | ⟨unread, absent⟩
      · rw [resourcesAfter, resourcesBefore, sameSettings, equal]
      · rw [unread, resourcesAfter, absent]
        exact ite_self _
    exact differs (by rw [loadedBefore.records, loadedAfter.records, sameSettings, resources, same,
      scans])

/-- What changes unseen is not reported. -/
theorem Describes.not_dropsNothing (describes : Describes event beforeTree afterTree)
    (changes : ChangesUnseen before after event beforeTree afterTree)
    (loaded : reading.load beforeTree = some before)
    (loadedAfter : reading.load afterTree = some after) :
    ¬DropsNothing reading beforeTree afterTree event := by
  intro drops
  obtain ⟨narrow, quiet, path, unnamed, same, differs, cause⟩ := changes
  have concerns : Concerns event before after := by
    rcases cause with ⟨folder, below, fence⟩ | ⟨resource, -, other, named, member, at_, -⟩
    · obtain ⟨named, member, rfl | above⟩ := describes.outside _ fence
      · exact .inr ⟨folder, path, member, below, differs⟩
      · exact .inl ⟨path, .inl differs,
          .inr ⟨named, member, .inr (above.of_configurationOf below)⟩⟩
    · exact .inl ⟨resource, .inr other, .inr ⟨named, member, at_⟩⟩
  rcases covers_iff_accounts.mp (drops.1 before after loaded loadedAfter concerns) with
    wholesale | accounts
  · exact Bool.noConfusion (narrow.symm.trans wholesale)
  · obtain ⟨named, visible, asks | ⟨rfl, -⟩⟩ := accounts path differs
    · exact Bool.noConfusion ((quiet named visible).symm.trans asks)
    · exact unnamed (List.mem_filter.mp visible).1

end Mdbase.Watch
