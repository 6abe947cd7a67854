import Mdbase.Library.Fallible
import Mdbase.Watch.FullLoad

/-!
# Opening a collection from the files it holds

Opening reads the configuration, checks the folders that the collection claims for itself and
stages its types and contracts: the definitions below a folder with the schemas that they refer
to, wherever these are. A stamp notes the configuration and all files below the two folders. So
files with the same stamp open to the same collection if nothing that a definition refers to
beyond the folders has changed.
-/

namespace Mdbase.Provider

open Library Links Watch

/-- `std::io::ErrorKind`, as far as opening tells the kinds apart. -/
inductive ErrorKind where
  | notFound
  | notADirectory
  | other
  deriving DecidableEq

/-- What a collection root answers about its files at one instant. A folder that can be listed
has each file below it once. -/
structure Files (Bytes : Type) where
  read : Text → Except ErrorKind Bytes
  openDir : Text → Except ErrorKind Unit
  filesRecursive : Text → Except ErrorKind (List Text)
  isFile : Text → Prop
  nodup {folder : Text} {paths : List Text} : filesRecursive folder = .ok paths → paths.Nodup
  mem_iff {folder : Text} {paths : List Text} {path : Text} : filesRecursive folder = .ok paths →
    (path ∈ paths ↔ isFile path ∧ pathStartsWith folder path = true)

variable {Bytes Config Types Contracts Error : Type}

namespace Files

/-- Is there a directory, as a reference with `..` passes through it? -/
def hasDirectory (files : Files Bytes) (path : Text) : Except ErrorKind Bool :=
  match files.openDir path with
  | .ok () => .ok true
  | .error .notFound | .error .notADirectory => .ok false
  | .error .other => .error .other

/-- A file that may be missing. -/
def readIfPresent (files : Files Bytes) (path : Text) : Except ErrorKind (Option Bytes) :=
  match files.read path with
  | .ok bytes => .ok (some bytes)
  | .error .notFound => .ok none
  | .error kind => .error kind

/-- A folder of the collection is a directory or missing. -/
def checkFolder (files : Files Bytes) (folder : Text) : Except ErrorKind Unit :=
  match files.openDir folder with
  | .ok () | .error .notFound => .ok ()
  | .error kind => .error kind

end Files

/-- `SchemaDependencies`. A path is the list of its components. -/
structure SchemaDependencies where
  files : List (List Text)
  directories : List (List Text)

/-- The elements of a `BTreeSet` of paths, in its order. -/
def orderedPaths (paths : List (List Text)) : List (List Text) :=
  (paths.insertionSort (· ≤ ·)).dedup

/-- `SchemaDependencies::extend`. -/
def SchemaDependencies.extend (first second : SchemaDependencies) : SchemaDependencies where
  files := orderedPaths (first.files ++ second.files)
  directories := orderedPaths (first.directories ++ second.directories)

def joinPath (path : List Text) : Text := ['/'].intercalate path

/-- `is_forbidden_reference`. -/
def isForbiddenReference (reference : Text) : Bool :=
  let scheme := reference.takeWhile (· ≠ ':')
  (reference.contains ':' &&
    match scheme with
    | [] => false
    | first :: rest =>
      first.isAlpha && rest.all fun character =>
        character.isAlphanum || character ∈ ['+', '-', '.']) ||
    startsWith ['/'] reference || startsWith ['/', '/'] reference

/-- The loop of `local_schema_path`. A `..` that leaves the collection is no reference. -/
def normalizeReference (normalized : List Text) (directories : List (List Text)) :
    List Text → Option SchemaDependencies
  | [] => some ⟨[normalized], orderedPaths directories⟩
  | component :: rest =>
    if component = ['.'] then normalizeReference normalized directories rest
    else if component = ['.', '.'] then
      if normalized = [] then none
      else normalizeReference normalized.dropLast (directories ++ [normalized]) rest
    else normalizeReference (normalized ++ [component]) directories rest

/-- `local_schema_path`. -/
def localSchemaPath (source reference : Text) : Option SchemaDependencies :=
  if isForbiddenReference reference then none
  else
    let target := reference.takeWhile (· ≠ '#')
    if target = [] then none
    else normalizeReference [] [] ((pathComponents source).dropLast ++ pathComponents target)

/-- What a collection is loaded with: the parsers, and the folders of a configuration. -/
structure Loader (Bytes Config Types Contracts Error : Type) where
  /-- The texts of the `ref` fields of a definition's schema wrappers that have no value. -/
  schemaReferences : Bytes → List Text
  /-- `parse_config_document`, with the normalized folders. -/
  parseConfig : Bytes → Except Error Config
  typesFolder : Config → Text
  contractsFolder : Config → Text
  migrationsFolder : Config → Text
  cacheFolder : Config → Text
  /-- `load_types_with_warnings`, inheritance and compilation. -/
  loadTypes : Config → List (Text × Bytes) → List Text → Except Error Types
  /-- `DataContractRegistry::load`. -/
  loadContracts : Config → Types → List (Text × Bytes) → List Text → Except Error Contracts
  configError : ErrorKind → Error
  folderError : ErrorKind → Error
  typesError : ErrorKind → Error
  contractsError : ErrorKind → Error

namespace Loader

variable (loader : Loader Bytes Config Types Contracts Error)

/-- `schema_dependencies`. -/
def schemaDependencies (source : Text) (bytes : Bytes) : SchemaDependencies :=
  ((loader.schemaReferences bytes).filterMap (localSchemaPath source)).foldl
    SchemaDependencies.extend ⟨[], []⟩

/-- The definitions that `stage` reads first. -/
def readDefinitions (files : Files Bytes) (folder : Text) (include_ : Text → Bool) :
    Except ErrorKind (List (Text × Bytes)) := do
  let paths ← files.filesRecursive folder
  (paths.filter include_).mapM fun path => return (path, ← files.read path)

/-- The references of all definitions. -/
def allDependencies (definitions : List (Text × Bytes)) : SchemaDependencies :=
  definitions.foldl (fun dependencies definition =>
    dependencies.extend (loader.schemaDependencies definition.1 definition.2)) ⟨[], []⟩

/-- `stage`: the files and the directories of the workspace. -/
def stage (files : Files Bytes) (folder : Text) (include_ : Text → Bool) :
    Except ErrorKind (List (Text × Bytes) × List Text) := do
  let definitions ← readDefinitions files folder include_
  let dependencies := loader.allDependencies definitions
  let directories ← dependencies.directories.mapM fun path =>
    return (joinPath path, ← files.hasDirectory (joinPath path))
  let missing := dependencies.files.filter fun path => joinPath path ∉ definitions.map Prod.fst
  let found ← missing.mapM fun path =>
    return (← files.readIfPresent (joinPath path)).map fun bytes => (joinPath path, bytes)
  return (definitions ++ found.reduceOption, (directories.filter Prod.snd).map Prod.fst)

/-- `Collection`, as far as it is read from the definitions. -/
structure Collection (Config Types Contracts : Type) where
  config : Config
  types : Types
  contracts : Contracts
  deriving DecidableEq

/-- The definitions of types: not the migrations. -/
def isTypeFile (config : Config) (path : Text) : Bool :=
  !pathStartsWith (loader.migrationsFolder config) path &&
    pathExtension path ∈ [some "md".toList, some "yaml".toList, some "yml".toList]

def isContractFile (path : Text) : Bool := pathExtension path = some "md".toList

/-- The folders that a collection claims for itself. -/
def ownFolders (config : Config) : List Text :=
  [loader.typesFolder config, loader.contractsFolder config, loader.migrationsFolder config,
    loader.cacheFolder config]

/-- `load_config_for_open_held`. -/
def loadConfig (files : Files Bytes) : Except Error Config := do
  let document ← (files.read configurationPath).mapError loader.configError
  loader.parseConfig document

/-- What `open_held` loads under a configuration. -/
def loadDefinitions (files : Files Bytes) (config : Config) :
    Except Error (Collection Config Types Contracts) := do
  let _ ← (loader.ownFolders config).mapM fun folder =>
    (files.checkFolder folder).mapError loader.folderError
  let (typeFiles, typeDirectories) ←
    (loader.stage files (loader.typesFolder config) (loader.isTypeFile config)).mapError
      loader.typesError
  let types ← loader.loadTypes config typeFiles typeDirectories
  let (contractFiles, contractDirectories) ←
    (loader.stage files (loader.contractsFolder config) isContractFile).mapError
      loader.contractsError
  let contracts ← loader.loadContracts config types contractFiles contractDirectories
  return ⟨config, types, contracts⟩

/-- `open_held`, without a pending transaction. -/
def openHeld (files : Files Bytes) : Except Error (Collection Config Types Contracts) :=
  loader.loadConfig files >>= loader.loadDefinitions files

end Loader

/-- `crate::v03::revision` and the `DefaultHasher`, which do not collide. -/
structure Hashing (Bytes Revision Digest : Type) where
  revision : Bytes → Revision
  digest : List (Text × Option Bytes) → Digest
  revision_injective : Function.Injective revision
  digest_injective : Function.Injective digest

/-- `CollectionStamp`. -/
structure CollectionStamp (Revision Digest : Type) where
  configRevision : Option Revision
  typesMetadata : Digest
  deriving DecidableEq

variable {Revision Digest : Type}

/-- What is hashed of a folder: its paths, and the files that can be read. -/
def Files.stamped (files : Files Bytes) (folder : Text) : List (Text × Option Bytes) :=
  match files.filesRecursive folder with
  | .ok paths => paths.map fun path => (path, (files.read path).toOption)
  | .error _ => []

namespace Files

variable {files before after : Files Bytes} {folder first second : Text}

theorem mem_stamped {entry : Text × Option Bytes} : entry ∈ files.stamped folder ↔
    ∃ paths, files.filesRecursive folder = .ok paths ∧ entry.1 ∈ paths ∧
      entry.2 = (files.read entry.1).toOption := by
  unfold stamped
  cases files.filesRecursive folder with
  | error kind => simp
  | ok paths =>
    rw [List.mem_map]
    constructor
    · rintro ⟨path, member, rfl⟩
      exact ⟨paths, rfl, member, rfl⟩
    · rintro ⟨others, listed, member, contents⟩
      cases listed
      exact ⟨entry.1, member, Prod.ext rfl contents.symm⟩

theorem map_fst_stamped {paths : List Text} (listed : files.filesRecursive folder = .ok paths) :
    (files.stamped folder).map Prod.fst = paths := by
  rw [stamped, listed, List.map_map]
  exact List.map_id _

theorem exists_of_isOk
    (same : (after.filesRecursive folder).isOk = (before.filesRecursive folder).isOk)
    {paths : List Text} (listed : after.filesRecursive folder = .ok paths) :
    ∃ others, before.filesRecursive folder = .ok others := by
  rw [listed] at same
  cases reached : before.filesRecursive folder with
  | error kind =>
    rw [reached] at same
    cases same
  | ok others => exact ⟨others, rfl⟩

theorem eq_nil_of_moved
    (same : (after.filesRecursive first).isOk = (before.filesRecursive first).isOk)
    {extra rest : List (Text × Option Bytes)}
    (gained : after.stamped first = before.stamped first ++ extra)
    (lost : before.stamped second = extra ++ rest) : extra = [] := by
  refine List.eq_nil_iff_forall_not_mem.mpr fun entry member => ?_
  obtain ⟨others, listedSecond, there, -⟩ := mem_stamped.mp
    (lost ▸ List.mem_append_left rest member : entry ∈ before.stamped second)
  obtain ⟨paths, listedAfter, here, -⟩ := mem_stamped.mp
    (gained ▸ List.mem_append_right _ member : entry ∈ after.stamped first)
  obtain ⟨known, listedBefore⟩ := exists_of_isOk same listedAfter
  have already : entry.1 ∈ known :=
    (before.mem_iff listedBefore).mpr
      ⟨((before.mem_iff listedSecond).mp there).1, ((after.mem_iff listedAfter).mp here).2⟩
  have once := after.nodup listedAfter
  rw [← map_fst_stamped listedAfter, gained, List.map_append, map_fst_stamped listedBefore] at once
  exact (List.nodup_append.mp once).2.2 _ already _ (List.mem_map_of_mem member) rfl

theorem stamped_eq_of_append
    (sameFirst : (after.filesRecursive first).isOk = (before.filesRecursive first).isOk)
    (same : before.stamped first ++ before.stamped second =
      after.stamped first ++ after.stamped second) :
    before.stamped first = after.stamped first ∧ before.stamped second = after.stamped second := by
  rcases List.append_eq_append_iff.mp same with ⟨extra, gained, lost⟩ | ⟨extra, gained, lost⟩
  · have nothing := eq_nil_of_moved sameFirst gained lost
    rw [nothing, List.append_nil] at gained
    rw [nothing, List.nil_append] at lost
    exact ⟨gained.symm, lost⟩
  · have nothing := eq_nil_of_moved sameFirst.symm gained lost
    rw [nothing, List.append_nil] at gained
    rw [nothing, List.nil_append] at lost
    exact ⟨gained, lost.symm⟩

end Files

/-- `CollectionStamp::load`. -/
def CollectionStamp.load (hashing : Hashing Bytes Revision Digest) (files : Files Bytes)
    (typesFolder contractsFolder : Text) : CollectionStamp Revision Digest where
  configRevision := (files.read configurationPath).toOption.map hashing.revision
  typesMetadata := hashing.digest
    ([typesFolder, contractsFolder].flatMap fun folder => files.stamped folder)

/-- The stamp of a collection. -/
def Loader.stampOf (loader : Loader Bytes Config Types Contracts Error)
    (hashing : Hashing Bytes Revision Digest) (config : Config) (files : Files Bytes) :
    CollectionStamp Revision Digest :=
  .load hashing files (loader.typesFolder config) (loader.contractsFolder config)

/-- What some definitions refer to is the same, as far as it is not noted. -/
structure SameReferences (before after : Files Bytes) (noted : List (Text × Option Bytes))
    (dependencies : SchemaDependencies) : Prop where
  directories : ∀ path ∈ dependencies.directories,
    after.hasDirectory (joinPath path) = before.hasDirectory (joinPath path)
  files : ∀ path ∈ dependencies.files, (∀ bytes, (joinPath path, some bytes) ∉ noted) →
    after.readIfPresent (joinPath path) = before.readIfPresent (joinPath path)

namespace Loader

variable (loader : Loader Bytes Config Types Contracts Error)

/-- The references of the definitions below a folder. -/
def references (files : Files Bytes) (folder : Text) (include_ : Text → Bool) :
    SchemaDependencies :=
  match readDefinitions files folder include_ with
  | .ok definitions => loader.allDependencies definitions
  | .error _ => ⟨[], []⟩

/-- All that a stamp notes of the files. -/
def noted (config : Config) (files : Files Bytes) : List (Text × Option Bytes) :=
  files.stamped (loader.typesFolder config) ++ files.stamped (loader.contractsFolder config)

/-- What a collection is loaded from without being noted by its stamp: the folders, whether they
can be listed, and what the definitions refer to elsewhere. -/
structure SameOutside (config : Config) (before after : Files Bytes) : Prop where
  own : ∀ folder ∈ loader.ownFolders config, after.checkFolder folder = before.checkFolder folder
  listed : ∀ folder ∈ [loader.typesFolder config, loader.contractsFolder config],
    (after.filesRecursive folder).isOk = (before.filesRecursive folder).isOk
  types : SameReferences before after (loader.noted config before)
    (loader.references before (loader.typesFolder config) (loader.isTypeFile config))
  contracts : SameReferences before after (loader.noted config before)
    (loader.references before (loader.contractsFolder config) isContractFile)

theorem SameOutside.refl (config : Config) (files : Files Bytes) :
    loader.SameOutside config files files where
  own := fun _ _ => rfl
  listed := fun _ _ => rfl
  types := ⟨fun _ _ => rfl, fun _ _ _ => rfl⟩
  contracts := ⟨fun _ _ => rfl, fun _ _ _ => rfl⟩

variable {loader} {hashing : Hashing Bytes Revision Digest} {config : Config}
  {before after : Files Bytes} {folder : Text}

theorem filesRecursive_follows
    (listed : (after.filesRecursive folder).isOk = (before.filesRecursive folder).isOk)
    (same : before.stamped folder = after.stamped folder) :
    Library.Follows (before.filesRecursive folder) (after.filesRecursive folder) := by
  intro paths before_
  obtain ⟨others, after_⟩ := Files.exists_of_isOk listed.symm before_
  rw [← Files.map_fst_stamped before_, same, Files.map_fst_stamped after_] at *
  exact after_

variable {include_ : Text → Bool}

theorem readDefinitions_follows
    (listed : (after.filesRecursive folder).isOk = (before.filesRecursive folder).isOk)
    (same : before.stamped folder = after.stamped folder) :
    Library.Follows (readDefinitions before folder include_)
      (readDefinitions after folder include_) := by
  refine .bind (filesRecursive_follows listed same) fun paths here => .mapM fun path member => ?_
  have noted : (path, (before.read path).toOption) ∈ after.stamped folder :=
    same ▸ Files.mem_stamped.mpr ⟨paths, here, (List.mem_filter.mp member).1, rfl⟩
  obtain ⟨-, -, -, read⟩ := Files.mem_stamped.mp noted
  exact .bind (.of_toOption read) fun bytes _ => .refl _

theorem stage_follows {noted : List (Text × Option Bytes)}
    (listed : (after.filesRecursive folder).isOk = (before.filesRecursive folder).isOk)
    (same : before.stamped folder = after.stamped folder)
    (read : ∀ path bytes, (path, some bytes) ∈ noted →
      after.readIfPresent path = before.readIfPresent path)
    (references : SameReferences before after noted (loader.references before folder include_)) :
    Library.Follows (loader.stage before folder include_) (loader.stage after folder include_) := by
  refine .bind (readDefinitions_follows listed same) fun definitions here => ?_
  rw [Loader.references, here] at references
  refine .bind (.mapM fun path member => ?_) fun directories _ => ?_
  · exact .bind (.of_eq (references.directories path member).symm) fun _ _ => .refl _
  refine .bind (.mapM fun path member => ?_) fun found _ => .refl _
  have file := (List.mem_filter.mp member).1
  refine .bind (.of_eq ?_) fun _ _ => .refl _
  by_cases stamped : ∃ bytes, (joinPath path, some bytes) ∈ noted
  · obtain ⟨bytes, here⟩ := stamped
    exact (read _ bytes here).symm
  · exact (references.files path file (not_exists.mp stamped)).symm

theorem readIfPresent_of_noted {folder path : Text} {bytes : Bytes}
    (same : before.stamped folder = after.stamped folder)
    (here : (path, some bytes) ∈ before.stamped folder) :
    after.readIfPresent path = before.readIfPresent path := by
  obtain ⟨-, -, -, old⟩ := Files.mem_stamped.mp here
  obtain ⟨-, -, -, new⟩ := Files.mem_stamped.mp (same ▸ here)
  have read {files : Files Bytes} (some_ : some bytes = (files.read path).toOption) :
      files.readIfPresent path = .ok (some bytes) := by
    unfold Files.readIfPresent
    cases reached : files.read path with
    | error kind =>
      rw [reached] at some_
      cases some_
    | ok value =>
      rw [reached] at some_
      cases some_
      rfl
  rw [read new, read old]

theorem stamped_eq (outside : loader.SameOutside config before after)
    (stamp : loader.stampOf hashing config before = loader.stampOf hashing config after) :
    before.stamped (loader.typesFolder config) = after.stamped (loader.typesFolder config) ∧
      before.stamped (loader.contractsFolder config) =
        after.stamped (loader.contractsFolder config) := by
  refine Files.stamped_eq_of_append (outside.listed _ List.mem_cons_self) ?_
  have digests := hashing.digest_injective (congrArg CollectionStamp.typesMetadata stamp)
  simpa only [List.flatMap_cons, List.flatMap_nil, List.append_nil] using digests

theorem loadConfig_follows
    (stamp : loader.stampOf hashing config before = loader.stampOf hashing config after) :
    Library.Follows (loader.loadConfig before) (loader.loadConfig after) := by
  have revisions := congrArg CollectionStamp.configRevision stamp
  have read := Option.map_injective hashing.revision_injective revisions
  exact .bind (.mapError (.of_toOption read)) fun _ _ => .refl _

theorem loadDefinitions_follows (outside : loader.SameOutside config before after)
    (stamp : loader.stampOf hashing config before = loader.stampOf hashing config after) :
    Library.Follows (loader.loadDefinitions before config)
      (loader.loadDefinitions after config) := by
  obtain ⟨types, contracts⟩ := stamped_eq outside stamp
  have noted (path : Text) (bytes : Bytes)
      (here : (path, some bytes) ∈ loader.noted config before) :
      after.readIfPresent path = before.readIfPresent path := by
    rcases List.mem_append.mp here with inTypes | inContracts
    · exact readIfPresent_of_noted types inTypes
    · exact readIfPresent_of_noted contracts inContracts
  refine .bind (.mapM fun folder member => .mapError (.of_eq (outside.own folder member).symm))
    fun _ _ => ?_
  refine .bind (.mapError (stage_follows (outside.listed _ (by simp)) types noted outside.types))
    fun _ _ => .bind (.refl _) fun _ _ => ?_
  refine .bind (.mapError (stage_follows (outside.listed _ (by simp)) contracts noted
    outside.contracts)) fun _ _ => .refl _

variable {collection : Collection Config Types Contracts}

theorem config_of_loadDefinitions {files : Files Bytes}
    (loaded : loader.loadDefinitions files config = .ok collection) :
    collection.config = config := by
  obtain ⟨_, -, loaded⟩ := bind_eq_ok.mp loaded
  obtain ⟨_, -, loaded⟩ := bind_eq_ok.mp loaded
  obtain ⟨_, -, loaded⟩ := bind_eq_ok.mp loaded
  obtain ⟨_, -, loaded⟩ := bind_eq_ok.mp loaded
  obtain ⟨_, -, loaded⟩ := bind_eq_ok.mp loaded
  cases loaded
  rfl

/-- Files with the stamp of a collection open to it, if nothing else that it was loaded from has
changed. -/
theorem openHeld_of_same (opened : loader.openHeld before = .ok collection)
    (outside : loader.SameOutside collection.config before after)
    (stamp : loader.stampOf hashing collection.config before =
      loader.stampOf hashing collection.config after) :
    loader.openHeld after = .ok collection := by
  obtain ⟨config, configured, loaded⟩ := bind_eq_ok.mp opened
  have same := config_of_loadDefinitions loaded
  subst same
  rw [openHeld, loadConfig_follows stamp _ configured]
  exact loadDefinitions_follows outside stamp _ loaded

end Loader

end Mdbase.Provider
