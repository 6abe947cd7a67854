import Mdbase.Cache.LinkGraph
import Mdbase.Library.Fallible
import Mdbase.Library.Trace

/-!
# Following links

A graph that is built from files stores for a text of a file the target of its first occurrence
that resolves, and lists for a path the files with an occurrence that resolves to it. A link is
followed to the stored target of its text, and else it is resolved without target types by an
index that is built on first use. Both give the same record where the stored occurrence declares
no target types, or types that all of its candidates have.
-/

namespace Mdbase.Links

open Library Cache

/-- A file joins an index, unless its path is no collection path. -/
def LinkResolutionIndex.addFile (library : ResolutionLibrary) (keys : ResolutionKeys)
    (index : LinkResolutionIndex) (file : ResolvedFileData) : LinkResolutionIndex :=
  match recordResolutionKeys library keys file.path file.frontmatter with
  | none => index
  | some rows =>
    rows.foldl (fun index row => index.insertKey row.1 row.2 file.path)
      { index with knownPaths := index.knownPaths ++ [file.path] }

/-- `LinkResolutionIndex::untyped`. -/
def LinkResolutionIndex.untyped (library : ResolutionLibrary) (files : List ResolvedFileData)
    (keys : ResolutionKeys) : LinkResolutionIndex :=
  files.foldl (addFile library keys) emptyIndex

/-- The types of a known file join an index. -/
def LinkResolutionIndex.addTypes (determine : DetermineTypes) (index : LinkResolutionIndex)
    (file : ResolvedFileData) : LinkResolutionIndex :=
  if file.path ∈ index.knownPaths then
    { index with
      typesByPath := fun path =>
        if path = file.path then some (determine file.frontmatter file.path)
        else index.typesByPath path }
  else index

/-- Two indexes have the same paths, known and by keys. -/
def LinkResolutionIndex.SamePaths (left right : LinkResolutionIndex) : Prop :=
  left.knownPaths = right.knownPaths ∧ left.pathsByKey = right.pathsByKey

theorem LinkResolutionIndex.samePaths_addTypes (determine : DetermineTypes)
    (index : LinkResolutionIndex) (file : ResolvedFileData) :
    (index.addTypes determine file).SamePaths index := by
  unfold addTypes
  split_ifs <;> exact ⟨rfl, rfl⟩

theorem LinkResolutionIndex.samePaths_foldl_addTypes (determine : DetermineTypes)
    (files : List ResolvedFileData) (index : LinkResolutionIndex) :
    (files.foldl (addTypes determine) index).SamePaths index := by
  induction files generalizing index with
  | nil => exact ⟨rfl, rfl⟩
  | cons file files ih =>
    obtain ⟨known, keyed⟩ := ih (index.addTypes determine file)
    obtain ⟨knownStep, keyedStep⟩ := samePaths_addTypes determine index file
    exact ⟨known.trans knownStep, keyed.trans keyedStep⟩

variable {library : ResolutionLibrary} {index left right : LinkResolutionIndex}
  {target source : String} {targetTypes : List String}

theorem LinkResolutionIndex.SamePaths.resolve_eq (same : left.SamePaths right)
    (target source : String) :
    left.resolve library target source [] = right.resolve library target source [] := by
  refine resolve_of_sameCandidates fun lookup _ => ?_
  cases lookup with
  | simple key =>
    intro kind
    rw [same.2]
    rfl
  | path candidates =>
    intro candidate _
    rw [same.1]
    exact ⟨Iff.rfl, fun _ => rfl⟩

/-- The paths of an index that a lookup reads. -/
def LinkResolutionIndex.readPaths (index : LinkResolutionIndex) : ResolutionLookup → List String
  | .simple key =>
    [ResolutionKeyKind.id, .basename, .title].flatMap fun kind =>
      (index.pathsByKey kind key).getD []
  | .path candidates => candidates.filter (· ∈ index.knownPaths)

/-- Every record that a link may name has one of the target types, if there are any. -/
def LinkResolutionIndex.ExcludesNone (library : ResolutionLibrary) (index : LinkResolutionIndex)
    (target source : String) (targetTypes : List String) : Prop :=
  targetTypes = [] ∨ ∀ lookup, resolutionLookup library target source = some lookup →
    ∀ path ∈ index.readPaths lookup, index.hasType targetTypes path

theorem LinkResolutionIndex.eligiblePaths_of_hasType {paths : List String}
    (typed : ∀ path ∈ paths, index.hasType targetTypes path) :
    index.eligiblePaths paths targetTypes = paths := by
  unfold eligiblePaths
  split_ifs
  · rfl
  · exact List.filter_eq_self.mpr typed

theorem LinkResolutionIndex.resolveSimple_of_eligible {key : String}
    {kinds : List ResolutionKeyKind} {otherTypes : List String}
    (eligible : ∀ kind ∈ kinds, index.eligibleByKey targetTypes {} key kind =
      index.eligibleByKey otherTypes {} key kind) :
    index.resolveSimple library source targetTypes {} key kinds =
      index.resolveSimple library source otherTypes {} key kinds := by
  induction kinds with
  | nil => rfl
  | cons kind kinds ih =>
    rw [resolveSimple, resolveSimple, eligible kind List.mem_cons_self,
      ih fun other member => eligible other (List.mem_cons_of_mem _ member)]

theorem LinkResolutionIndex.ExcludesNone.resolve_eq
    (excludesNone : index.ExcludesNone library target source targetTypes) :
    index.resolve library target source targetTypes = index.resolve library target source [] := by
  rcases excludesNone with rfl | typed
  · rfl
  unfold resolve resolveWithOptions
  cases found : resolutionLookup library target source with
  | none => rfl
  | some lookup =>
    have paths := typed lookup found
    cases lookup with
    | simple key =>
      refine resolveSimple_of_eligible fun kind member => ?_
      have same : index.eligiblePaths ((index.pathsByKey kind key).getD []) targetTypes =
          (index.pathsByKey kind key).getD [] :=
        eligiblePaths_of_hasType fun path listed =>
          paths path (List.mem_flatMap.mpr ⟨kind, member, listed⟩)
      rw [eligibleByKey, eligibleByKey, same]
      rfl
    | path candidates =>
      dsimp only
      cases first : candidates.find? fun candidate => candidate ∈ index.knownPaths with
      | none => rfl
      | some candidate =>
        have known := List.find?_some first
        have read : candidate ∈ index.readPaths (.path candidates) :=
          List.mem_filter.mpr ⟨List.mem_of_find?_eq_some first, known⟩
        have same : index.eligiblePaths [candidate] targetTypes = [candidate] := by
          refine eligiblePaths_of_hasType fun path member => ?_
          rw [List.mem_singleton.mp member]
          exact paths candidate read
        rw [Option.bind_some, Option.bind_some, same]
        rfl

end Mdbase.Links

namespace Mdbase.Cache

open Library Links
open Mdbase.Runtime (Value)
open Mdbase.Query (CatalogError)

/-- `build_link_resolution_index`, as far as resolution without options reads it. -/
def IndexedCollection.buildLinkResolutionIndex (collection : IndexedCollection)
    (determine : DetermineTypes) (files : List ResolvedFileData) : LinkResolutionIndex :=
  files.foldl (LinkResolutionIndex.addTypes determine)
    (.untyped collection.library.toResolutionLibrary files collection.resolutionKeys)

/-- `LinkedFiles`. -/
structure LinkedFiles where
  files : List ResolvedFileData
  stored : String → String → Option String
  keys : ResolutionKeys
  index : Option LinkResolutionIndex
  policyComplete : Bool

/-- `LinkedFiles::new`. -/
def LinkedFiles.new (files : List ResolvedFileData) (stored : String → String → Option String)
    (keys : ResolutionKeys) (index : Option LinkResolutionIndex) : LinkedFiles :=
  ⟨files, stored, keys, index, index.isSome⟩

/-- The file at a path: the last one, as `by_path` has it. -/
def fileAt (files : List ResolvedFileData) (path : String) : Option ResolvedFileData :=
  files.reverse.find? (·.path = path)

/-- `prepare_policy_index`. -/
def LinkedFiles.preparePolicyIndex (collection : IndexedCollection) (determine : DetermineTypes)
    (linked : LinkedFiles) : LinkedFiles :=
  if linked.policyComplete then linked
  else
    { linked with
      index := some (collection.buildLinkResolutionIndex determine linked.files)
      policyComplete := true }

/-- The text that a link is looked up by: its one target, or else the link itself. -/
def linkText (library : IndexLibrary) (link : String) : String :=
  match library.extractFrontmatterLinks (.string link) with
  | [target] => target
  | _ => link

/-- The index, which is built on first use. -/
def LinkedFiles.initialized (library : ResolutionLibrary) (linked : LinkedFiles) :
    LinkResolutionIndex :=
  linked.index.getD (.untyped library linked.files linked.keys)

/-- `LinkedFiles::resolve`. -/
def LinkedFiles.resolve (library : IndexLibrary) (linked : LinkedFiles) (link : String)
    (sourcePath : Option String) : Except CatalogError (Option ResolvedFileData) × LinkedFiles :=
  let target := linkText library link
  match sourcePath.bind fun source => linked.stored source target with
  | some path => (.ok (fileAt linked.files path), linked)
  | none =>
    let index := linked.initialized library.toResolutionLibrary
    ((index.resolve library.toResolutionLibrary target (sourcePath.getD "") []).map
        (·.bind (fileAt linked.files)),
      { linked with index := some index })

/-- What readers do with the linked files. -/
inductive LinkedCall where
  | resolve (link : String) (sourcePath : Option String)
  | preparePolicyIndex

/-- The linked files answer a call. -/
def LinkedFiles.answer (collection : IndexedCollection) (determine : DetermineTypes)
    (linked : LinkedFiles) :
    LinkedCall → Option (Except CatalogError (Option ResolvedFileData)) × LinkedFiles
  | .resolve link sourcePath =>
    let (answer, next) := linked.resolve collection.library link sourcePath
    (some answer, next)
  | .preparePolicyIndex => (none, linked.preparePolicyIndex collection determine)

variable {collection : IndexedCollection} {determine : DetermineTypes}
  {index : LinkResolutionIndex} {files : List ResolvedFileData} {graph : LinkGraph}

/-- An occurrence of a text in a file is its first that resolves. -/
def IndexedCollection.FirstResolves (collection : IndexedCollection) (determine : DetermineTypes)
    (index : LinkResolutionIndex) (file : ResolvedFileData) (text : String) (types : List String)
    (target : String) : Prop :=
  ∃ before after, collection.fileTargets determine file = before ++ (text, types) :: after ∧
    index.resolve collection.library.toResolutionLibrary text file.path types = .ok (some target) ∧
    ∀ earlier ∈ before, earlier.1 = text →
      index.resolve collection.library.toResolutionLibrary text file.path earlier.2 = .ok none

/-- A text of a file resolves to a path. -/
def IndexedCollection.LinksTo (collection : IndexedCollection) (determine : DetermineTypes)
    (index : LinkResolutionIndex) (file : ResolvedFileData) (text target : String) : Prop :=
  ∃ types, (text, types) ∈ collection.fileTargets determine file ∧
    index.resolve collection.library.toResolutionLibrary text file.path types = .ok (some target)

/-- A file that the graph is built from: its path is a collection path. -/
def ResolvedFileData.Linked (file : ResolvedFileData) : Prop :=
  ∃ canonical, collectionPath file.path = .ok canonical

/-- The answer of a fresh resolution. -/
def IndexedCollection.freshAnswer (collection : IndexedCollection)
    (files : List ResolvedFileData) (link : String) (sourcePath : Option String) :
    Except CatalogError (Option ResolvedFileData) :=
  ((LinkResolutionIndex.untyped collection.library.toResolutionLibrary files
      collection.resolutionKeys).resolve collection.library.toResolutionLibrary
        (linkText collection.library link) (sourcePath.getD "") []).map (·.bind (fileAt files))

instance (file : ResolvedFileData) : Decidable file.Linked :=
  match found : collectionPath file.path with
  | .ok canonical => .isTrue ⟨canonical, found⟩
  | .error _ => .isFalse fun ⟨_, valid⟩ => nomatch found.symm.trans valid

theorem addFiles_filter (files : List ResolvedFileData) (graph : LinkGraph) :
    collection.addFiles determine index files graph =
      collection.addFiles determine index (files.filter (·.Linked)) graph := by
  induction files generalizing graph with
  | nil => rfl
  | cons file files ih =>
    cases path : collectionPath file.path with
    | error error =>
      have skipped : ¬file.Linked := fun ⟨_, valid⟩ => nomatch path.symm.trans valid
      rw [List.filter_cons_of_neg (by simpa using skipped), ← ih, IndexedCollection.addFiles, path]
    | ok canonical =>
      have kept : file.Linked := ⟨canonical, path⟩
      rw [List.filter_cons_of_pos (by simpa using kept), IndexedCollection.addFiles,
        IndexedCollection.addFiles, path]
      dsimp only
      cases LinkGraph.addTargets collection.library.toResolutionLibrary index file.path
        (collection.fileTargets determine file) (graph, []) with
      | error error => rfl
      | ok next => exact ih next.1

theorem findSome?_distinct (distinct : (files.map (·.path)).Nodup)
    (value : ResolvedFileData → Option String) {source target : String} :
    (files.findSome? fun file => if source = file.path then value file else none) = some target ↔
      ∃ file ∈ files, file.path = source ∧ value file = some target := by
  induction files with
  | nil => simp
  | cons first rest ih =>
    rw [List.map_cons, List.nodup_cons] at distinct
    rw [List.findSome?_cons, List.exists_mem_cons_iff]
    by_cases here : source = first.path
    · have alone : ∀ file ∈ rest, source ≠ file.path := fun file member same =>
        distinct.1 (List.mem_map.mpr ⟨file, member, same.symm.trans here⟩)
      have later : ¬∃ file ∈ rest, file.path = source ∧ value file = some target :=
        fun ⟨file, member, same, _⟩ => alone file member same.symm
      rw [if_pos here, or_iff_left later]
      cases found : value first with
      | some other => simp [here]
      | none =>
        rw [List.findSome?_eq_none_iff.mpr fun file member => if_neg (alone file member)]
        simp
    · rw [if_neg here]
      simp [ih distinct.2, Ne.symm here]

/-- The linked files keep their files, links and keys, and an index of the same paths as the
untyped one. -/
structure LinkedFiles.Serves (collection : IndexedCollection) (files : List ResolvedFileData)
    (stored : String → String → Option String) (linked : LinkedFiles) : Prop where
  index : ∀ index, linked.index = some index → index.SamePaths
    (.untyped collection.library.toResolutionLibrary files collection.resolutionKeys)
  files : linked.files = files
  stored : linked.stored = stored
  keys : linked.keys = collection.resolutionKeys

variable {stored : String → String → Option String} {linked : LinkedFiles}

theorem samePaths_buildLinkResolutionIndex (files : List ResolvedFileData) :
    (collection.buildLinkResolutionIndex determine files).SamePaths
      (.untyped collection.library.toResolutionLibrary files collection.resolutionKeys) :=
  LinkResolutionIndex.samePaths_foldl_addTypes determine files _

namespace LinkedFiles.Serves

theorem initialized (serves : linked.Serves collection files stored) :
    (linked.initialized collection.library.toResolutionLibrary).SamePaths
      (.untyped collection.library.toResolutionLibrary files collection.resolutionKeys) := by
  unfold LinkedFiles.initialized
  cases present : linked.index with
  | some index => exact serves.index index present
  | none =>
    rw [serves.files, serves.keys]
    exact ⟨rfl, rfl⟩

theorem answer (serves : linked.Serves collection files stored) (call : LinkedCall) :
    (linked.answer collection determine call).2.Serves collection files stored := by
  cases call with
  | resolve link sourcePath =>
    simp only [LinkedFiles.answer, LinkedFiles.resolve]
    split
    next => exact serves
    refine ⟨?_, serves.files, serves.stored, serves.keys⟩
    rintro index ⟨⟩
    exact serves.initialized
  | preparePolicyIndex =>
    simp only [LinkedFiles.answer, LinkedFiles.preparePolicyIndex]
    split_ifs
    · exact serves
    · refine ⟨?_, serves.files, serves.stored, serves.keys⟩
      rintro index ⟨⟩
      rw [serves.files]
      exact samePaths_buildLinkResolutionIndex files

theorem performed (serves : linked.Serves collection files stored) (calls : List LinkedCall) :
    (Trace.performed (LinkedFiles.answer collection determine) linked calls).Serves collection
      files stored := by
  refine (Trace.of_perform _ linked calls).invariant serves fun exchange _ taken before => ?_
  have next := @answer collection determine files stored _ before exchange.call
  rwa [taken] at next

theorem resolve_stored (serves : linked.Serves collection files stored) {link source path : String}
    (present : stored source (linkText collection.library link) = some path) :
    (linked.resolve collection.library link (some source)).1 = .ok (fileAt files path) := by
  unfold LinkedFiles.resolve
  rw [serves.files, serves.stored]
  dsimp only [Option.bind_some]
  rw [present]

theorem resolve_fresh (serves : linked.Serves collection files stored) {link : String}
    {sourcePath : Option String}
    (absent : ∀ source ∈ sourcePath, stored source (linkText collection.library link) = none) :
    (linked.resolve collection.library link sourcePath).1 =
      collection.freshAnswer files link sourcePath := by
  have nothing : (sourcePath.bind fun source =>
      linked.stored source (linkText collection.library link)) = none := by
    rw [serves.stored]
    exact Option.bind_eq_none_iff.mpr absent
  unfold LinkedFiles.resolve
  dsimp only
  rw [nothing, serves.initialized.resolve_eq, serves.files]
  rfl

end LinkedFiles.Serves

theorem builtTarget_eq_some_iff {file : ResolvedFileData}
    (resolves : ∀ target ∈ collection.fileTargets determine file, ∃ resolved,
      index.resolve collection.library.toResolutionLibrary target.1 file.path target.2 =
        .ok resolved) {text target : String} :
    collection.builtTarget determine index file text = some target ↔
      ∃ types, collection.FirstResolves determine index file text types target := by
  unfold IndexedCollection.builtTarget firstTarget IndexedCollection.FirstResolves
  rw [List.findSome?_eq_some_iff]
  constructor
  · rintro ⟨before, ⟨raw, types⟩, after, split, found, earlier⟩
    split_ifs at found with same
    subst same
    refine ⟨types, before, after, split, targetOf_eq_some_iff.mp found,
      fun other member named => ?_⟩
    obtain ⟨resolved, outcome⟩ := resolves other (split ▸ List.mem_append_left _ member)
    have nothing := earlier other member
    rw [if_pos named, targetOf, outcome] at nothing
    rw [← named, outcome]
    cases resolved with
    | none => rfl
    | some path => cases nothing
  · rintro ⟨types, before, after, split, found, earlier⟩
    refine ⟨before, (text, types), after, split, ?_, fun other member => ?_⟩
    · rw [if_pos rfl]
      exact targetOf_eq_some_iff.mpr found
    · split_ifs with named
      · rw [targetOf, named, earlier other member named]
        rfl
      · rfl

theorem strictlySorted_dedup (paths : List String) :
    ((paths.insertionSort (· ≤ ·)).dedup).Pairwise (· < ·) := by
  have ordered := (paths.pairwise_insertionSort (· ≤ ·)).sublist (List.dedup_sublist _)
  exact (ordered.and (List.nodup_dedup _)).imp fun ⟨le, ne⟩ => lt_of_le_of_ne le ne

/-- The graph of some files stores for a text what its first occurrence that resolves gives, and
lists for a path, in order and once, the files with an occurrence that resolves to it. -/
structure IndexedCollection.Inverts (collection : IndexedCollection) (determine : DetermineTypes)
    (index : LinkResolutionIndex) (files : List ResolvedFileData) (graph : LinkGraph) : Prop where
  stored : ∀ source text target, graph.stored source text = some target ↔
    ∃ file ∈ files, file.path = source ∧ file.Linked ∧
      ∃ types, collection.FirstResolves determine index file text types target
  sorted : ∀ target, (graph.backlinks target).Pairwise (· < ·)
  backlinks : ∀ target source, source ∈ graph.backlinks target ↔
    ∃ file ∈ files, file.path = source ∧ file.Linked ∧
      ∃ text, collection.LinksTo determine index file text target

theorem inverts_buildLinkGraph (distinct : (files.map (·.path)).Nodup)
    (built : collection.buildLinkGraph determine files index = .ok graph) :
    collection.Inverts determine index files graph := by
  obtain ⟨raw, added, rfl⟩ := map_eq_ok.mp built
  rw [addFiles_filter] at added
  have linked : ∀ file ∈ files.filter (·.Linked), file.Linked := fun file member =>
    of_decide_eq_true (List.mem_filter.mp member).2
  obtain ⟨resolves, adds⟩ := addFiles_ok linked added
  have kept : ((files.filter (·.Linked)).map (·.path)).Nodup :=
    distinct.sublist (List.filter_sublist.map _)
  refine ⟨fun source text target => ?_, fun target => strictlySorted_dedup _,
    fun target source => ?_⟩
  · dsimp only
    rw [adds.stored, LinkGraph.empty, Option.none_or, findSome?_distinct kept]
    constructor
    · rintro ⟨file, member, same, found⟩
      obtain ⟨present, isLinked⟩ := List.mem_filter.mp member
      exact ⟨file, present, same, of_decide_eq_true isLinked,
        (builtTarget_eq_some_iff (resolves file member)).mp found⟩
    · rintro ⟨file, present, same, isLinked, first⟩
      have member : file ∈ files.filter (·.Linked) :=
        List.mem_filter.mpr ⟨present, decide_eq_true isLinked⟩
      exact ⟨file, member, same, (builtTarget_eq_some_iff (resolves file member)).mpr first⟩
  · dsimp only
    rw [List.mem_dedup, List.mem_insertionSort, adds.backlinks]
    constructor
    · rintro (nothing | ⟨file, member, rfl, ⟨text, types⟩, occurs, found⟩)
      · cases nothing
      · obtain ⟨present, isLinked⟩ := List.mem_filter.mp member
        exact ⟨file, present, rfl, of_decide_eq_true isLinked, text, types, occurs,
          targetOf_eq_some_iff.mp found⟩
    · rintro ⟨file, present, rfl, isLinked, text, types, occurs, found⟩
      exact .inr ⟨file, List.mem_filter.mpr ⟨present, decide_eq_true isLinked⟩, rfl,
        (text, types), occurs, targetOf_eq_some_iff.mpr found⟩

/-- Linked files follow a stored link to its target and any other link afresh; and a stored link
leads where a fresh one does if its types exclude no candidate. -/
structure IndexedCollection.Follows (collection : IndexedCollection) (determine : DetermineTypes)
    (index : LinkResolutionIndex) (files : List ResolvedFileData) (graph : LinkGraph)
    (linked : LinkedFiles) : Prop where
  stored : ∀ link source target,
    graph.stored source (linkText collection.library link) = some target →
      (linked.resolve collection.library link (some source)).1 = .ok (fileAt files target)
  fresh : ∀ link sourcePath,
    (∀ source ∈ sourcePath, graph.stored source (linkText collection.library link) = none) →
      (linked.resolve collection.library link sourcePath).1 =
        collection.freshAnswer files link sourcePath
  agree : ∀ link, ∀ file ∈ files,
    (∀ types target,
      collection.FirstResolves determine index file (linkText collection.library link) types
          target →
        index.ExcludesNone collection.library.toResolutionLibrary
          (linkText collection.library link) file.path types) →
      (linked.resolve collection.library link (some file.path)).1 =
        collection.freshAnswer files link (some file.path)

theorem follows_of_serves (distinct : (files.map (·.path)).Nodup)
    (inverts : collection.Inverts determine index files graph)
    (same : index.SamePaths
      (.untyped collection.library.toResolutionLibrary files collection.resolutionKeys))
    (serves : linked.Serves collection files graph.stored) :
    collection.Follows determine index files graph linked where
  stored := fun _ _ _ present => serves.resolve_stored present
  fresh := fun _ _ absent => serves.resolve_fresh absent
  agree := by
    intro link file member excludesNone
    cases present : graph.stored file.path (linkText collection.library link) with
    | none => exact serves.resolve_fresh fun source here => Option.mem_some.mp here ▸ present
    | some target =>
      obtain ⟨other, otherMember, samePath, _, types, first⟩ := (inverts.stored _ _ _).mp present
      obtain rfl := List.inj_on_of_nodup_map distinct otherMember member samePath
      have typed := (excludesNone types target first).resolve_eq
      obtain ⟨_, _, _, resolved, _⟩ := first
      rw [serves.resolve_stored present, IndexedCollection.freshAnswer, Option.getD_some,
        ← same.resolve_eq, ← typed, resolved]
      rfl

/-- The graph that is built from files of distinct paths inverts resolution by their index, and
files that are linked by it follow links by it and afresh, whatever was asked of them before. -/
theorem linkGraph_inverts (collection : IndexedCollection) (determine : DetermineTypes)
    (files : List ResolvedFileData) (graph : LinkGraph)
    (distinct : (files.map (·.path)).Nodup)
    (built : collection.buildLinkGraph determine files
      (collection.buildLinkResolutionIndex determine files) = .ok graph) :
    collection.Inverts determine (collection.buildLinkResolutionIndex determine files) files
        graph ∧
      ∀ start, start = none ∨ start = some (collection.buildLinkResolutionIndex determine files) →
        ∀ calls, collection.Follows determine
          (collection.buildLinkResolutionIndex determine files) files graph
          (Trace.performed (LinkedFiles.answer collection determine)
            (.new files graph.stored collection.resolutionKeys start) calls) := by
  have inverts := inverts_buildLinkGraph distinct built
  refine ⟨inverts, fun start known calls => ?_⟩
  have same := @samePaths_buildLinkResolutionIndex collection determine files
  have begins : (LinkedFiles.new files graph.stored collection.resolutionKeys start).Serves
      collection files graph.stored := by
    refine ⟨fun index present => ?_, rfl, rfl, rfl⟩
    rcases known with rfl | rfl
    · cases present
    · cases present
      exact same
  exact follows_of_serves distinct inverts same (begins.performed calls)

/-- The types that a reader determines by the rules and declarations of a collection. -/
def determinedBy {environment : Mutation.Environment} (membership : Mutation.Collection environment)
    (clock : environment.Clock) : DetermineTypes :=
  fun frontmatter path =>
    (Mutation.determineTypesForPathChecked membership frontmatter (some path) clock).1

namespace GraphExample

/-- Records name their type in `type`. -/
def environment : Mutation.Environment where
  Rules := Unit
  Plan := Unit
  Clock := Unit
  matchesRules := fun _ _ _ _ _ => .ok false
  toLowercase := id
  parseVersion := fun _ => none

/-- No type has match rules. -/
def membership : Mutation.Collection environment where
  explicitTypeKeys := ["type"]
  types := []
  typePlans := fun _ => none
  dataContracts := []
  implementations := fun _ _ => []

/-- A library that reads one link. -/
def library : IndexLibrary :=
  { PartialExample.library with
    extractFrontmatterLinks := fun
      | .string "[[x]]" => ["x"]
      | _ => [] }

/-- A pair has a person on the left and a place on the right. -/
def pairs : IndexedCollection where
  library := library
  types := [("pair",
    { fields := [("left", ⟨false, some "person", []⟩), ("right", ⟨false, some "place", []⟩)]
      v03Frontmatter := none })]
  resolutionKeys := ⟨none, false⟩
  idField := "id"

/-- A record of a type. -/
def typed (frontmatter : List (String × Value)) (typeName : String) : RecordLoadOutcome :=
  .parsed ⟨"r1", 1, 0, none⟩ (.object frontmatter) (.object frontmatter) "" [typeName]

/-- A person and a place of the same name, and a pair of both. -/
def pairRecords : Records where
  entries := [
    ("pair.md", typed [("left", .string "[[x]]"), ("right", .string "[[x]]"),
      ("type", .string "pair")] "pair"),
    ("people/x.md", typed [("type", .string "person")] "person"),
    ("places/x.md", typed [("type", .string "place")] "place")]
  sorted := by decide

/-- A visit is of a place on the left and of a person on the right. -/
def visits : IndexedCollection :=
  { pairs with
    types := [("pair",
      { fields := [("left", ⟨false, some "place", []⟩), ("right", ⟨false, some "person", []⟩)]
        v03Frontmatter := none })] }

/-- The types of a record are those it names. -/
def namedTypes : DetermineTypes := determinedBy membership ()

/-- A visit, a person and a place. -/
def visitFiles : List ResolvedFileData := pairRecords.resolvedFiles

/-- The index of the visit. -/
def visitIndex : LinkResolutionIndex := visits.buildLinkResolutionIndex namedTypes visitFiles

theorem distinct_visitFiles : (visitFiles.map (·.path)).Nodup := by
  decide +kernel

theorem stored_visit : ∃ graph,
    visits.buildLinkGraph namedTypes visitFiles visitIndex = .ok graph ∧
      graph.stored "pair.md" "x" = some "places/x.md" := by
  have first : (visits.buildLinkGraph namedTypes visitFiles visitIndex).toOption.map
      (fun graph => graph.stored "pair.md" "x") = some (some "places/x.md") := by
    decide +kernel
  cases built : visits.buildLinkGraph namedTypes visitFiles visitIndex with
  | error error =>
    rw [built] at first
    cases first
  | ok graph =>
    rw [built] at first
    exact ⟨graph, rfl, Option.some.inj first⟩

theorem linksTo_person : ∃ file ∈ visitFiles, file.path = "pair.md" ∧
    visits.LinksTo namedTypes visitIndex file "x" "people/x.md" := by
  have resolved : ∃ file ∈ visitFiles, file.path = "pair.md" ∧
      ("x", ["person"]) ∈ visits.fileTargets namedTypes file ∧
        (visitIndex.resolve visits.library.toResolutionLibrary "x" file.path
          ["person"]).toOption = some (some "people/x.md") := by
    decide +kernel
  obtain ⟨file, member, named, occurs, found⟩ := resolved
  refine ⟨file, member, named, ["person"], occurs, ?_⟩
  exact targetOf_eq_some_iff.mp (congrArg Option.join found)

theorem fresh_visit : (visits.freshAnswer visitFiles "[[x]]" (some "pair.md")).toOption.map
    (·.map (·.path)) = some (some "people/x.md") := by
  decide +kernel

end GraphExample

section Visit

open GraphExample

/-- The visit is linked by its index. -/
theorem linkGraph_inverts_visit : ∃ graph,
    visits.Inverts namedTypes visitIndex visitFiles graph ∧
      ∀ calls, visits.Follows namedTypes visitIndex visitFiles graph
        (Trace.performed (LinkedFiles.answer visits namedTypes)
          (.new visitFiles graph.stored visits.resolutionKeys none) calls) := by
  obtain ⟨graph, built, _⟩ := stored_visit
  obtain ⟨inverts, follows⟩ :=
    linkGraph_inverts visits namedTypes visitFiles graph distinct_visitFiles built
  exact ⟨graph, inverts, follows none (.inl rfl)⟩

/-- A text that occurs with two types is stored with the first target only, and fresh resolution
of it leads elsewhere. -/
theorem linkGraph_not_inverse :
    ∃ graph, (visitFiles.map (·.path)).Nodup ∧
      visits.buildLinkGraph namedTypes visitFiles
        (visits.buildLinkResolutionIndex namedTypes visitFiles) = .ok graph ∧
      (¬∀ source text target, graph.stored source text = some target ↔
        ∃ file ∈ visitFiles, file.path = source ∧
          visits.LinksTo namedTypes (visits.buildLinkResolutionIndex namedTypes visitFiles) file
            text target) ∧
      ¬∀ link source, ((LinkedFiles.new visitFiles graph.stored visits.resolutionKeys none).resolve
            visits.library link (some source)).1 =
          visits.freshAnswer visitFiles link (some source) := by
  obtain ⟨graph, built, stored⟩ := stored_visit
  refine ⟨graph, distinct_visitFiles, built, fun claim => ?_, fun claim => ?_⟩
  · have other := (claim "pair.md" "x" "people/x.md").mpr linksTo_person
    rw [stored] at other
    exact absurd other (by decide)
  · have same := claim "[[x]]" "pair.md"
    have followed : ((LinkedFiles.new visitFiles graph.stored visits.resolutionKeys none).resolve
        visits.library "[[x]]" (some "pair.md")).1 = .ok (fileAt visitFiles "places/x.md") := by
      have text : linkText visits.library "[[x]]" = "x" := rfl
      rw [LinkedFiles.resolve]
      simp only [LinkedFiles.new, text, Option.bind_some, stored]
    rw [followed] at same
    have fresh := fresh_visit
    rw [← same] at fresh
    exact absurd fresh (by decide +kernel)

end Visit

end Mdbase.Cache
