import Mdbase.Cache.Conflicts
import Mdbase.Library.Comparison
import Mdbase.Mutation.Membership

/-!
# The link graph

The backlinks of a collection and the targets of its stored links are built from the records.
A text that occurs several times in a record has one stored target: that of its first occurrence
that resolves, fields before the body.
-/

namespace Mdbase.Cache

open Library Links
open Mdbase.Runtime (Value)
open Mdbase.Query (CatalogError)

/-- Backlinks, and the targets of stored links by source and text. -/
structure LinkGraph where
  backlinks : String → List String
  stored : String → String → Option String

/-- A graph without links. -/
def LinkGraph.empty : LinkGraph := ⟨fun _ => [], fun _ _ => none⟩

/-- `ResolvedFileData`. -/
structure ResolvedFileData where
  path : String
  frontmatter : Value
  body : String

/-- The parsed records as files. -/
def Records.resolvedFiles (records : Records) : List ResolvedFileData :=
  records.entries.filterMap fun
    | (path, .parsed _ _ effective body _) => some ⟨path, effective, body⟩
    | (_, .invalid ..) => none

/-- `determine_types_for_path`, when the graph is built. -/
abbrev DetermineTypes := Value → String → List String

/-- The texts in the fields of a record, with their fields. -/
def IndexedCollection.fieldTexts (collection : IndexedCollection) :
    Value → List (String × String)
  | .object members =>
    members.flatMap fun (field, value) =>
      (collection.library.extractFrontmatterLinks value).map (field, ·)
  | _ => []

/-- The texts in the body of a record. -/
def IndexedCollection.bodyTexts (collection : IndexedCollection) (body : String) :
    List String :=
  collection.library.extractLinks body ++ collection.library.extractEmbeds body

/-- The targets of a file with their declared types, fields first. -/
def IndexedCollection.fileTargets (collection : IndexedCollection)
    (determine : DetermineTypes) (file : ResolvedFileData) : List (String × List String) :=
  ((collection.fieldTexts file.frontmatter).map fun (field, raw) =>
      (raw, collection.fieldTargetTypes (determine file.frontmatter file.path) field)) ++
    (collection.bodyTexts file.body).map (·, [])

/-- A resolved target joins the graph; a source is noted once for a target. -/
def LinkGraph.addTarget (source raw : String) (state : LinkGraph × List String) :
    Option String → LinkGraph × List String
  | none => state
  | some path =>
    ({ stored := fun otherSource other =>
        if otherSource = source ∧ other = raw then
          (state.1.stored otherSource other).or (some path)
        else state.1.stored otherSource other
       backlinks := fun target =>
        if target = path ∧ path ∉ state.2 then state.1.backlinks target ++ [source]
        else state.1.backlinks target },
      if path ∈ state.2 then state.2 else state.2 ++ [path])

/-- The targets of one source join the graph. -/
def LinkGraph.addTargets (library : ResolutionLibrary) (index : LinkResolutionIndex)
    (source : String) : List (String × List String) → LinkGraph × List String →
      Except CatalogError (LinkGraph × List String)
  | [], state => .ok state
  | (raw, types) :: targets, state =>
    match index.resolve library raw source types with
    | .ok resolved => addTargets library index source targets (addTarget source raw state resolved)
    | .error error => .error error

/-- The targets of the files join the graph, but for files without a collection path. -/
def IndexedCollection.addFiles (collection : IndexedCollection) (determine : DetermineTypes)
    (index : LinkResolutionIndex) :
    List ResolvedFileData → LinkGraph → Except CatalogError LinkGraph
  | [], graph => .ok graph
  | file :: files, graph =>
    match collectionPath file.path with
    | .error _ => collection.addFiles determine index files graph
    | .ok _ =>
      match LinkGraph.addTargets collection.library.toResolutionLibrary index file.path
        (collection.fileTargets determine file) (graph, []) with
      | .ok (next, _) => collection.addFiles determine index files next
      | .error error => .error error

/-- `build_link_graph_with_resolution`. -/
def IndexedCollection.buildLinkGraph (collection : IndexedCollection)
    (determine : DetermineTypes) (files : List ResolvedFileData) (index : LinkResolutionIndex) :
    Except CatalogError LinkGraph :=
  (collection.addFiles determine index files .empty).map fun graph =>
    { graph with
      backlinks := fun target => ((graph.backlinks target).insertionSort (· ≤ ·)).dedup }

section Built

variable {collection : IndexedCollection} {determine : DetermineTypes}
  {library : ResolutionLibrary} {index : LinkResolutionIndex} {source : String}

/-- The target that a text of a source has by target types. -/
def targetOf (library : ResolutionLibrary) (index : LinkResolutionIndex) (source raw : String)
    (types : List String) : Option String :=
  (index.resolve library raw source types).toOption.join

theorem targetOf_eq_some_iff {raw target : String} {types : List String} :
    targetOf library index source raw types = some target ↔
      index.resolve library raw source types = .ok (some target) := by
  unfold targetOf
  cases index.resolve library raw source types with
  | error error | ok resolved => simp [Except.toOption]

/-- The first target of a text that resolves. -/
def firstTarget (library : ResolutionLibrary) (index : LinkResolutionIndex) (source : String)
    (targets : List (String × List String)) (raw : String) : Option String :=
  targets.findSome? fun target =>
    if target.1 = raw then targetOf library index source target.1 target.2 else none

/-- What the targets of a source add to a graph. -/
structure AddsTargets (library : ResolutionLibrary) (index : LinkResolutionIndex)
    (source : String) (targets : List (String × List String)) (before after : LinkGraph) :
    Prop where
  backlinks : ∀ path other, other ∈ after.backlinks path ↔
    other ∈ before.backlinks path ∨
      (other = source ∧ ∃ target ∈ targets,
        targetOf library index source target.1 target.2 = some path)
  stored : ∀ other raw, after.stored other raw =
    (before.stored other raw).or
      (if other = source then firstTarget library index source targets raw else none)

/-- What a source has noted is among its backlinks. -/
def Noted (source : String) (state : LinkGraph × List String) : Prop :=
  ∀ path ∈ state.2, source ∈ state.1.backlinks path

variable {state : LinkGraph × List String}

/-- Adding a target adds its source to the backlinks of that file only. -/
theorem mem_backlinks_addTarget (noted : Noted source state) {raw path other : String}
    {resolved : Option String} :
    other ∈ (LinkGraph.addTarget source raw state resolved).1.backlinks path ↔
      other ∈ state.1.backlinks path ∨ (other = source ∧ resolved = some path) := by
  cases resolved with
  | none => simp [LinkGraph.addTarget]
  | some found =>
    simp only [LinkGraph.addTarget, Option.some.injEq]
    by_cases here : path = found
    · subst here
      by_cases known : path ∈ state.2
      · rw [if_neg fun condition => condition.2 known]
        refine ⟨.inl, ?_⟩
        rintro (old | ⟨rfl, _⟩)
        · exact old
        · exact noted path known
      · rw [if_pos ⟨rfl, known⟩, List.mem_append, List.mem_singleton]
        simp
    · rw [if_neg fun condition => here condition.1]
      simp [Ne.symm here]

theorem Noted.addTarget (noted : Noted source state) (raw : String)
    (resolved : Option String) : Noted source (LinkGraph.addTarget source raw state resolved) := by
  intro path member
  rw [mem_backlinks_addTarget noted]
  cases resolved with
  | none => exact .inl (noted path member)
  | some found =>
    simp only [LinkGraph.addTarget] at member
    by_cases known : found ∈ state.2
    · rw [if_pos known] at member
      exact .inl (noted path member)
    · rw [if_neg known] at member
      rcases List.mem_append.mp member with old | new
      · exact .inl (noted path old)
      · exact .inr ⟨rfl, by rw [List.mem_singleton.mp new]⟩

theorem stored_addTarget (raw other text : String) (resolved : Option String) :
    (LinkGraph.addTarget source raw state resolved).1.stored other text =
      (state.1.stored other text).or (if other = source ∧ text = raw then resolved else none) := by
  cases resolved with
  | none => simp [LinkGraph.addTarget]
  | some found =>
    simp only [LinkGraph.addTarget]
    split <;> simp

variable {targets : List (String × List String)}

/-- Targets are added exactly as they resolve. -/
theorem addTargets_ok {out : LinkGraph × List String} (noted : Noted source state)
    (added : LinkGraph.addTargets library index source targets state = .ok out) :
    (∀ target ∈ targets, ∃ resolved,
        index.resolve library target.1 source target.2 = .ok resolved) ∧
      AddsTargets library index source targets state.1 out.1 := by
  induction targets generalizing state with
  | nil =>
    cases added
    exact ⟨by simp, ⟨by simp, by simp [firstTarget]⟩⟩
  | cons target targets ih =>
    obtain ⟨raw, types⟩ := target
    unfold LinkGraph.addTargets at added
    cases resolves : index.resolve library raw source types with
    | error error =>
      rw [resolves] at added
      cases added
    | ok resolved =>
      rw [resolves] at added
      have value : targetOf library index source raw types = resolved := by
        rw [targetOf, resolves]
        cases resolved <;> rfl
      obtain ⟨others, adds⟩ := ih (noted.addTarget raw resolved) added
      refine ⟨?_, ⟨fun path other => ?_, fun other text => ?_⟩⟩
      · rintro target member
        rcases List.mem_cons.mp member with rfl | member
        · exact ⟨resolved, resolves⟩
        · exact others target member
      · rw [adds.backlinks, mem_backlinks_addTarget noted, or_assoc, ← and_or_left]
        simp only [List.mem_cons, exists_eq_or_imp, value]
      · rw [adds.stored, stored_addTarget, Option.or_assoc]
        by_cases here : other = source
        · by_cases same : text = raw
          · simp only [firstTarget, List.findSome?_cons, here, same, value, and_self, if_true]
            cases resolved <;> rfl
          · simp [firstTarget, here, same, Ne.symm same]
        · simp [here]

/-- Every target of the files is resolved, to a file or to none. -/
def IndexedCollection.ResolvesFiles (collection : IndexedCollection)
    (determine : DetermineTypes) (index : LinkResolutionIndex) (files : List ResolvedFileData) :
    Prop :=
  ∀ file ∈ files, ∀ target ∈ collection.fileTargets determine file, ∃ resolved,
    index.resolve collection.library.toResolutionLibrary target.1 file.path target.2 = .ok resolved

/-- The target of a text in a file when the graph is built. -/
def IndexedCollection.builtTarget (collection : IndexedCollection) (determine : DetermineTypes)
    (index : LinkResolutionIndex) (file : ResolvedFileData) (raw : String) : Option String :=
  firstTarget collection.library.toResolutionLibrary index file.path
    (collection.fileTargets determine file) raw

/-- A file links to a path when the graph is built. -/
def IndexedCollection.BuiltLink (collection : IndexedCollection) (determine : DetermineTypes)
    (index : LinkResolutionIndex) (file : ResolvedFileData) (path : String) : Prop :=
  ∃ target ∈ collection.fileTargets determine file,
    targetOf collection.library.toResolutionLibrary index file.path target.1 target.2 = some path

/-- What the files add to a graph. -/
structure IndexedCollection.AddsFiles (collection : IndexedCollection)
    (determine : DetermineTypes) (index : LinkResolutionIndex) (files : List ResolvedFileData)
    (before after : LinkGraph) : Prop where
  backlinks : ∀ path other, other ∈ after.backlinks path ↔
    other ∈ before.backlinks path ∨
      ∃ file ∈ files, other = file.path ∧ collection.BuiltLink determine index file path
  stored : ∀ other raw, after.stored other raw =
    (before.stored other raw).or (files.findSome? fun file =>
      if other = file.path then collection.builtTarget determine index file raw else none)

variable {files : List ResolvedFileData}

/-- Files are added only if all of their targets resolve. -/
theorem addFiles_ok {graph out : LinkGraph}
    (valid : ∀ file ∈ files, ∃ canonical, collectionPath file.path = .ok canonical)
    (added : collection.addFiles determine index files graph = .ok out) :
    collection.ResolvesFiles determine index files ∧
      collection.AddsFiles determine index files graph out := by
  induction files generalizing graph with
  | nil =>
    cases added
    exact ⟨by simp [IndexedCollection.ResolvesFiles], ⟨by simp, by simp⟩⟩
  | cons file files ih =>
    obtain ⟨canonical, path⟩ := valid file List.mem_cons_self
    unfold IndexedCollection.addFiles at added
    rw [path] at added
    cases targets : LinkGraph.addTargets collection.library.toResolutionLibrary index file.path
      (collection.fileTargets determine file) (graph, []) with
    | error error =>
      rw [targets] at added
      cases added
    | ok next =>
      rw [targets] at added
      have noted : Noted file.path (graph, []) := by simp [Noted]
      obtain ⟨resolved, adds⟩ := addTargets_ok noted targets
      obtain ⟨others, rest⟩ := ih
        (fun other member => valid other (List.mem_cons_of_mem _ member)) added
      refine ⟨?_, ⟨fun path other => ?_, fun other raw => ?_⟩⟩
      · rintro other member
        rcases List.mem_cons.mp member with rfl | member
        · exact resolved
        · exact others other member
      · rw [rest.backlinks, adds.backlinks, or_assoc]
        simp only [List.mem_cons, exists_eq_or_imp, IndexedCollection.BuiltLink]
      · rw [rest.stored, adds.stored, Option.or_assoc, List.findSome?_cons]
        by_cases here : other = file.path
        · simp only [here, if_true, IndexedCollection.builtTarget]
          cases firstTarget collection.library.toResolutionLibrary index file.path
            (collection.fileTargets determine file) raw <;> rfl
        · simp [here]

end Built

end Mdbase.Cache
