import Mdbase.Watch.FullLoad

/-!
# What an event invalidates

The watcher filters the paths that an event names before it reads anything, and refreshes
records by their path, or everything. The filter has its own idea of which paths do not matter.
-/

namespace Mdbase.Watch

open Library Links

/-- `EventKind`, as far as the watcher tells kinds apart. -/
inductive EventKind where
  | any
  | access
  | createAny
  | createFile
  | createFolder
  | createOther
  | modifyAny
  | modifyData
  | modifyAccessTime
  | modifyMetadata
  | modifyName
  | modifyOther
  | removeAny
  | removeFile
  | removeFolder
  | removeOther
  | other
  deriving DecidableEq

/-- A path of an event: of the root itself, below it, or elsewhere. -/
inductive EventPath where
  | root
  | below (path : Text)
  | elsewhere
  deriving DecidableEq

/-- `Event`. -/
structure FileEvent where
  kind : EventKind
  paths : List EventPath

/-- The paths below the root that an event names. -/
def FileEvent.named (event : FileEvent) : List Text :=
  event.paths.filterMap fun
    | .below path => some path
    | .root | .elsewhere => none

/-- An event that names no path, or one that is not below the root. -/
def FileEvent.isWholesale (event : FileEvent) : Bool :=
  event.paths.isEmpty || event.paths.any fun path => path = .root || path = .elsewhere

/-- `invalidates_snapshot`. -/
def FileEvent.invalidatesSnapshot (event : FileEvent) : Bool :=
  event.kind ≠ .access && event.kind ≠ .modifyAccessTime

/-- `enqueues_reconciliation`. -/
def FileEvent.enqueuesReconciliation (event : FileEvent) : Bool :=
  event.invalidatesSnapshot &&
    (event.paths.isEmpty || event.paths.any fun
      | .elsewhere | .root => true
      | .below path => !hasHiddenComponent path)

variable {Record : Type}

namespace FullLoad

/-- The extensions of records as `Snapshot` keeps them. -/
def recordExtensions (snapshot : FullLoad Record) : List Text :=
  "md".toList :: snapshot.settings.extensions.map fun extension => extension.dropWhile (· = '.')

/-- `is_ignored_path`. -/
def isIgnoredPath (snapshot : FullLoad Record) (path : Text) : Bool :=
  hasHiddenComponent path || isAtOrBelow snapshot.settings.cacheFolder path ||
    isAtOrBelow snapshot.settings.migrationsFolder path ||
    snapshot.settings.exclude.any (fun pattern => matchGlobPattern pattern path) ||
    (!snapshot.settings.includeSubfolders && path.contains '/')

/-- Does the snapshot hold anything below a path? -/
def holdsBelow (snapshot : FullLoad Record) (path : Text) : Bool :=
  (snapshot.records.any fun record => startsWith (path ++ ['/']) record.1) ||
    snapshot.resources.any fun resource => startsWith (path ++ ['/']) resource.1

/-- `renamed_path_may_hold_records`. -/
def renamedPathMayHoldRecords (snapshot : FullLoad Record) (tree : Tree) (path : Text) : Bool :=
  match tree.node path with
  | .file _ => false
  | .directory | .other => true
  | .absent => snapshot.holdsBelow path

/-- A path of the collection's own files, or of a resource. -/
def isControlPath (snapshot : FullLoad Record) (path : Text) : Bool :=
  path ∈ [configurationPath, "mdbase.lock.yaml".toList, "mdbase.provisions.yaml".toList] ||
    isAtOrBelow snapshot.settings.typesFolder path ||
    isAtOrBelow snapshot.settings.contractsFolder path ||
    snapshot.resources.any (fun resource => resource.1 = path) || path ∈ snapshot.views ||
    isSchemaResourcePath path || pathExtension path = some "base".toList

/-- Does an event ask for a full refresh because of a path that it names? -/
def asksForAll (snapshot : FullLoad Record) (tree : Tree) (kind : EventKind) (path : Text) :
    Bool :=
  kind ∈ [.any, .other, .createFolder, .removeFolder, .removeAny, .removeOther] ||
    (kind = .modifyName && snapshot.renamedPathMayHoldRecords tree path) ||
    (kind ∈ [.createAny, .createOther] && tree.node path = .directory) ||
    snapshot.isControlPath path

/-- A path that is refreshed as a record. -/
def hasRecordExtension (snapshot : FullLoad Record) (path : Text) : Bool :=
  (pathExtension path).any fun extension => extension ∈ snapshot.recordExtensions

/-- The named paths that are not ignored. -/
def visible (snapshot : FullLoad Record) (event : FileEvent) : List Text :=
  event.named.filter fun path => path ≠ [] && !snapshot.isIgnoredPath path

/-- `invalidation_paths`: nothing stands for a full refresh. -/
def invalidationPaths (snapshot : FullLoad Record) (tree : Tree) (event : FileEvent) :
    Option (List Text) :=
  if event.paths = [] then none
  else if event.paths.any fun path => path = .root || path = .elsewhere then none
  else
    let visible := snapshot.visible event
    if visible = [] then some []
    else if event.kind ∈ [.any, .other] then none
    else if event.kind = .modifyName &&
        visible.any (snapshot.renamedPathMayHoldRecords tree) then none
    else if event.kind ∈ [.createFolder, .removeFolder, .removeAny, .removeOther] ||
        (event.kind ∈ [.createAny, .createOther] &&
          visible.any fun path => tree.node path = .directory) then none
    else if visible.any snapshot.isControlPath then none
    else some (visible.filter snapshot.hasRecordExtension)

theorem any_asksForAll (snapshot : FullLoad Record) (tree : Tree) (kind : EventKind)
    {paths : List Text} (nonempty : paths ≠ []) :
    paths.any (snapshot.asksForAll tree kind) = true ↔
      kind ∈ [.any, .other] ∨
        (kind = .modifyName && paths.any (snapshot.renamedPathMayHoldRecords tree)) = true ∨
          (kind ∈ [.createFolder, .removeFolder, .removeAny, .removeOther] ||
            (kind ∈ [.createAny, .createOther] &&
              paths.any fun path => tree.node path = .directory)) = true ∨
            paths.any snapshot.isControlPath = true := by
  obtain ⟨first, member⟩ := List.exists_mem_of_ne_nil paths nonempty
  simp only [asksForAll, List.any_eq_true, Bool.or_eq_true, Bool.and_eq_true, decide_eq_true_eq,
    List.mem_cons, List.not_mem_nil, or_false]
  constructor
  · rintro ⟨path, here, ((always | ⟨renamed, holds⟩) | ⟨created, directory⟩) | control⟩
    · rcases always with rfl | rfl | rfl | rfl | rfl | rfl <;> simp
    · exact .inr (.inl ⟨renamed, path, here, holds⟩)
    · exact .inr (.inr (.inl (.inr ⟨created, path, here, directory⟩)))
    · exact .inr (.inr (.inr ⟨path, here, control⟩))
  · rintro (always | ⟨renamed, path, here, holds⟩ | (always | ⟨created, path, here, directory⟩) |
      ⟨path, here, control⟩)
    · exact ⟨first, member, .inl (.inl (.inl (by rcases always with rfl | rfl <;> simp)))⟩
    · exact ⟨path, here, .inl (.inl (.inr ⟨renamed, holds⟩))⟩
    · refine ⟨first, member, .inl (.inl (.inl ?_))⟩
      rcases always with rfl | rfl | rfl | rfl <;> simp
    · exact ⟨path, here, .inl (.inr ⟨created, directory⟩)⟩
    · exact ⟨path, here, .inr control⟩

/-- A full refresh is asked for by a path that is not ignored, or by what is no path below the
root. -/
theorem invalidationPaths_eq (snapshot : FullLoad Record) (tree : Tree) (event : FileEvent) :
    snapshot.invalidationPaths tree event =
      if event.isWholesale ||
          (snapshot.visible event).any (snapshot.asksForAll tree event.kind) then none
      else some ((snapshot.visible event).filter snapshot.hasRecordExtension) := by
  unfold invalidationPaths FileEvent.isWholesale
  by_cases empty : event.paths = []
  · rw [if_pos empty, empty]
    rfl
  · rw [if_neg empty, List.isEmpty_eq_false_iff.mpr empty, Bool.false_or]
    cases outside : event.paths.any fun path => path = .root || path = .elsewhere with
    | true => rfl
    | false =>
      rw [if_neg Bool.false_ne_true, Bool.false_or]
      dsimp only
      by_cases nothing : snapshot.visible event = []
      · rw [if_pos nothing, nothing]
        rfl
      · rw [if_neg nothing]
        have asks := snapshot.any_asksForAll tree event.kind nothing
        cases asked : (snapshot.visible event).any (snapshot.asksForAll tree event.kind) with
        | true =>
          rw [if_pos rfl]
          split_ifs with unknown renamed folder control
          · rfl
          · rfl
          · rfl
          · rfl
          · rcases asks.mp asked with is | is | is | is
            · exact absurd is unknown
            · exact absurd is renamed
            · exact absurd is folder
            · exact absurd is control
        | false =>
          rw [asked] at asks
          rw [if_neg Bool.false_ne_true]
          split_ifs with unknown renamed folder control
          · cases asks.mpr (.inl unknown)
          · cases asks.mpr (.inr (.inl renamed))
          · cases asks.mpr (.inr (.inr (.inl folder)))
          · cases asks.mpr (.inr (.inr (.inr control)))
          · rfl

end FullLoad

end Mdbase.Watch
