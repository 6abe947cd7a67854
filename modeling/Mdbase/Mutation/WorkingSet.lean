import Mdbase.Library.Fallible
import Mdbase.Mutation.Execution

/-!
# Working sets

The files of a shadow advance item by item. What they keep is that every path that changed
is the name of a record and that no folder in them is a collection of its own. The commit of
such files is refused exactly when a path that changed lies in a nested collection of the
collection itself, and otherwise gives each of these paths the content that it has in the
shadow.
-/

namespace Mdbase.Mutation

open Library

variable {library : MutationLibrary}

theorem Files.contentAt_insert (files : Files) (file : StoredFile) (path : String) :
    Files.contentAt (files.insert file) path =
      if path = file.path then some file.content else files.contentAt path := by
  unfold Files.contentAt
  rw [Table.get?_insert]
  split
  next => rfl
  next => rfl

theorem Files.contentAt_erase (files : Files) (removed path : String) :
    Files.contentAt (files.erase removed) path =
      if path = removed then none else files.contentAt path := by
  unfold Files.contentAt
  rw [Table.get?_erase]
  split
  next => rfl
  next => rfl

variable {files : Files} {path : String}

theorem Files.contentAt_eq_none : files.contentAt path = none ↔ files.get? path = none := by
  simp [Files.contentAt]

theorem Files.contentAt_filter (files : Files) (keep : String → Bool) (path : String) :
    Files.contentAt (files.filter fun file => keep file.path) path =
      if keep path then files.contentAt path else none := by
  unfold Files.contentAt
  rw [Table.get?_filter]
  cases found : files.get? path with
  | none => simp
  | some file =>
    have here : file.path = path := Table.key_of_get? found
    subst here
    cases kept : keep file.path
    · simp [Option.filter, kept]
    · simp [Option.filter, kept]

theorem mem_ancestorsFrom (front rest seen : List Char) :
    String.ofList (seen.reverse ++ front) ∈ ancestorsFrom seen (front ++ '/' :: rest) := by
  induction front generalizing seen with
  | nil => simp [ancestorsFrom]
  | cons character front ih =>
    have later := ih (character :: seen)
    rw [List.reverse_cons, List.append_assoc, List.singleton_append] at later
    rw [List.cons_append, ancestorsFrom]
    split
    next => exact List.mem_cons_of_mem _ later
    next => exact later

theorem mem_ancestors_configuration (folder : String) :
    folder ∈ ancestors (folder ++ "/mdbase.yaml") := by
  have text : (folder ++ "/mdbase.yaml").toList =
      folder.toList ++ '/' :: "mdbase.yaml".toList := by
    rw [String.toList_append]
    rfl
  have member := mem_ancestorsFrom folder.toList "mdbase.yaml".toList []
  rw [List.reverse_nil, List.nil_append, String.ofList_toList] at member
  rw [ancestors, text]
  exact member

theorem Files.isNested_iff :
    files.isNested path = true ↔
      ∃ folder ∈ ancestors path, (files.get? (folder ++ "/mdbase.yaml")).isSome := by
  simp [Files.isNested]

/-- No folder of the files is a collection of its own. -/
def Files.Flat (files : Files) : Prop := ∀ path, files.isNested path = false

/-- A nested collection nests its own configuration, so files are flat when those that are
new in them are not nested. -/
theorem Files.flat_of_keys {before after : Files} (flat : before.Flat)
    (keys : ∀ path, (after.get? path).isSome →
      (before.get? path).isSome ∨ after.isNested path = false) : after.Flat := by
  intro path
  by_contra nested
  obtain ⟨folder, above, present⟩ := Files.isNested_iff.mp (eq_true_of_ne_false nested)
  rcases keys _ present with old | apart
  · have before_nested := Files.isNested_iff.mpr ⟨folder, above, old⟩
    rw [flat path] at before_nested
    exact Bool.false_ne_true before_nested
  · have nested := Files.isNested_iff.mpr ⟨folder, mem_ancestors_configuration folder, present⟩
    rw [apart] at nested
    exact Bool.false_ne_true nested

theorem Files.isNested_mono {small large : Files}
    (keys : ∀ path, (small.get? path).isSome → (large.get? path).isSome)
    (nested : small.isNested path = true) : large.isNested path = true := by
  obtain ⟨folder, above, present⟩ := Files.isNested_iff.mp nested
  exact Files.isNested_iff.mpr ⟨folder, above, keys _ present⟩

theorem get?_shadowFiles (present : ((shadowFiles library files).get? path).isSome) :
    (files.get? path).isSome ∧ files.isNested path = false := by
  rw [shadowFiles, Table.get?_image, Option.isSome_map, Table.get?_filter] at present
  cases found : files.get? path with
  | none => simp [found] at present
  | some file =>
    have here : file.path = path := Table.key_of_get? found
    rw [found, Option.isSome_filter] at present
    simp only [Option.any_some, Bool.and_eq_true, Bool.not_eq_true', here] at present
    exact ⟨rfl, present.2⟩

theorem flat_shadowFiles (files : Files) : (shadowFiles library files).Flat := by
  refine @Files.flat_of_keys Table.empty _ (fun path => ?_) fun path present => ?_
  · simp [Files.isNested]
  · obtain ⟨-, apart⟩ := get?_shadowFiles present
    right
    by_contra nested
    have nested := Files.isNested_mono (fun _ present => (get?_shadowFiles present).1)
      (eq_true_of_ne_false nested)
    rw [apart] at nested
    exact Bool.false_ne_true nested

/-- Only records changed, and no folder became a collection. -/
structure Advances (library : MutationLibrary) (before after : Files) : Prop where
  names : ∀ path, after.contentAt path ≠ before.contentAt path → library.isRecordName path = true
  flat : after.Flat

theorem Advances.start (files : Files) :
    Advances library (shadowFiles library files) (shadowFiles library files) where
  names := fun _ changed => absurd rfl changed
  flat := flat_shadowFiles files

theorem contentAt_collectFiles (files : Files) (path : String) :
    (collectFiles library files).contentAt path =
      if isCopied library path && !files.isNested path then files.contentAt path else none :=
  Files.contentAt_filter files (fun path => isCopied library path && !files.isNested path) path

theorem contentAt_shadowFiles (copied : isCopied library path = true) :
    (shadowFiles library files).contentAt path = (collectFiles library files).contentAt path := by
  unfold Files.contentAt shadowFiles collectFiles
  rw [Table.get?_image, Table.get?_filter, Table.get?_filter]
  cases found : files.get? path with
  | none => rfl
  | some file =>
    have here : file.path = path := Table.key_of_get? found
    subst here
    cases apart : files.isNested file.path
    · simp [Option.filter, copied, apart, contributed]
    · simp [Option.filter, apart]

theorem mem_changedPaths {baseline desired : Files} :
    path ∈ changedPaths baseline desired ↔ baseline.contentAt path ≠ desired.contentAt path := by
  have stored (files : Files) (present : files.contentAt path ≠ none) :
      path ∈ files.entries.map (·.path) := by
    obtain ⟨file, found⟩ := Option.ne_none_iff_exists'.mp (mt Files.contentAt_eq_none.mpr present)
    exact List.mem_map.mpr ⟨file, Table.mem_of_get? found, Table.key_of_get? found⟩
  simp only [changedPaths, List.mem_filter, mem_sortBy, List.mem_dedup, List.map_append,
    List.mem_append, decide_eq_true_eq, and_iff_right_iff_imp]
  intro changed
  by_cases absent : baseline.contentAt path = none
  · exact .inr (stored desired fun none => changed (absent.trans none.symm))
  · exact .inl (stored baseline absent)

theorem contentAt_applyEntries (desired : Files) (paths : List String) (files : Files)
    (path : String) :
    Files.contentAt (paths.foldl (applyEntry desired) files) path =
      if path ∈ paths then desired.contentAt path else files.contentAt path := by
  induction paths generalizing files with
  | nil => simp
  | cons first paths ih =>
    have entry : (applyEntry desired files first).contentAt path =
        if path = first then desired.contentAt path else files.contentAt path := by
      unfold applyEntry
      cases found : desired.get? first with
      | none =>
        dsimp only
        rw [Files.contentAt_erase]
        split
        next same => rw [same, Files.contentAt_eq_none.mpr found]
        next => rfl
      | some file =>
        have here : file.path = first := Table.key_of_get? found
        dsimp only
        rw [Files.contentAt_insert, here]
        split
        next same => rw [same, Files.contentAt, found, Option.map_some]
        next => rfl
    rw [List.foldl_cons, ih, entry]
    by_cases same : path = first
    · simp [same]
    · simp [same]

variable {files shadow : Files}

theorem Advances.mem_changedPaths (advances : Advances library (shadowFiles library files) shadow)
    (path : String) :
    path ∈ changedPaths (collectFiles library files) (collectFiles library shadow) ↔
      shadow.contentAt path ≠ (shadowFiles library files).contentAt path := by
  rw [Mutation.mem_changedPaths, contentAt_collectFiles shadow, advances.flat path]
  by_cases copied : isCopied library path = true
  · rw [← contentAt_shadowFiles copied, copied]
    exact ne_comm
  · have same : shadow.contentAt path = (shadowFiles library files).contentAt path := by
      by_contra changed
      refine copied ?_
      rw [isCopied, advances.names path changed, Bool.or_true]
    simp [contentAt_collectFiles, eq_false_of_ne_true copied, same]

theorem Advances.contentAt_commit {committed : Files}
    (advances : Advances library (shadowFiles library files) shadow)
    (done : commitShadow library files (collectFiles library files)
      (collectFiles library shadow) = .ok committed) (path : String) :
    committed.contentAt path =
      if shadow.contentAt path ≠ (shadowFiles library files).contentAt path then
        shadow.contentAt path
      else files.contentAt path := by
  unfold commitShadow at done
  dsimp only at done
  split at done
  next => cases done
  split at done
  next => cases done
  obtain rfl := Except.ok.inj done
  rw [contentAt_applyEntries]
  simp only [advances.mem_changedPaths path]
  by_cases changed : shadow.contentAt path ≠ (shadowFiles library files).contentAt path
  · have copied : isCopied library path = true := by
      rw [isCopied, advances.names path changed, Bool.or_true]
    rw [if_pos changed, if_pos changed, contentAt_collectFiles, advances.flat path, copied]
    rfl
  · rw [if_neg changed, if_neg changed]

theorem Advances.commit_iff (advances : Advances library (shadowFiles library files) shadow) :
    (∃ committed, commitShadow library files (collectFiles library files)
        (collectFiles library shadow) = .ok committed) ↔
      ∀ path, shadow.contentAt path ≠ (shadowFiles library files).contentAt path →
        files.isNested path = false := by
  unfold commitShadow
  dsimp only
  constructor
  · rintro ⟨committed, done⟩ path changed
    split at done
    next => cases done
    rename_i safe
    simp only [List.any_eq_true, not_exists, not_and, Bool.not_eq_true'] at safe
    have recordPath := eq_true_of_ne_false
      (safe path ((advances.mem_changedPaths path).mpr changed))
    rw [isRecordPath, Bool.and_eq_true, Bool.not_eq_true'] at recordPath
    exact recordPath.2
  · intro outside
    have safe : ¬(changedPaths (collectFiles library files) (collectFiles library shadow)).any
        (fun path => !isRecordPath library files path) = true := by
      simp only [List.any_eq_true, not_exists, not_and, Bool.not_eq_true']
      intro path member
      have changed := (advances.mem_changedPaths path).mp member
      simp [isRecordPath, advances.names path changed, outside path changed]
    have current : ¬(changedPaths (collectFiles library files) (collectFiles library shadow)).any
        (fun path => (files.contentAt path).map library.revision ≠
          ((collectFiles library files).contentAt path).map library.revision) = true := by
      simp only [List.any_eq_true, not_exists, not_and, decide_eq_true_eq, not_not]
      intro path member
      have changed := (advances.mem_changedPaths path).mp member
      rw [contentAt_collectFiles, isCopied, advances.names path changed, outside path changed]
      simp
    rw [if_neg safe, if_neg current]
    exact ⟨_, rfl⟩

end Mdbase.Mutation
