import Mdbase.Watch.EventCoverage
import Mdbase.Watch.TreeSnapshot

/-!
# The snapshot after a change of definitions

A change of definitions writes the configuration, types, contracts, schemas and locks. The
snapshot after it is predicted from the one before: resources are replaced, records and saved
views are read under the new definitions, and, when the configuration changes, files that become
records or configured views are looked for. The snapshot that is captured once the change is
committed reads everything under the new definitions.
-/

namespace Mdbase.Watch

open Library Links

/-- How a collection is read: its settings, its configured views, and the types of a record and
whether it is a saved view under the definitions of the collection. -/
structure DefinitionReading where
  settings : Text → PathSettings
  isConfiguredSource : Text → Text → Bool
  /-- `determine_types_for_path`, of the frontmatter of a document. -/
  types : (Text → Option Text) → Text → Text → List String
  /-- `is_canonical_view`. -/
  isCanonicalView : (Text → Option Text) → Text → Text → Bool

/-- `CollectionSnapshotResource`. Its revision is that of the document. -/
structure SnapshotResource where
  kind : ResourceKind
  document : Text
  deriving DecidableEq

/-- `CollectionSnapshotRecord`. The revision, the frontmatter and the body are those of the
document. -/
structure SnapshotRecord where
  types : List String
  document : Text
  deriving DecidableEq

/-- `CollectionSnapshot`, with the resources that are views apart from the others. The digests
are made of the resources and of the records in the order of their paths. -/
structure CollectionSnapshot where
  configuration : Text
  structural : KeyedMap Text SnapshotResource
  views : KeyedMap Text Text
  records : KeyedMap Text SnapshotRecord

/-- `structural_resource_kind`. -/
def structuralResourceKind (settings : PathSettings) (isConfigured : Text → Bool) (path : Text) :
    Option ResourceKind :=
  if path ∈ ["mdbase.lock.yaml".toList, "mdbase.provisions.yaml".toList] then some .lock
  else if pathStartsWith settings.typesFolder path &&
      pathExtension path ∈ [some "md".toList, some "yaml".toList, some "yml".toList] then
    some .type
  else if pathStartsWith settings.contractsFolder path && pathExtension path = some "md".toList then
    some .contract
  else if pathExtension path = some "json".toList && isSchemaResourcePath path then some .schema
  else if pathExtension path = some "base".toList && !settings.isValidExtension path &&
      !hasHiddenComponent path && isConfigured path then some .view
  else none

/-- The kind of a resource that is no view. -/
def definitionKind (settings : PathSettings) (isConfigured : Text → Bool) (path : Text) :
    Option ResourceKind :=
  (structuralResourceKind settings isConfigured path).filter (· ≠ .view)

/-- `validate_file_path_after_traversal` accepts a path. -/
def isFilePath (settings : PathSettings) (isConfigured : Text → Bool) (path : Text) : Bool :=
  (collectionPath (String.ofList path)).isOk && !hasHiddenComponent path &&
    !settings.isExcluded path && (structuralResourceKind settings isConfigured path).isNone &&
      !settings.isValidExtension path

/-- Does a file of a collection have the extension of bases? -/
def isBase (path : Text) : Bool := ".base".toList.isSuffixOf path

/-- Tabulate what is read of the files of a tree. -/
def Tree.tabulate {value : Type} (tree : Tree) (read : Text → Text → Option value) :
    KeyedMap Text value :=
  KeyedMap.tabulate (tree.files.map (·.1)) fun path => (tree.node path).document?.bind (read path)

/-- The definitions of a collection: its configuration and the resources that are no views. -/
def definitions (configuration : Text) (structural : KeyedMap Text SnapshotResource) (path : Text) :
    Option Text :=
  if path = configurationPath then some configuration
  else (structural.lookup path).map (·.document)

variable (reading : DefinitionReading)

/-- The resource of a file that is no view. The configuration is read before the others. -/
def DefinitionReading.resource (configuration path document : Text) : Option SnapshotResource :=
  if path = configurationPath then none
  else
    (definitionKind (reading.settings configuration) (reading.isConfiguredSource configuration)
      path).map fun kind => { kind := kind, document := document }

/-- A file is a view that the configuration lists. -/
def DefinitionReading.isConfiguredView (configuration path : Text) : Bool :=
  structuralResourceKind (reading.settings configuration) (reading.isConfiguredSource configuration)
    path = some .view

/-- A file of a record is a saved view. -/
def DefinitionReading.isSavedView (definitions : Text → Option Text) (path document : Text) :
    Bool :=
  isNote path && reading.isCanonicalView definitions path document

/-- The records among the files of records, under some definitions. -/
def DefinitionReading.record? (definitions : Text → Option Text) (path document : Text) :
    Option SnapshotRecord :=
  if reading.isSavedView definitions path document then none
  else some { types := reading.types definitions path document, document := document }

/-- The saved views among the files of records, under some definitions. -/
def DefinitionReading.savedView? (definitions : Text → Option Text) (path document : Text) :
    Option Text :=
  if reading.isSavedView definitions path document then some document else none

/-- `collection_snapshot`. -/
def DefinitionReading.capture (tree : Tree) : Option CollectionSnapshot :=
  match tree.node configurationPath with
  | .file configuration =>
    let settings := reading.settings configuration
    let structural := tree.tabulate (reading.resource configuration)
    let definitions := definitions configuration structural
    some
      { configuration := configuration
        structural := structural
        views := tree.tabulate fun path document =>
          if reading.isConfiguredView configuration path then some document
          else if tree.isScanned settings path then reading.savedView? definitions path document
          else none
        records := tree.tabulate fun path document =>
          if tree.isScanned settings path then reading.record? definitions path document
          else none }
  | .absent | .directory | .other => none

/-- `scan_collection_all_relative_paths_context` finds a path. -/
def DefinitionReading.isScannedFile (tree : Tree) (configuration path : Text) : Bool :=
  (ancestors path).all (tree.isEntered (reading.settings configuration)) &&
    ((reading.settings configuration).isRecordPath path ||
      isFilePath (reading.settings configuration) (reading.isConfiguredSource configuration) path)

/-- What is known of a resource or a record before the change, by its path. -/
def CollectionSnapshot.document? (snapshot : CollectionSnapshot) (path : Text) : Option Text :=
  ((snapshot.structural.lookup path).map (·.document)).or (snapshot.views.lookup path)

namespace DefinitionReading

/-- The resources that are no views after the change. -/
def changedResources (before : CollectionSnapshot) (changed : KeyedMap Text (Option Text))
    (configuration : Text) : KeyedMap Text SnapshotResource :=
  KeyedMap.tabulate (changed.keys ++ before.structural.keys) fun path =>
    match changed.lookup path with
    | some desired => desired.bind (reading.resource configuration path)
    | none => before.structural.lookup path

/-- The files that become records when the configuration changes. -/
def addedRecord? (tree : Tree) (before : CollectionSnapshot) (configuration path : Text) :
    Option Text :=
  if reading.isScannedFile tree before.configuration path &&
      (reading.settings configuration).isRecordPath path &&
        !(reading.settings before.configuration).isRecordPath path then
    (tree.node path).document?
  else none

/-- The configured views after the change. -/
def configuredView? (tree : Tree) (before : CollectionSnapshot) (reconfigured : Bool)
    (configuration path : Text) : Option Text :=
  if reconfigured then
    if isBase path && reading.isConfiguredView configuration path then
      (tree.node path).document?.map fun document => (before.document? path).getD document
    else none
  else if isNote path then none
  else before.views.lookup path

/-- The files of records that are read under the new definitions: those of the records and of
the saved views before, and those that become records. -/
def reread? (tree : Tree) (before : CollectionSnapshot) (reconfigured : Bool)
    (configuration path : Text) : Option Text :=
  (((before.records.lookup path).map (·.document)).or
    (if isNote path then before.views.lookup path else none)).or
      (if reconfigured then reading.addedRecord? tree before configuration path else none)

/-- `definition_change_snapshot`, of the files that the change writes, with their documents, or
removes. -/
def predict (tree : Tree) (before : CollectionSnapshot) (changed : KeyedMap Text (Option Text)) :
    Option CollectionSnapshot :=
  match (changed.lookup configurationPath).getD (some before.configuration) with
  | none => none
  | some configuration =>
    let kind := definitionKind (reading.settings configuration)
      (reading.isConfiguredSource configuration)
    if changed.keys.all fun path => path = configurationPath || (kind path).isSome then
      let structural := reading.changedResources before changed configuration
      let definitions := definitions configuration structural
      let reconfigured := (changed.lookup configurationPath).isSome
      let paths := before.records.keys ++ before.views.keys ++ tree.files.map (·.1)
      some
        { configuration := configuration
          structural := structural
          views := KeyedMap.tabulate paths fun path =>
            (reading.configuredView? tree before reconfigured configuration path).or
              ((reading.reread? tree before reconfigured configuration path).bind
                (reading.savedView? definitions path))
          records := KeyedMap.tabulate paths fun path =>
            (reading.reread? tree before reconfigured configuration path).bind
              (reading.record? definitions path) }
    else none

end DefinitionReading

/-- A file that is one of a record. -/
def DefinitionReading.isRecordFile (tree : Tree) (configuration path : Text) : Bool :=
  tree.isScanned (reading.settings configuration) path && (tree.node path).document?.isSome

/-- A change of definitions, with the snapshot that is predicted of it and the one that is
captured after it. It may add extensions of records and change what views are configured, and
leaves the other settings and the configurations of folders as they are. -/
structure DefinitionChange where
  tree : Tree
  afterTree : Tree
  before : CollectionSnapshot
  captured : reading.capture tree = some before
  /-- The files that the change writes, with their documents, or removes. -/
  changed : KeyedMap Text (Option Text)
  differs : ∀ path desired, changed.lookup path = some desired →
    desired ≠ (tree.node path).document?
  documents : ∀ path, (afterTree.node path).document? =
    (changed.lookup path).getD (tree.node path).document?
  /-- The configuration after the change. -/
  configuration : Text
  isConfiguration : (afterTree.node configurationPath).document? = some configuration
  rootedBefore : tree.IsRooted
  rootedAfter : afterTree.IsRooted
  named : ∀ path, tree.node path ≠ .absent →
    ∀ component ∈ components path, component ≠ [] ∧ component ≠ ['.']
  fences : ∀ folder, tree.node (configurationOf folder) = afterTree.node (configurationOf folder)
  settings : reading.settings configuration =
    { reading.settings before.configuration with
      extensions := (reading.settings configuration).extensions }
  extensions : (reading.settings before.configuration).extensions ⊆
    (reading.settings configuration).extensions
  predicted : CollectionSnapshot
  isPredicted : reading.predict tree before changed = some predicted
  recaptured : CollectionSnapshot
  isRecaptured : reading.capture afterTree = some recaptured

namespace DefinitionChange

variable {reading} (change : DefinitionChange reading)

/-- A path is one of definitions or of a record: what the change writes is no record, and what
becomes a record was no resource. -/
def KeepsApart (path : Text) : Prop :=
  if (change.changed.lookup path).isSome then
    reading.isRecordFile change.tree change.before.configuration path = false ∧
      reading.isRecordFile change.afterTree change.configuration path = false
  else
    reading.isRecordFile change.afterTree change.configuration path = true →
      reading.isRecordFile change.tree change.before.configuration path = true ∨
        structuralResourceKind (reading.settings change.before.configuration)
          (reading.isConfiguredSource change.before.configuration) path = none

end DefinitionChange

theorem Tree.lookup_tabulate {value : Type} (tree : Tree) (read : Text → Text → Option value)
    (path : Text) :
    (tree.tabulate read).lookup path = (tree.node path).document?.bind (read path) := by
  rw [Tree.tabulate, KeyedMap.lookup_tabulate]
  split
  next => rfl
  rename_i missing
  cases document : (tree.node path).document? with
  | none => rfl
  | some document =>
    rw [← Tree.at?_files] at document
    exact absurd (mem_of_at? document) missing

variable {reading}

/-- What a captured snapshot holds. -/
structure DefinitionReading.Captures (reading : DefinitionReading) (tree : Tree)
    (snapshot : CollectionSnapshot) : Prop where
  configuration : (tree.node configurationPath).document? = some snapshot.configuration
  structural : ∀ path, snapshot.structural.lookup path =
    (tree.node path).document?.bind (reading.resource snapshot.configuration path)
  views : ∀ path, snapshot.views.lookup path = (tree.node path).document?.bind fun document =>
    if reading.isConfiguredView snapshot.configuration path then some document
    else if tree.isScanned (reading.settings snapshot.configuration) path then
      reading.savedView? (definitions snapshot.configuration snapshot.structural) path document
    else none
  records : ∀ path, snapshot.records.lookup path = (tree.node path).document?.bind fun document =>
    if tree.isScanned (reading.settings snapshot.configuration) path then
      reading.record? (definitions snapshot.configuration snapshot.structural) path document
    else none

theorem DefinitionReading.captures_of_capture {tree : Tree} {snapshot : CollectionSnapshot}
    (captured : reading.capture tree = some snapshot) : reading.Captures tree snapshot := by
  unfold DefinitionReading.capture at captured
  split at captured
  next configuration here =>
    cases captured
    exact
      { configuration := congrArg Node.document? here
        structural := fun path => tree.lookup_tabulate _ path
        views := fun path => tree.lookup_tabulate _ path
        records := fun path => tree.lookup_tabulate _ path }
  all_goals cases captured

theorem definitionKind_congr {settings other : PathSettings}
    (same : other = { settings with extensions := other.extensions })
    (isConfigured isConfiguredOther : Text → Bool) (path : Text) :
    definitionKind other isConfiguredOther path = definitionKind settings isConfigured path := by
  rw [same]
  unfold definitionKind structuralResourceKind
  dsimp only
  split_ifs <;> rfl

theorem isSuffix_intercalate (separator : Text) (parts : List Text) (last : Text) :
    last <:+ separator.intercalate (parts ++ [last]) := by
  induction parts with
  | nil => simp
  | cons part rest ih =>
    refine ih.trans ?_
    cases more : rest ++ [last] with
    | nil => simp at more
    | cons next further =>
      rw [List.cons_append, more, List.intercalate_cons_cons]
      exact ⟨part ++ separator, by simp⟩

theorem isSuffix_of_beforeLastDot {name : Text} (stem : beforeLastDot name ≠ []) :
    '.' :: name.drop ((beforeLastDot name).length + 1) <:+ name := by
  have nonempty : name.rdropWhile (· ≠ '.') ≠ [] := fun empty => stem (by
    rw [beforeLastDot, empty]
    rfl)
  have dot : (name.rdropWhile (· ≠ '.')).getLast nonempty = '.' := by
    simpa using List.rdropWhile_last_not _ _ nonempty
  have stemmed : beforeLastDot name ++ ['.'] = name.rdropWhile (· ≠ '.') := by
    have whole := List.dropLast_append_getLast nonempty
    rwa [dot] at whole
  obtain ⟨rest, parts⟩ := List.rdropWhile_prefix (· ≠ '.') (l := name)
  rw [← stemmed, List.append_assoc, List.singleton_append] at parts
  generalize beforeLastDot name = stem at parts ⊢
  subst parts
  rw [List.drop_append, List.drop_eq_nil_of_le (Nat.le_succ _), List.nil_append,
    Nat.add_sub_cancel_left]
  exact List.suffix_append _ _

theorem isSuffix_of_pathExtension {path extension : Text}
    (named : ∀ component ∈ components path, component ≠ [] ∧ component ≠ ['.'])
    (found : pathExtension path = some extension) : '.' :: extension <:+ path := by
  obtain ⟨name, isName, dotted⟩ := Option.bind_eq_some_iff.mp found
  have whole : (components path).filter (fun component =>
      component ≠ [] ∧ component ≠ ['.']) = components path :=
    List.filter_eq_self.mpr fun component member => by simpa using named component member
  rw [fileName, String.toList_ofList, whole] at isName
  have last := (Option.filter_eq_some_iff.mp isName).1
  obtain ⟨start, split⟩ := List.getLast?_eq_some_iff.mp last
  have inPath : name <:+ path := by
    have joined : ['/'].intercalate (components path) = path := List.intercalate_splitOn '/'
    rw [split] at joined
    conv_rhs => rw [← joined]
    exact isSuffix_intercalate _ _ _
  refine List.IsSuffix.trans ?_ inPath
  split at dotted
  next => cases dotted
  next stem =>
    cases dotted
    exact isSuffix_of_beforeLastDot stem

theorem DefinitionReading.of_isConfiguredView {configuration path : Text}
    (view : reading.isConfiguredView configuration path = true) :
    pathExtension path = some "base".toList ∧
      (reading.settings configuration).isRecordPath path = false := by
  have kind := of_decide_eq_true view
  unfold structuralResourceKind at kind
  repeat' split at kind
  next => cases kind
  next => cases kind
  next => cases kind
  next => cases kind
  next base =>
    simp only [Bool.and_eq_true, Bool.not_eq_true', decide_eq_true_eq] at base
    exact ⟨base.1.1.1, by rw [PathSettings.isRecordPath, base.1.1.2, Bool.and_false]⟩
  next => cases kind

theorem isNote_of_isBase {path : Text} (base : isBase path = true) : isNote path = false := by
  obtain ⟨start, rfl⟩ := List.isSuffixOf_iff_suffix.mp base
  refine Bool.eq_false_iff.mpr fun note => ?_
  obtain ⟨other, same⟩ := List.isSuffixOf_iff_suffix.mp note
  have last := congrArg List.getLast? same
  simp at last

namespace DefinitionChange

variable (change : DefinitionChange reading)

theorem capturesBefore : reading.Captures change.tree change.before :=
  DefinitionReading.captures_of_capture change.captured

theorem capturesAfter : reading.Captures change.afterTree change.recaptured :=
  DefinitionReading.captures_of_capture change.isRecaptured

theorem unknown (path : Text) (unlisted : path ∉ change.before.records.keys ++
    change.before.views.keys ++ change.tree.files.map (·.1)) (reconfigured : Bool)
    (configuration : Text) :
    reading.configuredView? change.tree change.before reconfigured configuration path = none ∧
      reading.reread? change.tree change.before reconfigured configuration path = none := by
  simp only [List.mem_append, not_or, KeyedMap.mem_keys, not_not] at unlisted
  obtain ⟨⟨record, view⟩, file⟩ := unlisted
  have absent : (change.tree.node path).document? = none := by
    cases document : (change.tree.node path).document? with
    | none => rfl
    | some document =>
      rw [← Tree.at?_files] at document
      exact absurd (mem_of_at? document) file
  simp [DefinitionReading.configuredView?, DefinitionReading.reread?,
    DefinitionReading.addedRecord?, record, view, absent]

/-- What a predicted snapshot holds: the configuration, the resources, the views and the records. -/
theorem predicts :
    (change.changed.lookup configurationPath).getD (some change.before.configuration) =
        some change.predicted.configuration ∧
      (∀ path desired, change.changed.lookup path = some desired → path ≠ configurationPath →
        definitionKind (reading.settings change.predicted.configuration)
          (reading.isConfiguredSource change.predicted.configuration) path ≠ none) ∧
      change.predicted.structural = reading.changedResources change.before change.changed
        change.predicted.configuration ∧
      (∀ path, change.predicted.views.lookup path =
        (reading.configuredView? change.tree change.before
          (change.changed.lookup configurationPath).isSome change.predicted.configuration path).or
            ((reading.reread? change.tree change.before
              (change.changed.lookup configurationPath).isSome change.predicted.configuration
                path).bind (reading.savedView?
                  (definitions change.predicted.configuration change.predicted.structural) path))) ∧
      ∀ path, change.predicted.records.lookup path =
        (reading.reread? change.tree change.before
          (change.changed.lookup configurationPath).isSome change.predicted.configuration
            path).bind (reading.record?
              (definitions change.predicted.configuration change.predicted.structural) path) := by
  have predicted := change.isPredicted
  unfold DefinitionReading.predict at predicted
  split at predicted
  next => cases predicted
  rename_i configuration here
  dsimp only at predicted
  split at predicted
  next kinds =>
    have known := change.unknown
    rw [← Option.some.inj predicted]
    refine ⟨here, fun path desired found other none_ => ?_, rfl, fun path => ?_, fun path => ?_⟩
    · have listed : path ∈ change.changed.keys := KeyedMap.mem_keys.mpr (by rw [found]; nofun)
      have kind := List.all_eq_true.mp kinds path listed
      simp [other, none_] at kind
    · rw [KeyedMap.lookup_tabulate]
      split
      next => rfl
      next unlisted =>
        rw [(known path unlisted _ _).1, (known path unlisted _ _).2]
        rfl
    · rw [KeyedMap.lookup_tabulate]
      split
      next => rfl
      next unlisted =>
        rw [(known path unlisted _ _).2]
        rfl
  next => cases predicted

theorem configurations : change.predicted.configuration = change.configuration ∧
    change.recaptured.configuration = change.configuration := by
  have here := change.documents configurationPath
  rw [change.isConfiguration, change.capturesBefore.configuration, change.predicts.1] at here
  have captured := change.capturesAfter.configuration
  rw [change.isConfiguration] at captured
  exact ⟨(Option.some.inj here).symm, (Option.some.inj captured).symm⟩

theorem configuration_of_unwritten
    (unwritten : (change.changed.lookup configurationPath).isSome = false) :
    change.configuration = change.before.configuration := by
  have here := change.predicts.1
  rw [Option.isSome_eq_false_iff.mp unwritten |> Option.isNone_iff_eq_none.mp] at here
  rw [← change.configurations.1]
  exact (Option.some.inj here).symm

theorem definitionKind_eq (path : Text) :
    definitionKind (reading.settings change.configuration)
        (reading.isConfiguredSource change.configuration) path =
      definitionKind (reading.settings change.before.configuration)
        (reading.isConfiguredSource change.before.configuration) path :=
  definitionKind_congr change.settings _ _ path

variable {path : Text}

theorem definitionKind_of_changed {desired : Option Text}
    (written : change.changed.lookup path = some desired) (other : path ≠ configurationPath) :
    definitionKind (reading.settings change.configuration)
      (reading.isConfiguredSource change.configuration) path ≠ none := by
  have kind := change.predicts.2.1 path desired written other
  rwa [change.configurations.1] at kind

theorem structural_eq : change.predicted.structural = change.recaptured.structural := by
  refine KeyedMap.ext_lookup fun path => ?_
  rw [change.predicts.2.2.1, change.capturesAfter.structural, change.configurations.1,
    change.configurations.2, change.documents, DefinitionReading.changedResources,
    KeyedMap.lookup_tabulate]
  cases written : change.changed.lookup path with
  | some desired =>
    have listed : path ∈ change.changed.keys := KeyedMap.mem_keys.mpr (by rw [written]; nofun)
    rw [if_pos (List.mem_append_left _ listed)]
    rfl
  | none =>
    have same : reading.resource change.configuration path =
        reading.resource change.before.configuration path := by
      funext document
      rw [DefinitionReading.resource, DefinitionReading.resource, change.definitionKind_eq]
    rw [Option.getD_none, same, ← change.capturesBefore.structural]
    split
    next => rfl
    rename_i unlisted
    rw [List.mem_append, not_or, KeyedMap.mem_keys, KeyedMap.mem_keys, not_not, not_not]
      at unlisted
    exact unlisted.2.symm

theorem document?_before (path : Text) : change.before.document? path = none ∨
    change.before.document? path = (change.tree.node path).document? := by
  rw [CollectionSnapshot.document?, change.capturesBefore.structural, change.capturesBefore.views]
  cases (change.tree.node path).document? with
  | none => exact .inl rfl
  | some document =>
    have resource : (reading.resource change.before.configuration path document).map
        (·.document) = none ∨ (reading.resource change.before.configuration path document).map
          (·.document) = some document := by
      unfold DefinitionReading.resource
      split
      next => exact .inl rfl
      cases definitionKind _ _ path with
      | none => exact .inl rfl
      | some kind => exact .inr rfl
    rw [Option.bind_some, Option.bind_some, DefinitionReading.savedView?]
    rcases resource with resource | resource <;> rw [resource]
    · split_ifs <;> simp
    · exact .inr rfl

theorem unwritten_of_isConfiguredView
    (view : reading.isConfiguredView change.configuration path = true) :
    change.changed.lookup path = none := by
  by_contra written
  obtain ⟨desired, written⟩ := Option.ne_none_iff_exists'.mp written
  refine change.definitionKind_of_changed written (fun same => ?_) ?_
  · have extension := (DefinitionReading.of_isConfiguredView view).1
    rw [same] at extension
    exact absurd extension (by decide)
  · rw [definitionKind, of_decide_eq_true view]
    rfl

theorem isBase_of_isConfiguredView {configuration path : Text}
    (present : change.tree.node path ≠ .absent)
    (view : reading.isConfiguredView configuration path = true) : isBase path = true :=
  List.isSuffixOf_iff_suffix.mpr
    (isSuffix_of_pathExtension (change.named path present)
      (DefinitionReading.of_isConfiguredView view).1)

theorem configuredView?_eq (path : Text) :
    reading.configuredView? change.tree change.before
        (change.changed.lookup configurationPath).isSome change.configuration path =
      if reading.isConfiguredView change.configuration path then
        (change.afterTree.node path).document?
      else none := by
  have unwritten : reading.isConfiguredView change.configuration path = true →
      (change.afterTree.node path).document? = (change.tree.node path).document? := by
    intro view
    rw [change.documents, change.unwritten_of_isConfiguredView view, Option.getD_none]
  have isBase : reading.isConfiguredView change.configuration path = true → ∀ document,
      (change.tree.node path).document? = some document → isBase path = true := by
    intro view document here
    refine change.isBase_of_isConfiguredView (fun absent => ?_) view
    rw [absent] at here
    cases here
  unfold DefinitionReading.configuredView?
  cases here : (change.tree.node path).document? with
  | none =>
    have views : change.before.views.lookup path = none := by
      rw [change.capturesBefore.views, here, Option.bind_none]
    rw [here] at unwritten
    rw [views, Option.map_none, ite_self, ite_self, ite_self]
    split_ifs with view
    · exact (unwritten view).symm
    · rfl
  | some document =>
    rw [here] at unwritten
    split
    next =>
      have known : (change.before.document? path).getD document = document := by
        rcases change.document?_before path with known | known <;> rw [known]
        · rfl
        · rw [here, Option.getD_some]
      rw [Option.map_some, known]
      by_cases view : reading.isConfiguredView change.configuration path = true
      · rw [isBase view document here, view, unwritten view]
        rfl
      · rw [if_neg view, if_neg (by simp [view])]
    rename_i written
    have stays := change.configuration_of_unwritten (Bool.not_eq_true _ ▸ written)
    rw [stays] at unwritten isBase ⊢
    rw [change.capturesBefore.views, here, Option.bind_some, DefinitionReading.savedView?,
      DefinitionReading.isSavedView]
    by_cases view : reading.isConfiguredView change.before.configuration path = true
    · rw [if_pos view, if_pos view, unwritten view, isNote_of_isBase (isBase view document here)]
      rfl
    · rw [if_neg view, if_neg view]
      cases isNote path <;> simp

theorem reread_before (path : Text) :
    ((change.before.records.lookup path).map (·.document)).or
        (if isNote path then change.before.views.lookup path else none) =
      if change.tree.isScanned (reading.settings change.before.configuration) path then
        (change.tree.node path).document?
      else none := by
  rw [change.capturesBefore.records, change.capturesBefore.views]
  cases here : (change.tree.node path).document? with
  | none => simp
  | some document =>
    have base : reading.isConfiguredView change.before.configuration path = true →
        isNote path = false := by
      refine fun view =>
        isNote_of_isBase (change.isBase_of_isConfiguredView (fun absent => ?_) view)
      rw [absent] at here
      cases here
    rw [Option.bind_some, Option.bind_some, DefinitionReading.record?,
      DefinitionReading.savedView?, DefinitionReading.isSavedView]
    by_cases view : reading.isConfiguredView change.before.configuration path = true
    · have unscanned : change.tree.isScanned (reading.settings change.before.configuration)
          path = false := by
        rw [Tree.isScanned, (DefinitionReading.of_isConfiguredView view).2, Bool.and_false]
      simp [base view, unscanned]
    · rw [if_neg view]
      cases change.tree.isScanned (reading.settings change.before.configuration) path with
      | false => simp
      | true =>
        cases isNote path with
        | false => simp
        | true => cases reading.isCanonicalView _ path document <;> simp

theorem isEntered_eq : change.tree.isEntered (reading.settings change.configuration) =
    change.tree.isEntered (reading.settings change.before.configuration) := by
  rw [change.settings]
  rfl

theorem isExcluded_eq (path : Text) :
    (reading.settings change.configuration).isExcluded path =
      (reading.settings change.before.configuration).isExcluded path := by
  rw [change.settings]
  rfl

theorem isRecordPath_of_before
    (record : (reading.settings change.before.configuration).isRecordPath path = true) :
    (reading.settings change.configuration).isRecordPath path = true := by
  rw [PathSettings.isRecordPath, Bool.and_eq_true] at record ⊢
  rw [change.isExcluded_eq]
  refine ⟨record.1, ?_⟩
  have valid := record.2
  rw [PathSettings.isValidExtension, Bool.or_eq_true, List.any_eq_true] at valid ⊢
  rcases valid with note | ⟨extension, member, ends⟩
  · exact .inl note
  · exact .inr ⟨extension, change.extensions member, ends⟩

theorem addedRecord?_eq (path : Text) :
    reading.addedRecord? change.tree change.before change.configuration path =
      if !change.tree.isScanned (reading.settings change.before.configuration) path &&
          (change.tree.isScanned (reading.settings change.configuration) path &&
            (structuralResourceKind (reading.settings change.before.configuration)
              (reading.isConfiguredSource change.before.configuration) path).isNone) then
        (change.tree.node path).document?
      else none := by
  unfold DefinitionReading.addedRecord? DefinitionReading.isScannedFile isFilePath Tree.isScanned
    PathSettings.isRecordPath
  rw [change.isExcluded_eq, change.isEntered_eq]
  refine if_congr (Bool.eq_iff_iff.mp ?_) rfl rfl
  generalize (ancestors path).all _ = entered
  generalize (collectionPath _).isOk = proper
  generalize hasHiddenComponent path = hidden
  generalize PathSettings.isExcluded _ path = excluded
  generalize (reading.settings change.configuration).isValidExtension path = valid
  generalize (reading.settings change.before.configuration).isValidExtension path = wasValid
  generalize Option.isNone _ = free
  revert entered proper hidden excluded valid wasValid free
  decide

/-- The files that are read again are those of the records before, and those that become
records and were no resources. -/
theorem reread?_eq (path : Text) :
    reading.reread? change.tree change.before
        (change.changed.lookup configurationPath).isSome change.configuration path =
      if change.tree.isScanned (reading.settings change.before.configuration) path ||
          (change.tree.isScanned (reading.settings change.configuration) path &&
            (structuralResourceKind (reading.settings change.before.configuration)
              (reading.isConfiguredSource change.before.configuration) path).isNone) then
        (change.tree.node path).document?
      else none := by
  rw [DefinitionReading.reread?, change.reread_before, change.addedRecord?_eq]
  cases written : (change.changed.lookup configurationPath).isSome with
  | true => cases change.tree.isScanned (reading.settings change.before.configuration) path <;> simp
  | false =>
    rw [change.configuration_of_unwritten written]
    cases change.tree.isScanned (reading.settings change.before.configuration) path <;> simp

/-- The file at a path after the change, if it is one of a record. -/
def recordFile? (path : Text) : Option Text :=
  if change.afterTree.isScanned (reading.settings change.configuration) path then
    (change.afterTree.node path).document?
  else none

theorem not_added_of_written {desired : Option Text}
    (written : change.changed.lookup path = some desired) :
    (change.tree.isScanned (reading.settings change.configuration) path &&
      (structuralResourceKind (reading.settings change.before.configuration)
        (reading.isConfiguredSource change.before.configuration) path).isNone) = false := by
  by_cases other : path = configurationPath
  · have excluded : (reading.settings change.configuration).isExcluded path = true := by
      rw [other, PathSettings.isExcluded, Bool.or_eq_true, Bool.or_eq_true]
      exact .inl (.inr (decide_eq_true List.mem_cons_self))
    rw [Tree.isScanned, PathSettings.isRecordPath, excluded, Bool.not_true, Bool.and_false,
      Bool.false_and, Bool.and_false, Bool.false_and]
  · have kind := change.definitionKind_of_changed written other
    rw [change.definitionKind_eq, definitionKind] at kind
    cases found : structuralResourceKind (reading.settings change.before.configuration)
        (reading.isConfiguredSource change.before.configuration) path with
    | none => exact absurd (by rw [found]; rfl) kind
    | some _ => exact Bool.and_false _

theorem ite_eq_none_iff (scanned : Bool) (document : Option Text) :
    (if scanned then document else none) = none ↔ (scanned && document.isSome) = false := by
  cases scanned <;> cases document <;> simp

/-- A file is re-read as it stands exactly if the path is kept apart. -/
theorem reread?_eq_recordFile?_iff (path : Text) :
    reading.reread? change.tree change.before
        (change.changed.lookup configurationPath).isSome change.configuration path =
      change.recordFile? path ↔ change.KeepsApart path := by
  have grows : change.tree.isScanned (reading.settings change.before.configuration) path = true →
      change.tree.isScanned (reading.settings change.configuration) path = true := by
    rw [Tree.isScanned, Tree.isScanned, change.isEntered_eq]
    intro scanned
    obtain ⟨entered, record⟩ := Bool.and_eq_true_iff.mp scanned
    exact Bool.and_eq_true_iff.mpr ⟨entered, change.isRecordPath_of_before record⟩
  rw [change.reread?_eq, recordFile?, change.documents, KeepsApart, DefinitionReading.isRecordFile,
    DefinitionReading.isRecordFile, change.documents]
  cases written : change.changed.lookup path with
  | none =>
    rw [Option.getD_none,
      if_neg (show ¬(none : Option (Option Text)).isSome = true from Bool.false_ne_true)]
    cases here : (change.tree.node path).document? with
    | none => simp
    | some document =>
      have after := change.documents path
      rw [written, Option.getD_none, here] at after
      rw [Tree.isScanned_congr change.rootedBefore change.rootedAfter
        (fun folder _ => change.fences folder)
        (fun absent => by rw [absent] at here; cases here)
        (fun absent => by rw [absent] at after; cases after)]
      generalize change.tree.isScanned _ path = scanned at grows ⊢
      generalize change.tree.isScanned _ path = wasScanned at grows ⊢
      cases structuralResourceKind _ _ path <;> cases scanned <;> cases wasScanned <;> simp_all
  | some desired =>
    have differs := change.differs path desired written
    rw [Option.getD_some, if_pos (show (some desired).isSome = true from rfl),
      change.not_added_of_written written, Bool.or_false, ← ite_eq_none_iff, ← ite_eq_none_iff]
    constructor
    · intro same
      split_ifs at same ⊢
      · exact absurd same.symm differs
      · exact ⟨same, rfl⟩
      · exact ⟨rfl, same.symm⟩
      · exact ⟨rfl, rfl⟩
    · rintro ⟨none_, noneAfter⟩
      rw [none_, noneAfter]

theorem bind_eq_iff (path : Text) (definitions : Text → Option Text) (left right : Option Text) :
    left.bind (reading.savedView? definitions path) =
          right.bind (reading.savedView? definitions path) ∧
        left.bind (reading.record? definitions path) =
          right.bind (reading.record? definitions path) ↔ left = right := by
  refine ⟨fun ⟨views, records⟩ => ?_, fun same => by rw [same]; exact ⟨rfl, rfl⟩⟩
  unfold DefinitionReading.savedView? at views
  unfold DefinitionReading.record? at records
  rcases left with _ | left <;> rcases right with _ | right
  · rfl
  all_goals
    simp only [Option.bind_some, Option.bind_none] at views records
    split_ifs at views records <;> simp_all

theorem recaptures (path : Text) :
    change.recaptured.views.lookup path =
        (if reading.isConfiguredView change.configuration path then
            (change.afterTree.node path).document?
          else none).or ((change.recordFile? path).bind (reading.savedView?
            (definitions change.configuration change.recaptured.structural) path)) ∧
      change.recaptured.records.lookup path = (change.recordFile? path).bind (reading.record?
        (definitions change.configuration change.recaptured.structural) path) := by
  rw [change.capturesAfter.views, change.capturesAfter.records, change.configurations.2,
    recordFile?]
  cases (change.afterTree.node path).document? with
  | none => simp
  | some document =>
    by_cases view : reading.isConfiguredView change.configuration path = true
    · have unscanned : change.afterTree.isScanned (reading.settings change.configuration) path =
          false := by
        rw [Tree.isScanned, (DefinitionReading.of_isConfiguredView view).2, Bool.and_false]
      simp [view, unscanned]
    · cases change.afterTree.isScanned (reading.settings change.configuration) path <;> simp [view]

theorem or_configuredView_iff (path : Text) (definitions : Text → Option Text)
    (left right : Option Text) :
    left.bind (reading.savedView? definitions path) =
        right.bind (reading.savedView? definitions path) ↔
      (if reading.isConfiguredView change.configuration path then
          (change.afterTree.node path).document?
        else none).or (left.bind (reading.savedView? definitions path)) =
      (if reading.isConfiguredView change.configuration path then
          (change.afterTree.node path).document?
        else none).or (right.bind (reading.savedView? definitions path)) := by
  by_cases view : reading.isConfiguredView change.configuration path = true
  · rw [change.documents, change.unwritten_of_isConfiguredView view, Option.getD_none, if_pos view]
    cases here : (change.tree.node path).document? with
    | none => rw [Option.none_or, Option.none_or]
    | some document =>
      have base := isNote_of_isBase (change.isBase_of_isConfiguredView
        (fun absent => by rw [absent] at here; cases here) view)
      cases left <;> cases right <;>
        simp [DefinitionReading.savedView?, DefinitionReading.isSavedView, base]
  · rw [if_neg view, Option.none_or, Option.none_or]

/-- The prediction is the snapshot captured afterwards if and only if every path keeps apart
definitions and records. -/
theorem predicted_eq_recaptured_iff :
    change.predicted = change.recaptured ↔ ∀ path, change.KeepsApart path := by
  have predicts := change.predicts
  rw [change.configurations.1, change.structural_eq] at predicts
  obtain ⟨-, -, -, views, records⟩ := predicts
  have files (path : Text) : change.KeepsApart path ↔
      change.predicted.views.lookup path = change.recaptured.views.lookup path ∧
        change.predicted.records.lookup path = change.recaptured.records.lookup path := by
    rw [views, records, (change.recaptures path).1, (change.recaptures path).2,
      change.configuredView?_eq, ← change.reread?_eq_recordFile?_iff, ← bind_eq_iff path
        (definitions change.configuration change.recaptured.structural)]
    exact and_congr_left fun _ => change.or_configuredView_iff path _ _ _
  simp only [files]
  constructor
  · rintro same path
    rw [same]
    exact ⟨rfl, rfl⟩
  · intro same
    have configuration := change.configurations.1.trans change.configurations.2.symm
    have structural := change.structural_eq
    have views := KeyedMap.ext_lookup fun path => (same path).1
    have records := KeyedMap.ext_lookup fun path => (same path).2
    cases predicted : change.predicted
    cases recaptured : change.recaptured
    simp only [predicted, recaptured] at configuration structural views records
    rw [configuration, structural, views, records]

end DefinitionChange

/-- Bases below `views` are configured views, and records once a setup adds their extension. -/
def baseReading : DefinitionReading where
  settings document :=
    { isCanonical := true
      extensions := if "base".toList.isSuffixOf document then ["base".toList] else []
      exclude := []
      includeSubfolders := true
      typesFolder := "_types".toList
      contractsFolder := "_contracts".toList
      migrationsFolder := "_migrations".toList
      cacheFolder := ".mdbase".toList }
  isConfiguredSource _ path := startsWith "views/".toList path
  types _ _ _ := []
  isCanonicalView _ _ _ := false

/-- A collection with a view. -/
def baseTree (configuration : String) : Tree where
  entries :=
    [(configurationPath, .file configuration.toList), ("views".toList, .directory),
      ("views/tasks.base".toList, .file "filters: []".toList)]

theorem baseTree_node (configuration other : String) {path : Text}
    (elsewhere : path ≠ configurationPath) :
    (baseTree configuration).node path = (baseTree other).node path := by
  have first : decide (configurationPath = path) = false :=
    decide_eq_false fun same => elsewhere same.symm
  simp [baseTree, Tree.node, List.find?_cons, first]

/-- A setup adds bases to the extensions of records. -/
def baseChange : DefinitionChange baseReading where
  tree := baseTree "x-obsidian: {}"
  afterTree := baseTree "record_extensions: base"
  before := (baseReading.capture (baseTree "x-obsidian: {}")).get (by decide +kernel)
  captured := (Option.some_get _).symm
  changed := KeyedMap.tabulate [configurationPath] fun _ =>
    some (some "record_extensions: base".toList)
  differs := fun path desired written => by
    rw [KeyedMap.lookup_tabulate] at written
    split_ifs at written with here
    cases Option.some.inj written
    rw [List.mem_singleton.mp here]
    decide +kernel
  documents := fun path => by
    rw [KeyedMap.lookup_tabulate]
    split
    next here =>
      rw [List.mem_singleton.mp here]
      decide +kernel
    next elsewhere =>
      rw [baseTree_node _ "x-obsidian: {}" fun same => elsewhere (List.mem_singleton.mpr same)]
      rfl
  configuration := "record_extensions: base".toList
  isConfiguration := by decide +kernel
  rootedBefore := Tree.isRooted_of_entries (by decide +kernel)
  rootedAfter := Tree.isRooted_of_entries (by decide +kernel)
  named := fun path present => by
    have proper : ∀ path ∈ (baseTree "x-obsidian: {}").entries.map (·.1),
        ∀ component ∈ components path, component ≠ [] ∧ component ≠ ['.'] := by decide +kernel
    exact proper path (Tree.mem_of_node present)
  fences := fun folder => by
    refine baseTree_node _ _ fun same => ?_
    have slash : '/' ∈ configurationOf folder := List.mem_append_right _ List.mem_cons_self
    rw [same] at slash
    exact absurd slash (by decide)
  settings := rfl
  extensions := by decide +kernel
  predicted := (baseReading.predict (baseTree "x-obsidian: {}")
    ((baseReading.capture (baseTree "x-obsidian: {}")).get (by decide +kernel))
    (KeyedMap.tabulate [configurationPath] fun _ =>
      some (some "record_extensions: base".toList))).get (by decide +kernel)
  isPredicted := (Option.some_get _).symm
  recaptured := (baseReading.capture (baseTree "record_extensions: base")).get (by decide +kernel)
  isRecaptured := (Option.some_get _).symm

/-- The view that becomes a record is lost. -/
theorem predicted_ne_recaptured_base : baseChange.predicted ≠ baseChange.recaptured := by
  intro same
  have records := congrArg (fun snapshot => snapshot.records.keys) same
  have predicted : baseChange.predicted.records.keys = [] := by decide +kernel
  have recaptured : baseChange.recaptured.records.keys = ["views/tasks.base".toList] := by
    decide +kernel
  rw [predicted, recaptured] at records
  cases records

end Mdbase.Watch
