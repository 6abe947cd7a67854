import Mdbase.Cache.Maintenance

/-!
# Conflicts from the cache

The cache answers whether a record may hold its unique values: a comparison set is looked up
among the rows of its key, an identity by the one row of its value. The rows of the keys are
those of the records after any history, so the fields are answered as a check of the whole
corpus answers them. The row of an identity names the record that was indexed last with it.
-/

namespace Mdbase.Cache

open Library
open Mdbase.Runtime (Value)
open Mdbase.Query (CatalogError)
open Mdbase.Provider (ChangeBatch)
open Mdbase.Validation (UniqueSetKey UniqueCorpusEntry uniqueMemberships uniqueRequirements
  uniqueValueIssues corpusUniqueValueIssues HeldBeside withForwardSlashes
  mem_uniqueValueIssues mem_corpusUniqueValueIssues)

/-- `SpecProfile`. -/
inductive SpecProfile where
  | v02
  | v03
  deriving DecidableEq

/-- `identity_field`. -/
def IndexedCollection.identityField (collection : IndexedCollection) (profile : SpecProfile) :
    Option String :=
  if profile ≠ .v03 then some collection.idField else none

/-- `UniqueConflictKind`. -/
inductive UniqueConflictKind where
  | identity
  | field (typeName fieldName : String)
  deriving DecidableEq

/-- `UniqueConflict`. -/
structure UniqueConflict where
  kind : UniqueConflictKind
  value : String
  path : String
  deriving DecidableEq

/-- The conflict of a record's identity with its row. -/
def IndexedCollection.identityConflict (collection : IndexedCollection) (profile : SpecProfile)
    (tables : CacheTables) (frontmatter : Value) (excludePath : String) :
    Option UniqueConflict :=
  (((collection.identityField profile).bind frontmatter.get).bind
    (canonicalUniqueValue collection.library.uniqueness)).bind fun value =>
      ((tables.identityValues.find? fun row => row.1 = value).filter
        fun row => row.2 ≠ excludePath).map fun row =>
          { kind := .identity, value := value, path := row.2 }

/-- The conflict of a required key with the first other record in its comparison set. -/
def CacheTables.fieldConflict (tables : CacheTables) (excludePath : String)
    (requirement : UniqueSetKey × String) : Option UniqueConflict :=
  (((tables.uniqueKeys.filter fun row => row.1 = requirement.1 ∧ row.2 ≠ excludePath).map
    Prod.snd).insertionSort (· ≤ ·)).head?.map fun path =>
      { kind := .field requirement.2 requirement.1.field
        value := requirement.1.value
        path := path }

/-- `uniqueness_conflicts`. -/
def IndexedCollection.uniquenessConflicts (collection : IndexedCollection)
    (profile : SpecProfile) (tables : CacheTables) (frontmatter : Value)
    (typeNames : List String) (excludePath : String) : List UniqueConflict :=
  (collection.identityConflict profile tables frontmatter excludePath).toList ++
    (uniqueRequirements collection.library.uniqueness collection.types frontmatter
      typeNames).filterMap (tables.fieldConflict excludePath)

/-- The corpus of the parsed records. -/
def Records.corpus (records : Records) : List UniqueCorpusEntry :=
  records.entries.filterMap fun
    | (path, .parsed _ _ effective _ typeNames) => some ⟨path, effective, typeNames⟩
    | (_, .invalid ..) => none

variable {collection : IndexedCollection} {records : Records} {tables : CacheTables}
  {entry : UniqueCorpusEntry}

/-- The corpus holds exactly the records that can be parsed. -/
theorem Records.mem_corpus :
    entry ∈ records.corpus ↔ ∃ facts raw body,
      records.load entry.path = some (.parsed facts raw entry.effective body entry.types) := by
  unfold corpus load
  rw [List.mem_filterMap]
  constructor
  · rintro ⟨⟨path, outcome⟩, member, found⟩
    cases outcome with
    | invalid => cases found
    | parsed facts raw effective body typeNames =>
      cases found
      have stored := Table.get?_key member
      exact ⟨facts, raw, body, congrArg (Option.map Prod.snd) stored⟩
  · rintro ⟨facts, raw, body, found⟩
    obtain ⟨⟨path, outcome⟩, stored, rfl⟩ := Option.map_eq_some_iff.mp found
    have named : path = entry.path := Table.key_of_get? stored
    subst named
    exact ⟨_, Table.mem_of_get? stored, rfl⟩

theorem Records.distinct_corpus (records : Records) : (records.corpus.map (·.path)).Nodup := by
  have within : (records.corpus.map (·.path)).Sublist records.paths := by
    unfold corpus paths
    induction records.entries with
    | nil => exact .slnil
    | cons first rest ih =>
      obtain ⟨path, outcome⟩ := first
      cases outcome with
      | invalid => exact ih.cons _
      | parsed => exact ih.cons_cons _
  exact (records.sorted_paths.imp ne_of_lt).sublist within

variable {excludePath : String} {requirement : UniqueSetKey × String}

theorem fieldConflict_isSome :
    (tables.fieldConflict excludePath requirement).isSome ↔
      ∃ path, (requirement.1, path) ∈ tables.uniqueKeys ∧ path ≠ excludePath := by
  unfold CacheTables.fieldConflict
  rw [Option.isSome_map, List.isSome_head?, ne_eq, List.eq_nil_iff_forall_not_mem, not_forall]
  simp only [not_not, List.mem_insertionSort, List.mem_map, List.mem_filter, decide_eq_true_eq]
  constructor
  · rintro ⟨_, row, ⟨member, key, apart⟩, rfl⟩
    exact ⟨row.2, key ▸ member, apart⟩
  · rintro ⟨path, member, apart⟩
    exact ⟨path, (requirement.1, path), ⟨member, rfl, apart⟩, rfl⟩

variable {key : UniqueSetKey}

theorem IndexedCollection.Indexed.mem_uniqueKeys (indexed : collection.Indexed records tables)
    {path : String} :
    (key, path) ∈ tables.uniqueKeys ↔
      ∃ other ∈ records.corpus, other.path = path ∧
        key ∈ uniqueMemberships collection.library.uniqueness collection.types other := by
  rw [indexed.contents.uniqueKeys]
  constructor
  · rintro ⟨outcome, loaded, member⟩
    cases outcome with
    | invalid => cases member
    | parsed facts raw effective body typeNames =>
      obtain ⟨contributed, keyMember, same⟩ := List.mem_map.mp member
      obtain rfl : contributed = key := congrArg Prod.fst same
      exact ⟨⟨path, effective, typeNames⟩,
        Records.mem_corpus.mpr ⟨facts, raw, body, loaded⟩, rfl, keyMember⟩
  · rintro ⟨other, member, rfl, held⟩
    obtain ⟨facts, raw, body, loaded⟩ := Records.mem_corpus.mp member
    exact ⟨_, loaded, List.mem_map_of_mem held⟩

theorem IndexedCollection.Indexed.fieldConflict_isSome_iff
    (indexed : collection.Indexed records tables) {typeName : String} :
    (tables.fieldConflict excludePath (key, typeName)).isSome ↔
      HeldBeside collection.library.uniqueness collection.types records.corpus excludePath
        key := by
  rw [fieldConflict_isSome]
  constructor
  · rintro ⟨path, member, apart⟩
    obtain ⟨other, otherMember, rfl, contributed⟩ := indexed.mem_uniqueKeys.mp member
    exact ⟨other, otherMember, apart, contributed⟩
  · rintro ⟨other, otherMember, apart, contributed⟩
    exact ⟨other.path, indexed.mem_uniqueKeys.mpr ⟨other, otherMember, rfl, contributed⟩, apart⟩

/-- A required key of a record that is among the conflicts. -/
def IndexedCollection.ReportsKey (collection : IndexedCollection) (profile : SpecProfile)
    (tables : CacheTables) (entry : UniqueCorpusEntry) (key : UniqueSetKey)
    (typeName : String) : Prop :=
  (key, typeName) ∈ uniqueRequirements collection.library.uniqueness collection.types
      entry.effective entry.types ∧
    ∃ conflict ∈ collection.uniquenessConflicts profile tables entry.effective entry.types
        entry.path,
      tables.fieldConflict entry.path (key, typeName) = some conflict

theorem IndexedCollection.Indexed.reportsKey_iff (indexed : collection.Indexed records tables)
    {profile : SpecProfile} {typeName : String} :
    collection.ReportsKey profile tables entry key typeName ↔
      (key, typeName) ∈ uniqueRequirements collection.library.uniqueness collection.types
          entry.effective entry.types ∧
        HeldBeside collection.library.uniqueness collection.types records.corpus entry.path
          key := by
  rw [← indexed.fieldConflict_isSome_iff, ReportsKey]
  refine and_congr_right fun required => ?_
  rw [Option.isSome_iff_exists]
  constructor
  · rintro ⟨conflict, _, found⟩
    exact ⟨conflict, found⟩
  · rintro ⟨conflict, found⟩
    exact ⟨conflict, List.mem_append_right _ (List.mem_filterMap.mpr ⟨_, required, found⟩), found⟩

/-- An exact step of a history: the records after it and its batch. -/
structure Step where
  records : Records
  batch : ChangeBatch

/-- The records at the end of a history. -/
def lastRecords (start : Records) : List Step → Records
  | [] => start
  | step :: steps => lastRecords step.records steps

/-- Every step of a history tells exactly what changed. -/
def ExactRun (start : Records) : List Step → Prop
  | [] => True
  | step :: steps => start.Exact step.records step.batch ∧ ExactRun step.records steps

/-- The steps of a history are applied to the tables. -/
def IndexedCollection.applySteps (collection : IndexedCollection) (tables : CacheTables) :
    List Step → Except CatalogError CacheTables
  | [] => .ok tables
  | step :: steps =>
    match collection.applyChanges step.records (.exact step.batch) tables with
    | .ok next => collection.applySteps next steps
    | .error error => .error error

/-- A rebuild and the steps after it. -/
def IndexedCollection.replay (collection : IndexedCollection) (start : Records)
    (steps : List Step) : Except CatalogError CacheTables :=
  match collection.rebuild start with
  | .ok tables => collection.applySteps tables steps
  | .error error => .error error

/-- The last of some paths that holds an identity. -/
def IndexedCollection.holderAmong (collection : IndexedCollection) (records : Records)
    (paths : List String) (value : String) : Option String :=
  (paths.filter fun path =>
    ((records.load path).bind fun outcome => (collection.recordRows path outcome).identity) =
      some value).getLast?

/-- The record that was indexed last with an identity, unless it changed since and was not
indexed with it again. -/
def IndexedCollection.recordedHolder (collection : IndexedCollection)
    (recorded : String → Option String) : List Step → String → Option String
  | [], value => recorded value
  | step :: steps, value =>
    collection.recordedHolder (fun value =>
      (collection.holderAmong step.records
        (reindexedPaths step.records (recordChanges step.batch)) value).or
          ((recorded value).filter (· ∉ removedPaths (recordChanges step.batch))))
      steps value

/-- The record that a history indexed last with an identity. -/
def IndexedCollection.indexedLast (collection : IndexedCollection) (start : Records)
    (steps : List Step) : String → Option String :=
  collection.recordedHolder (collection.holderAmong start start.paths) steps

variable {paths : List String}

theorem getLast?_filter_eq_some_iff (sorted : paths.Pairwise (· < ·))
    (holds : String → Bool) (last : String) :
    (paths.filter holds).getLast? = some last ↔
      last ∈ paths ∧ holds last ∧ ∀ other ∈ paths, holds other → other ≤ last := by
  have greatest : ∀ {held : List String}, held.Pairwise (· < ·) → (held.getLast? = some last ↔
      last ∈ held ∧ ∀ other ∈ held, other ≤ last) := by
    intro held ordered
    constructor
    · intro found
      obtain ⟨front, rfl⟩ := List.getLast?_eq_some_iff.mp found
      refine ⟨by simp, fun other member => ?_⟩
      rcases List.mem_append.mp member with member | member
      · exact le_of_lt ((List.pairwise_append.mp ordered).2.2 other member last (by simp))
      · exact (List.mem_singleton.mp member).le
    · rintro ⟨member, above⟩
      obtain ⟨actual, found⟩ := Option.isSome_iff_exists.mp
        (List.getLast?_isSome.mpr (List.ne_nil_of_mem member))
      obtain ⟨front, rfl⟩ := List.getLast?_eq_some_iff.mp found
      rw [found]
      rcases List.mem_append.mp member with inFront | here
      · have below := (List.pairwise_append.mp ordered).2.2 last inFront actual (by simp)
        exact absurd (above actual (by simp)) (not_le_of_gt below)
      · rw [List.mem_singleton.mp here]
  rw [greatest (sorted.filter _)]
  simp only [List.mem_filter, and_imp, and_assoc]

theorem IndexedCollection.holderAmong_eq_some_iff
    (sorted : paths.Pairwise (· < ·)) {value holder : String} :
    collection.holderAmong records paths value = some holder ↔
      collection.LastHolder records.load paths value holder := by
  have holds : ∀ path, (((records.load path).bind fun outcome =>
      (collection.recordRows path outcome).identity) = some value) ↔
        collection.HoldsIdentity records.load value path := by
    intro path
    rw [Option.bind_eq_some_iff]
    rfl
  unfold holderAmong LastHolder
  rw [getLast?_filter_eq_some_iff sorted]
  simp only [decide_eq_true_eq, holds]

theorem IndexedCollection.holderAmong_eq_none_iff {value : String} :
    collection.holderAmong records paths value = none ↔
      ∀ path ∈ paths, ¬collection.HoldsIdentity records.load value path := by
  unfold holderAmong HoldsIdentity
  rw [List.getLast?_eq_none_iff, List.filter_eq_nil_iff]
  simp only [decide_eq_true_eq, Option.bind_eq_some_iff]

/-- The identity rows are those of the recorded holders, and these do hold the values. -/
structure IndexedCollection.Recorded (collection : IndexedCollection) (records : Records)
    (tables : CacheTables) (recorded : String → Option String) : Prop where
  rows : ∀ value holder, (value, holder) ∈ tables.identityValues ↔ recorded value = some holder
  holds : ∀ value holder, recorded value = some holder →
    collection.HoldsIdentity records.load value holder

theorem IndexedCollection.Recorded.of_rebuild {start : Records}
    (built : collection.rebuild start = .ok tables) :
    collection.Recorded start tables (collection.holderAmong start start.paths) := by
  have last : ∀ value holder, collection.holderAmong start start.paths value = some holder ↔
      collection.LastHolder start.load start.paths value holder :=
    fun _ _ => holderAmong_eq_some_iff start.sorted_paths
  refine ⟨fun value holder => ?_, fun value holder recorded => ?_⟩
  · rw [last]
    exact (Current.of_rebuild built).identities value holder
  · exact ((last value holder).mp recorded).2.1

variable {recorded : String → Option String} {out : CacheTables}

theorem IndexedCollection.Recorded.applyChanges {before : Records} {step : Step}
    (holders : collection.Recorded before tables recorded)
    (exact_ : before.Exact step.records step.batch)
    (applied : collection.applyChanges step.records (.exact step.batch) tables = .ok out) :
    collection.Recorded step.records out fun value => (collection.holderAmong step.records
        (reindexedPaths step.records (recordChanges step.batch)) value).or
          ((recorded value).filter (· ∉ removedPaths (recordChanges step.batch))) := by
  rw [exact_.applyChanges_eq] at applied
  obtain ⟨_, rfl⟩ := (resolveLinks_ok_iff _).mp applied
  constructor
  · intro value holder
    change (value, holder) ∈ (collection.reindexChanged _ _ tables).identityValues ↔ _
    rw [reindexChanged, mem_identityValues_reindexFiles (sorted_reindexedPaths _ _),
      mem_identityValues_removeFiles, holders.rows, Option.or_eq_some_iff,
      holderAmong_eq_some_iff (sorted_reindexedPaths _ _), holderAmong_eq_none_iff,
      Option.filter_eq_some_iff]
    refine or_congr_right (and_congr_right fun _ => ?_)
    simp only [decide_eq_true_eq]
    exact ⟨And.left, fun kept =>
      ⟨kept, fun reindexed => kept.2 (removed_of_reindexed reindexed)⟩⟩
  · intro value holder found
    rcases Option.or_eq_some_iff.mp found with reindexed | ⟨_, kept⟩
    · exact ((holderAmong_eq_some_iff (sorted_reindexedPaths _ _)).mp reindexed).2.1
    · obtain ⟨earlier, apart⟩ := Option.filter_eq_some_iff.mp kept
      have same := exact_.load_eq (of_decide_eq_true apart)
      obtain ⟨outcome, loaded, holds⟩ := holders.holds value holder earlier
      exact ⟨outcome, same ▸ loaded, holds⟩

/-- At the end of a history the tables are those of the records, and the identity rows those
of the records that were indexed last. -/
theorem IndexedCollection.indexed_applySteps {before : Records} {steps : List Step}
    (indexed : collection.Indexed before tables)
    (holders : collection.Recorded before tables recorded) (exact_ : ExactRun before steps)
    (applied : collection.applySteps tables steps = .ok out) :
    collection.Indexed (lastRecords before steps) out ∧
      collection.Recorded (lastRecords before steps) out
        (collection.recordedHolder recorded steps) := by
  induction steps generalizing before tables recorded with
  | nil =>
    cases applied
    exact ⟨indexed, holders⟩
  | cons step steps ih =>
    obtain ⟨first, rest⟩ := exact_
    unfold applySteps at applied
    cases stepped : collection.applyChanges step.records (.exact step.batch) tables with
    | error error =>
      rw [stepped] at applied
      cases applied
    | ok next =>
      rw [stepped] at applied
      exact ih (indexed.applyChanges first stepped)
        (holders.applyChanges first stepped) rest applied

theorem IndexedCollection.indexed_replay {start : Records} {steps : List Step}
    (exact_ : ExactRun start steps) (run : collection.replay start steps = .ok out) :
    collection.Indexed (lastRecords start steps) out ∧
      collection.Recorded (lastRecords start steps) out (collection.indexedLast start steps) := by
  unfold replay at run
  cases built : collection.rebuild start with
  | error error =>
    rw [built] at run
    cases run
  | ok tables =>
    rw [built] at run
    exact indexed_applySteps (Current.of_rebuild built).toIndexed (.of_rebuild built) exact_ run

/-- Another record of a corpus has the identity of a record. -/
def IndexedCollection.SharesIdentity (collection : IndexedCollection)
    (corpus : List UniqueCorpusEntry) (entry : UniqueCorpusEntry) : Prop :=
  ∃ other ∈ corpus, other.path ≠ entry.path ∧ ∃ value,
    collection.identityOf entry.effective = some value ∧
      collection.identityOf other.effective = some value

/-- The cache reports an identity conflict of a record. -/
def IndexedCollection.ReportsIdentity (collection : IndexedCollection) (profile : SpecProfile)
    (tables : CacheTables) (entry : UniqueCorpusEntry) : Prop :=
  ∃ conflict ∈ collection.uniquenessConflicts profile tables entry.effective entry.types
      entry.path,
    conflict.kind = .identity

theorem kind_fieldConflict {conflict : UniqueConflict}
    (found : tables.fieldConflict excludePath requirement = some conflict) :
    conflict.kind = .field requirement.2 requirement.1.field := by
  obtain ⟨path, _, rfl⟩ := Option.map_eq_some_iff.mp found
  rfl

/-- A conflict is reported exactly if another record holds the identity. -/
theorem IndexedCollection.Recorded.reportsIdentity_iff
    (holders : collection.Recorded records tables recorded) {profile : SpecProfile}
    (legacy : profile ≠ .v03) :
    collection.ReportsIdentity profile tables entry ↔
      ∃ value, collection.identityOf entry.effective = some value ∧
        ∃ holder, recorded value = some holder ∧ holder ≠ entry.path := by
  have row : ∀ value, (tables.identityValues.find? fun row => row.1 = value) =
      (recorded value).map (value, ·) := by
    intro value
    cases here : recorded value with
    | none =>
      rw [Option.map_none, List.find?_eq_none]
      rintro ⟨other, holder⟩ member same
      obtain rfl : other = value := by simpa using same
      rw [holders.rows, here] at member
      cases member
    | some holder =>
      rw [Option.map_some]
      have stored := (holders.rows value holder).mpr here
      obtain ⟨found, isFound⟩ :
          ∃ found, (tables.identityValues.find? fun row => row.1 = value) = some found :=
        Option.isSome_iff_exists.mp (List.find?_isSome.mpr ⟨(value, holder), stored, by simp⟩)
      have named : found.1 = value := by simpa using List.find?_some isFound
      have member := List.mem_of_find?_eq_some isFound
      obtain ⟨_, other⟩ := found
      subst named
      rw [holders.rows, here] at member
      rw [isFound, Option.some.inj member]
  have asked : (collection.identityField profile).bind entry.effective.get =
      entry.effective.get collection.idField := by
    rw [identityField, if_pos legacy, Option.bind_some]
  constructor
  · rintro ⟨conflict, member, kind⟩
    rcases List.mem_append.mp member with reported | field
    · have found := Option.mem_toList.mp reported
      obtain ⟨value, identity, found⟩ := Option.bind_eq_some_iff.mp found
      rw [asked] at identity
      obtain ⟨stored, kept, rfl⟩ := Option.map_eq_some_iff.mp found
      obtain ⟨isRow, apart⟩ := Option.filter_eq_some_iff.mp kept
      rw [row] at isRow
      obtain ⟨holder, isRecorded, rfl⟩ := Option.map_eq_some_iff.mp isRow
      exact ⟨value, identity, holder, isRecorded, by simpa using apart⟩
    · obtain ⟨requirement, _, found⟩ := List.mem_filterMap.mp field
      rw [kind_fieldConflict found] at kind
      cases kind
  · rintro ⟨value, identity, holder, isRecorded, apart⟩
    refine ⟨⟨.identity, value, holder⟩, List.mem_append_left _ (Option.mem_toList.mpr ?_), rfl⟩
    refine Option.bind_eq_some_iff.mpr ⟨value, by rw [asked]; exact identity, ?_⟩
    rw [row, isRecorded, Option.map_some, Option.filter_some, if_pos (by simpa using apart)]
    rfl

theorem IndexedCollection.HoldsIdentity.exists_entry {value path : String}
    (holds : collection.HoldsIdentity records.load value path) :
    ∃ other ∈ records.corpus, other.path = path ∧
      collection.identityOf other.effective = some value := by
  obtain ⟨outcome, loaded, identity⟩ := holds
  cases outcome with
  | invalid => cases identity
  | parsed facts raw effective body typeNames =>
    exact ⟨⟨path, effective, typeNames⟩, Records.mem_corpus.mpr ⟨facts, raw, body, loaded⟩,
      rfl, identity⟩

/-- After any history the cache reports a required key of a record exactly when the check of
the corpus does; the check of the record by itself agrees if its path has no backslash; and
an identity conflict is reported exactly when another record has the identity, if and only if
in that case the record that was indexed last with the identity is another one. -/
theorem IndexedCollection.conflicts_agree {start : Records} {steps : List Step}
    (exact_ : ExactRun start steps) (run : collection.replay start steps = .ok tables)
    (member : entry ∈ (lastRecords start steps).corpus) (profile : SpecProfile) :
    (∀ key typeName,
      (∃ issue ∈ corpusUniqueValueIssues collection.library.uniqueness collection.types
          (lastRecords start steps).corpus,
        issue.path = entry.path ∧ issue.key = key ∧ issue.typeName = typeName) ↔
      collection.ReportsKey profile tables entry key typeName) ∧
    (withForwardSlashes entry.path = entry.path → ∀ key typeName,
      (∃ issue ∈ corpusUniqueValueIssues collection.library.uniqueness collection.types
          (lastRecords start steps).corpus,
        issue.path = entry.path ∧ issue.key = key ∧ issue.typeName = typeName) ↔
      ∃ issue ∈ uniqueValueIssues collection.library.uniqueness collection.types entry
          (lastRecords start steps).corpus,
        issue.key = key ∧ issue.typeName = typeName) ∧
    (profile ≠ .v03 →
      ((collection.ReportsIdentity profile tables entry ↔
          collection.SharesIdentity (lastRecords start steps).corpus entry) ↔
        (collection.SharesIdentity (lastRecords start steps).corpus entry →
          ∃ value, collection.identityOf entry.effective = some value ∧
            ∃ holder, collection.indexedLast start steps value = some holder ∧
              holder ≠ entry.path))) := by
  obtain ⟨indexed, holders⟩ := indexed_replay exact_ run
  have grouped := fun key typeName =>
    @mem_corpusUniqueValueIssues collection.library.uniqueness collection.types entry
      (lastRecords start steps).corpus key typeName (Records.distinct_corpus _) member
  refine ⟨fun key typeName => ?_, fun slashes key typeName => ?_, fun legacy => ?_⟩
  · rw [grouped, indexed.reportsKey_iff]
  · rw [grouped, mem_uniqueValueIssues, slashes]
  · rw [holders.reportsIdentity_iff legacy]
    refine ⟨fun agrees => agrees.mpr, fun named => ⟨?_, named⟩⟩
    rintro ⟨value, identity, holder, recorded, apart⟩
    obtain ⟨other, otherMember, rfl, same⟩ := (holders.holds value holder recorded).exists_entry
    exact ⟨other, otherMember, apart, value, identity, same⟩

namespace SharedIdentity

/-- The record that is indexed last. -/
def lastEntry : UniqueCorpusEntry := ⟨"b.md", .object [("id", .string "shared")], []⟩

/-- The record that is indexed first. -/
def firstEntry : UniqueCorpusEntry := ⟨"a.md", .object [("id", .string "shared")], []⟩

theorem mem_lastEntry : lastEntry ∈ (lastRecords both []).corpus :=
  Records.mem_corpus.mpr ⟨_, _, _, rfl⟩

theorem mem_firstEntry : firstEntry ∈ (lastRecords both []).corpus :=
  Records.mem_corpus.mpr ⟨_, _, _, rfl⟩

end SharedIdentity

/-- The record that was indexed last with a shared identity is told of no conflict. -/
theorem IndexedCollection.identity_conflict_missed :
    ¬∀ (collection : IndexedCollection) (start : Records) (steps : List Step)
        (tables : CacheTables) (entry : UniqueCorpusEntry) (profile : SpecProfile),
      ExactRun start steps → collection.replay start steps = .ok tables →
        entry ∈ (lastRecords start steps).corpus → profile ≠ .v03 →
          (collection.ReportsIdentity profile tables entry ↔
            collection.SharesIdentity (lastRecords start steps).corpus entry) := by
  intro claim
  have missed : (PartialExample.workItems.replay SharedIdentity.both []).toOption.map
      (fun tables => PartialExample.workItems.uniquenessConflicts .v02 tables
        SharedIdentity.lastEntry.effective [] "b.md") = some [] := by
    decide +kernel
  cases run : PartialExample.workItems.replay SharedIdentity.both [] with
  | error error =>
    rw [run] at missed
    cases missed
  | ok tables =>
    rw [run] at missed
    have noConflict : PartialExample.workItems.uniquenessConflicts .v02 tables
        SharedIdentity.lastEntry.effective SharedIdentity.lastEntry.types
        SharedIdentity.lastEntry.path = [] := Option.some.inj missed
    have agrees := claim PartialExample.workItems SharedIdentity.both [] tables
      SharedIdentity.lastEntry .v02 trivial run SharedIdentity.mem_lastEntry (by decide)
    obtain ⟨conflict, member, _⟩ := agrees.mpr
      ⟨_, SharedIdentity.mem_firstEntry, by decide, "shared", rfl, rfl⟩
    rw [noConflict] at member
    cases member

/-- The record that was indexed first with it is told. -/
theorem IndexedCollection.conflicts_agree_first :
    ∃ tables, PartialExample.workItems.replay SharedIdentity.both [] = .ok tables ∧
      PartialExample.workItems.ReportsIdentity .v02 tables SharedIdentity.firstEntry := by
  have runs : (PartialExample.workItems.replay SharedIdentity.both []).toOption.isSome := by
    decide +kernel
  cases run : PartialExample.workItems.replay SharedIdentity.both [] with
  | error error =>
    rw [run] at runs
    cases runs
  | ok tables =>
    refine ⟨tables, rfl, ?_⟩
    have exact_ : ExactRun SharedIdentity.both [] := trivial
    have agrees := ((conflicts_agree exact_ run SharedIdentity.mem_firstEntry .v02).2.2
      (by decide)).mpr fun _ => ⟨"shared", rfl, "b.md", by decide +kernel, by decide⟩
    exact agrees.mpr ⟨_, SharedIdentity.mem_lastEntry, by decide, "shared", rfl, rfl⟩

end Mdbase.Cache
