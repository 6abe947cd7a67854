import Mdbase.Query.MetadataPage

/-!
# The page of SQLite and the page in memory

Which of the two ways answers a query depends on whether a cache exists. They
agree for every filter, order and window exactly when the rows compare alike on
both sides: no two different sizes round to one double, and the times before 1970
that are no whole seconds, which have no text, come first in SQLite as well.
-/

namespace Mdbase.Query

open Library Mdbase.Runtime

theorem Window.slice_map {α β : Type} (window : Window) (change : α → β) (ordered : List α) :
    window.slice (ordered.map change) = (window.slice ordered).map change := by
  unfold Window.slice
  cases window.limit <;> simp

theorem mem_of_mem_slice {window : Window} {compares : CachedRow → CachedRow → Ordering}
    {keep : CachedRow → Bool} {rows : List CachedRow} {row : CachedRow}
    (member : row ∈ window.slice (sortBy compares (rows.filter keep))) :
    row ∈ rows ∧ keep row = true := by
  have inSorted : row ∈ sortBy compares (rows.filter keep) := by
    unfold Window.slice at member
    revert member
    cases window.limit with
    | none => exact List.mem_of_mem_drop
    | some limit => exact fun member => List.mem_of_mem_drop (List.mem_of_mem_take member)
  exact List.mem_filter.mp (mem_sortBy.mp inSorted)

theorem sqlWindow_eq_slice {α : Type} (window : Window) {ordered : List α}
    (countable : ordered.length ≤ i64Max) : sqlWindow window ordered = window.slice ordered := by
  have skipped : ordered.drop (min window.offset i64Max) =
      ordered.drop (min window.offset ordered.length) := by
    rcases le_total window.offset ordered.length with within | beyond
    · rw [min_eq_left within, min_eq_left (within.trans countable)]
    · rw [min_eq_right beyond, List.drop_length, List.drop_eq_nil_of_le (le_min beyond countable)]
  unfold sqlWindow Window.slice
  rw [skipped]
  cases window.limit with
  | none => rfl
  | some limit =>
    rcases le_total limit i64Max with within | beyond
    · simp [min_eq_left within]
    · have length : (ordered.drop (min window.offset ordered.length)).length ≤ i64Max :=
        (by rw [List.length_drop]; omega)
      simp only [min_eq_right beyond]
      rw [List.take_of_length_le length, List.take_of_length_le (length.trans beyond)]

theorem any_eqIgnoreAsciiCase (types : List String) (actual : String) :
    types.any (eqIgnoreAsciiCase actual) = decide (asciiLower actual ∈ types.map asciiLower) := by
  rw [Bool.eq_iff_iff, List.any_eq_true, decide_eq_true_eq, List.mem_map]
  constructor
  · rintro ⟨one, member, same⟩
    exact ⟨one, member, (decide_eq_true_eq.mp same).symm⟩
  · rintro ⟨one, member, same⟩
    exact ⟨one, member, decide_eq_true_eq.mpr same.symm⟩

/-- What a page shows of the identity of a record. -/
structure RecordFacts where
  path : String
  typeNames : List String
  size : Nat
  mtime : Option String
  ctime : Option String
  revision : String
  reason : Option String
  deriving DecidableEq

/-- The facts of a record. -/
def LocalRecord.facts : LocalRecord → RecordFacts
  | .parsed record =>
    { path := record.relPath
      typeNames := record.typeNames
      size := record.fileSize
      mtime := record.fileMtimeIso
      ctime := record.fileCtimeIso
      revision := record.sourceRevision
      reason := none }
  | .invalid stub =>
    { path := stub.relPath
      typeNames := stub.typeNames
      size := stub.fileSize
      mtime := stub.fileMtimeIso
      ctime := stub.fileCtimeIso
      revision := stub.sourceRevision
      reason := some stub.reason }

/-- The types of the row are stored: a row without stored types has none. -/
def CachedRow.TypesPresent (determine : Value → String → List String) (row : CachedRow) : Prop :=
  row.typeNames = [] → determine row.frontmatter row.path = []

section Rows

variable {determine : Value → String → List String} {includeBodies : Bool} {row : CachedRow}

theorem CachedRow.facts_toRecord (row : CachedRow) (typeNames : List String) (effective : Value)
    (body : String) : (row.toRecord typeNames effective body).facts =
      { path := row.path
        typeNames := if row.failureReason.isSome then row.typeNames else typeNames
        size := row.size
        mtime := row.mtimeIso
        ctime := row.ctimeIso
        revision := row.sourceRevision
        reason := row.failureReason } := by
  unfold CachedRow.toRecord
  cases row.failureReason <;> rfl

theorem LocalRecord.path_facts (record : LocalRecord) : record.facts.path = record.path := by
  cases record <;> rfl

theorem LocalRecord.types_facts (record : LocalRecord) : record.facts.typeNames = record.types := by
  cases record <;> rfl

theorem CachedRow.TypesPresent.typeNames_eq (present : row.TypesPresent determine) :
    (if row.typeNames.isEmpty then determine row.frontmatter row.path else row.typeNames) =
      row.typeNames := by
  split
  next empty =>
    rw [List.isEmpty_iff] at empty
    rw [present empty, empty]
  next => rfl

theorem CachedRow.TypesPresent.facts_loaded (present : row.TypesPresent determine) :
    (row.loaded determine includeBodies).facts = row.selected.facts := by
  rw [CachedRow.loaded, CachedRow.selected, CachedRow.facts_toRecord, CachedRow.facts_toRecord,
    present.typeNames_eq]

theorem CachedRow.path_loaded : (row.loaded determine includeBodies).path = row.path := by
  rw [← LocalRecord.path_facts, CachedRow.loaded, CachedRow.facts_toRecord]

theorem CachedRow.path_selected : row.selected.path = row.path := by
  rw [← LocalRecord.path_facts, CachedRow.selected, CachedRow.facts_toRecord]

theorem CachedRow.TypesPresent.types_loaded (present : row.TypesPresent determine) :
    (row.loaded determine includeBodies).types = row.typeNames := by
  rw [← LocalRecord.types_facts, present.facts_loaded, CachedRow.selected, CachedRow.facts_toRecord]
  simp

theorem CachedRow.TypesPresent.wanted_loaded (present : row.TypesPresent determine)
    (types : List String) :
    wanted types (row.loaded determine includeBodies) = sqlWanted types row := by
  unfold wanted sqlWanted
  rw [present.types_loaded]
  simp only [any_eqIgnoreAsciiCase]

theorem CachedRow.recordMetadataValue_toRecord (row : CachedRow) (typeNames : List String)
    (effective : Value) (body field : String) :
    recordMetadataValue (row.toRecord typeNames effective body) field =
      recordMetadataValue row.selected field := by
  unfold CachedRow.selected CachedRow.toRecord recordMetadataValue
  cases row.failureReason <;> rfl

theorem CachedRow.recordMetadataValue_loaded (field : String) :
    recordMetadataValue (row.loaded determine includeBodies) field =
      recordMetadataValue row.selected field :=
  row.recordMetadataValue_toRecord _ _ _ field

end Rows

theorem Direction.apply_then (direction : Direction) (first second : Ordering) :
    direction.apply (first.then second) =
      (direction.apply first).then (direction.apply second) := by
  cases direction with
  | asc => rfl
  | desc => exact Ordering.swap_then ..

theorem compareTerms_eq (direction : Direction) (terms : List SqlTerm) (left right : CachedRow) :
    compareTerms direction terms left right =
      direction.apply (compareTerms .asc terms left right) := by
  induction terms with
  | nil => cases direction <;> rfl
  | cons term rest ih => simp only [compareTerms, ih, Direction.apply_then]; rfl

theorem SqlTerm.ordersOn (term : SqlTerm) (rows : List CachedRow) :
    OrdersOn term.compareRows rows := by
  cases term with
  | path => exact OrdersOn.of_key CachedRow.path
  | size => exact OrdersOn.of_key CachedRow.size
  | mtimeMissing => exact OrdersOn.of_key fun row : CachedRow => decide (row.mtimeNs.1 = 0)
  | mtimeSecond => exact OrdersOn.of_key fun row : CachedRow => seconds row.mtimeNs
  | ctimeMissing => exact OrdersOn.of_key fun row : CachedRow => row.ctimeNs.isNone
  | ctimeSecond =>
    exact OrdersOn.of_key fun row : CachedRow => row.ctimeNs.map fun nanos => seconds nanos.1

theorem Direction.ordersOn {α : Type} {compares : α → α → Ordering} {items : List α}
    (direction : Direction) (orders : OrdersOn compares items) :
    OrdersOn (fun left right => direction.apply (compares left right)) items := by
  cases direction with
  | asc => exact orders
  | desc => exact orders.swap

theorem compareTerms_ordersOn (direction : Direction) (terms : List SqlTerm)
    (rows : List CachedRow) : OrdersOn (compareTerms direction terms) rows := by
  induction terms with
  | nil => exact OrdersOn.of_key fun _ => ()
  | cons term rest ih => exact (direction.ordersOn (term.ordersOn rows)).refined ih

theorem compareSql_ordersOn (order : List (List SqlTerm × Direction)) (rows : List CachedRow) :
    OrdersOn (compareSql order) rows := by
  induction order with
  | nil => exact SqlTerm.path.ordersOn rows
  | cons clause rest ih => exact (compareTerms_ordersOn clause.2 clause.1 rows).refined ih

theorem path_eq_of_compareSql {order : List (List SqlTerm × Direction)} {left right : CachedRow}
    (tie : compareSql order left right = .eq) : left.path = right.path := by
  induction order with
  | nil =>
    have same : compare left.path right.path = .eq := tie
    exact compare_eq_iff_eq.mp same
  | cons clause rest ih => exact ih (Ordering.then_eq_eq.mp tie).2

theorem path_eq_of_compareRecords {orderBy : List OrderBy} {left right : LocalRecord}
    (tie : compareRecords orderBy left right = .eq) : left.path = right.path := by
  induction orderBy with
  | nil =>
    have same : compare left.path right.path = .eq := tie
    exact compare_eq_iff_eq.mp same
  | cons order rest ih => exact ih (Ordering.then_eq_eq.mp tie).2

theorem exists_kind_recordMetadataValue (field : String) :
    ∃ common, ∀ record, kind (recordMetadataValue record field) = .null ∨
      kind (recordMetadataValue record field) = common := by
  have optional : ∀ text : Option String,
      kind (textOrNull text) = .null ∨ kind (textOrNull text) = .string := by
    intro text
    cases text <;> simp [textOrNull, kind]
  unfold recordMetadataValue
  split
  · exact ⟨.string, fun _ => .inr rfl⟩
  · exact ⟨.string, fun _ => .inr rfl⟩
  · exact ⟨.string, fun _ => .inr rfl⟩
  · exact ⟨.number, fun _ => .inr rfl⟩
  · exact ⟨.string, fun record => optional record.fileMtimeIso⟩
  · exact ⟨.string, fun record => optional record.fileCtimeIso⟩
  · exact ⟨.null, fun _ => .inr rfl⟩

theorem comparable_recordMetadataValue (field : String) (records : List LocalRecord) :
    Comparable (records.map (recordMetadataValue · field)) := by
  obtain ⟨common, kinds⟩ := exists_kind_recordMetadataValue field
  intro left leftMember right _ other otherMember leftPresent otherPresent _ different
  obtain ⟨leftRecord, -, rfl⟩ := List.mem_map.mp leftMember
  obtain ⟨otherRecord, -, rfl⟩ := List.mem_map.mp otherMember
  have leftKind := (kinds leftRecord).resolve_left leftPresent
  have otherKind := (kinds otherRecord).resolve_left otherPresent
  exact absurd (otherKind.trans leftKind.symm) different

theorem compareRecords_ordersOn (orderBy : List OrderBy) (records : List LocalRecord) :
    OrdersOn (compareRecords orderBy) records := by
  induction orderBy with
  | nil => exact OrdersOn.of_key LocalRecord.path
  | cons order rest ih =>
    exact (OrdersOn.comap (recordMetadataValue · order.field)
      ((comparable_recordMetadataValue order.field records).ordersOn order.direction)).refined ih

/-- Two rows compare alike in SQLite and in memory: a smaller size is smaller as a
double, and a time without a text comes first. -/
structure CachedRow.Orderable (left right : CachedRow) : Prop where
  sizes : left.size < right.size → roundBits 53 left.size < roundBits 53 right.size
  mtimes : left.mtimeNs.1 ≠ 0 → right.mtimeNs.1 ≠ 0 → RaggedFirst left.mtimeNs right.mtimeNs
  ctimes : ∀ one ∈ left.ctimeNs, ∀ other ∈ right.ctimeNs, RaggedFirst one other

instance (left right : CachedRow) : Decidable (left.Orderable right) :=
  decidable_of_iff
    ((left.size < right.size → roundBits 53 left.size < roundBits 53 right.size) ∧
      (left.mtimeNs.1 ≠ 0 → right.mtimeNs.1 ≠ 0 → RaggedFirst left.mtimeNs right.mtimeNs) ∧
      ∀ one ∈ left.ctimeNs, ∀ other ∈ right.ctimeNs, RaggedFirst one other)
    ⟨fun ⟨sizes, mtimes, ctimes⟩ => ⟨sizes, mtimes, ctimes⟩,
      fun orderable => ⟨orderable.sizes, orderable.mtimes, orderable.ctimes⟩⟩

theorem compareAscending_size (left right : Nat) :
    compareAscending (.number (.posInt left)) (.number (.posInt right)) =
      compare (roundBits 53 left) (roundBits 53 right) := by
  simp only [compareAscending, Number.asF64]
  rcases lt_trichotomy (roundBits 53 left) (roundBits 53 right) with below | same | above
  · rw [compare_lt_iff_lt.mpr below, compare_lt_iff_lt.mpr (by exact_mod_cast below)]
  · rw [same, compare_eq_iff_eq.mpr rfl, compare_eq_iff_eq.mpr rfl]
  · rw [compare_gt_iff_gt.mpr above, compare_gt_iff_gt.mpr (by exact_mod_cast above)]

theorem compare_size_eq_iff (left right : Nat) :
    compare left right = compareAscending (.number (.posInt left)) (.number (.posInt right)) ↔
      (left < right → roundBits 53 left < roundBits 53 right) ∧
        (right < left → roundBits 53 right < roundBits 53 left) := by
  rw [compareAscending_size]
  rcases lt_trichotomy left right with below | rfl | above
  · rw [compare_lt_iff_lt.mpr below, eq_comm, compare_lt_iff_lt]
    exact ⟨fun apart => ⟨fun _ => apart, fun later => absurd below later.asymm⟩,
      fun both => both.1 below⟩
  · rw [compare_eq_iff_eq.mpr rfl, compare_eq_iff_eq.mpr rfl]
    simp
  · rw [compare_gt_iff_gt.mpr above, eq_comm, compare_gt_iff_gt]
    exact ⟨fun apart => ⟨fun earlier => absurd above earlier.asymm, fun _ => apart⟩,
      fun both => both.2 above⟩

theorem compare_times_eq_iff (left right : Option I64) :
    (compare left.isNone right.isNone).then
        (compare (left.map fun nanos => seconds nanos.1) (right.map fun nanos => seconds nanos.1)) =
      compareAscending (textOrNull (left.map fun nanos => nsToIso nanos.1))
        (textOrNull (right.map fun nanos => nsToIso nanos.1)) ↔
      (∀ one ∈ left, ∀ other ∈ right, RaggedFirst one other) ∧
        (∀ other ∈ right, ∀ one ∈ left, RaggedFirst other one) := by
  cases left with
  | none =>
    cases right with
    | none => simp [textOrNull, compareAscending]
    | some other =>
      simp [textOrNull, compareAscending]
      rfl
  | some one =>
    cases right with
    | none =>
      simp [textOrNull, compareAscending]
      rfl
    | some other =>
      have flags : compare (some one).isNone (some other).isNone = .eq := rfl
      have present : compare (some (seconds one)) (some (seconds other)) =
          compare (seconds one) (seconds other) := rfl
      rw [flags, Option.map_some, Option.map_some, present]
      simp only [textOrNull, Option.map_some, compareAscending, Option.mem_some_iff, forall_eq']
      exact compare_seconds_eq_iff one other

/-- The modification time of a row as an optional time. -/
def CachedRow.knownMtime (row : CachedRow) : Option I64 :=
  if row.mtimeNs.1 ≠ 0 then some row.mtimeNs else none

theorem CachedRow.mtimeIso_eq (row : CachedRow) :
    row.mtimeIso = row.knownMtime.map fun nanos => nsToIso nanos.1 := by
  unfold CachedRow.mtimeIso CachedRow.knownMtime
  split <;> rfl

theorem compare_mtime_terms (left right : CachedRow) :
    (compare (decide (left.mtimeNs.1 = 0)) (decide (right.mtimeNs.1 = 0))).then
        (compare (seconds left.mtimeNs) (seconds right.mtimeNs)) =
      (compare left.knownMtime.isNone right.knownMtime.isNone).then
        (compare (left.knownMtime.map fun nanos => seconds nanos.1)
          (right.knownMtime.map fun nanos => seconds nanos.1)) := by
  unfold CachedRow.knownMtime
  by_cases leftUnknown : left.mtimeNs.1 = 0
  · by_cases rightUnknown : right.mtimeNs.1 = 0
    · simp [leftUnknown, rightUnknown]
    · simp [leftUnknown, rightUnknown]
      rfl
  · by_cases rightUnknown : right.mtimeNs.1 = 0
    · simp [leftUnknown, rightUnknown]
      rfl
    · simp [leftUnknown, rightUnknown]
      rfl

/-- The fields that SQLite can order by. -/
def sqlFields : List String := ["file.path", "file.size", "file.mtime", "file.ctime"]

/-- Two rows are compared alike under a field. -/
def FieldAgrees (field : String) (left right : CachedRow) : Prop :=
  ∀ terms, sqlTerms field = some terms →
    compareTerms .asc terms left right =
      compareAscending (recordMetadataValue left.selected field)
        (recordMetadataValue right.selected field)

theorem CachedRow.recordMetadataValue_selected (row : CachedRow) :
    recordMetadataValue row.selected "file.path" = .string row.path ∧
      recordMetadataValue row.selected "file.size" = .number (.posInt row.size) ∧
      recordMetadataValue row.selected "file.mtime" = textOrNull row.mtimeIso ∧
      recordMetadataValue row.selected "file.ctime" = textOrNull row.ctimeIso := by
  unfold CachedRow.selected CachedRow.toRecord recordMetadataValue
  cases row.failureReason <;> exact ⟨rfl, rfl, rfl, rfl⟩

/-- Two rows agree in every field exactly if they are orderable both ways round. -/
theorem fieldAgrees_iff (left right : CachedRow) :
    (∀ field ∈ sqlFields, FieldAgrees field left right) ↔
      left.Orderable right ∧ right.Orderable left := by
  obtain ⟨leftPath, leftSize, leftMtime, leftCtime⟩ := left.recordMetadataValue_selected
  obtain ⟨rightPath, rightSize, rightMtime, rightCtime⟩ := right.recordMetadataValue_selected
  have path : FieldAgrees "file.path" left right := by
    intro terms found
    cases found
    rw [leftPath, rightPath]
    simp [compareTerms, Direction.apply, SqlTerm.compareRows, compareAscending]
  have size : FieldAgrees "file.size" left right ↔
      (left.size < right.size → roundBits 53 left.size < roundBits 53 right.size) ∧
        (right.size < left.size → roundBits 53 right.size < roundBits 53 left.size) := by
    rw [← compare_size_eq_iff, FieldAgrees]
    simp [sqlTerms, leftSize, rightSize, compareTerms, Direction.apply, SqlTerm.compareRows]
  have mtime : FieldAgrees "file.mtime" left right ↔
      (∀ one ∈ left.knownMtime, ∀ other ∈ right.knownMtime, RaggedFirst one other) ∧
        (∀ other ∈ right.knownMtime, ∀ one ∈ left.knownMtime, RaggedFirst other one) := by
    rw [← compare_times_eq_iff, ← compare_mtime_terms, FieldAgrees, leftMtime, rightMtime,
      CachedRow.mtimeIso_eq, CachedRow.mtimeIso_eq]
    simp [sqlTerms, compareTerms, Direction.apply, SqlTerm.compareRows]
  have ctime : FieldAgrees "file.ctime" left right ↔
      (∀ one ∈ left.ctimeNs, ∀ other ∈ right.ctimeNs, RaggedFirst one other) ∧
        (∀ other ∈ right.ctimeNs, ∀ one ∈ left.ctimeNs, RaggedFirst other one) := by
    rw [← compare_times_eq_iff, FieldAgrees, leftCtime, rightCtime, CachedRow.ctimeIso,
      CachedRow.ctimeIso]
    simp [sqlTerms, compareTerms, Direction.apply, SqlTerm.compareRows]
  have known : ∀ one other : CachedRow,
      (∀ first ∈ one.knownMtime, ∀ second ∈ other.knownMtime, RaggedFirst first second) ↔
        (one.mtimeNs.1 ≠ 0 → other.mtimeNs.1 ≠ 0 → RaggedFirst one.mtimeNs other.mtimeNs) := by
    intro one other
    unfold CachedRow.knownMtime
    split_ifs with first second second <;> simp_all
  rw [known, known] at mtime
  simp only [sqlFields, List.forall_mem_cons, List.not_mem_nil, false_imp_iff, implies_true,
    and_true, path, true_and, size, mtime, ctime]
  constructor
  · rintro ⟨⟨sizeOne, sizeOther⟩, ⟨mtimeOne, mtimeOther⟩, ctimeOne, ctimeOther⟩
    exact ⟨⟨sizeOne, mtimeOne, ctimeOne⟩, ⟨sizeOther, mtimeOther, ctimeOther⟩⟩
  · rintro ⟨one, other⟩
    exact ⟨⟨one.sizes, other.sizes⟩, ⟨one.mtimes, other.mtimes⟩, one.ctimes, other.ctimes⟩

section Pages

variable {determine : Value → String → List String} {includeBodies : Bool}

/-- The comparison in memory, on the rows that the records come from. -/
def compareLoaded (orderBy : List OrderBy) (left right : CachedRow) : Ordering :=
  compareRecords orderBy left.selected right.selected

variable {rows : List CachedRow}

theorem memoryPage_map {make : CachedRow → LocalRecord} {keep : CachedRow → Bool}
    {types : List String}
    (values : ∀ row field, recordMetadataValue (make row) field =
      recordMetadataValue row.selected field)
    (wants : ∀ row ∈ rows, wanted types (make row) = keep row) (orderBy : List OrderBy)
    (window : Window) :
    let ordered := sortBy (compareLoaded orderBy) (rows.filter keep)
    memoryPage types orderBy window (rows.map make) =
      { records := (window.slice ordered).map make
        total := ordered.length
        hasMore := window.hasMore ordered.length (window.slice ordered).length } := by
  intro ordered
  have kept : (rows.map make).filter (wanted types) = (rows.filter keep).map make := by
    rw [List.filter_map]
    congr 1
    exact List.filter_congr wants
  have paths : ∀ row, (make row).path = row.selected.path :=
    fun row => Value.string.inj (values row "file.path")
  have compared : ∀ left right, compareLoaded orderBy left right =
      compareRecords orderBy (make left) (make right) := by
    intro left right
    rw [compareLoaded]
    induction orderBy with
    | nil => simp only [compareRecords, paths]
    | cons order rest ih => simp only [compareRecords, values, ih]
  have sorted : sortBy (compareRecords orderBy) ((rows.filter keep).map make) =
      ordered.map make :=
    (map_sortBy make fun left _ right _ => compared left right).symm
  simp only [memoryPage, kept, sorted, Window.slice_map, List.length_map]

theorem memoryPage_loaded (present : ∀ row ∈ rows, row.TypesPresent determine) (types : List String)
    (orderBy : List OrderBy) (window : Window) :
    let ordered := sortBy (compareLoaded orderBy) (rows.filter (sqlWanted types))
    memoryPage types orderBy window (rows.map (CachedRow.loaded determine includeBodies)) =
      { records := (window.slice ordered).map (CachedRow.loaded determine includeBodies)
        total := ordered.length
        hasMore := window.hasMore ordered.length (window.slice ordered).length } :=
  memoryPage_map (fun _ => CachedRow.recordMetadataValue_loaded)
    (fun row member => (present row member).wanted_loaded types) orderBy window

variable {orderBy : List OrderBy} {order : List (List SqlTerm × Direction)}

theorem sqlPage_eq (countable : rows.length ≤ i64Max)
    (found : sqlOrder orderBy = some order) (types : List String) (window : Window) :
    let ordered := sortBy (compareSql order) (rows.filter (sqlWanted types))
    sqlPage types orderBy window rows = some
      { records := (window.slice ordered).map CachedRow.selected
        total := ordered.length
        hasMore := window.hasMore ordered.length (window.slice ordered).length } := by
  intro ordered
  have bound : ordered.length ≤ i64Max := by
    rw [length_sortBy]
    exact (List.length_filter_le _ _).trans countable
  have window := sqlWindow_eq_slice window bound
  rw [sqlPage, found, Option.map_some]
  simp only [window, ordered, length_sortBy]

variable {left right : CachedRow}

theorem compareSql_eq_compareLoaded (agree : ∀ field ∈ sqlFields, FieldAgrees field left right)
    (fields : ∀ order ∈ orderBy, order.field ∈ sqlFields) (found : sqlOrder orderBy = some order) :
    compareSql order left right = compareLoaded orderBy left right := by
  induction orderBy generalizing order with
  | nil =>
    rw [sqlOrder, List.mapM_nil] at found
    cases found
    simp only [compareSql, compareLoaded, compareRecords, SqlTerm.compareRows,
      CachedRow.path_selected]
  | cons clause rest ih =>
    rw [sqlOrder, List.mapM_cons] at found
    obtain ⟨first, firstFound, found⟩ := Option.bind_eq_some_iff.mp found
    obtain ⟨later, laterFound, found⟩ := Option.bind_eq_some_iff.mp found
    obtain ⟨terms, termsFound, rfl⟩ := Option.map_eq_some_iff.mp firstFound
    cases found
    have here := agree clause.field (fields clause List.mem_cons_self) terms termsFound
    have there := ih (fun order member => fields order (List.mem_cons_of_mem _ member)) laterFound
    rw [compareSql, compareTerms_eq, here, there]
    rfl

variable {field : String}

theorem exists_sqlTerms (sqlField : field ∈ sqlFields) : ∃ terms, sqlTerms field = some terms := by
  have terms : ∀ field ∈ sqlFields, (sqlTerms field).isSome := by decide
  exact Option.isSome_iff_exists.mp (terms field sqlField)

theorem exists_sqlOrder (fields : ∀ order ∈ orderBy, order.field ∈ sqlFields) :
    ∃ order, sqlOrder orderBy = some order := by
  induction orderBy with
  | nil => exact ⟨[], rfl⟩
  | cons clause rest ih =>
    obtain ⟨later, laterFound⟩ :=
      ih fun order member => fields order (List.mem_cons_of_mem _ member)
    obtain ⟨first, firstFound⟩ := exists_sqlTerms (fields clause List.mem_cons_self)
    refine ⟨(first, clause.direction) :: later, ?_⟩
    rw [sqlOrder] at laterFound
    simp [sqlOrder, List.mapM_cons, firstFound, laterFound]

/-- Whatever order the rows of the table are loaded in, SQLite and the branch in
memory answer every filter, order and window with records of the same facts in the
same order, the same total and the same answer to whether there is more. -/
def PagesAgree (table : CacheTable) (determine : Value → String → List String)
    (includeBodies : Bool) : Prop :=
  ∀ loaded : List CachedRow, loaded.Perm table.rows → ∀ (types : List String)
    (orderBy : List OrderBy) (window : Window), (∀ order ∈ orderBy, order.field ∈ sqlFields) →
    ∃ page, sqlPage types orderBy window table.rows = some page ∧
      let other := memoryPage types orderBy window
        (loaded.map (CachedRow.loaded determine includeBodies))
      page.records.map LocalRecord.facts = other.records.map LocalRecord.facts ∧
        page.total = other.total ∧ page.hasMore = other.hasMore

theorem CacheTable.eq_of_path (table : CacheTable) (leftMember : left ∈ table.rows)
    (rightMember : right ∈ table.rows) (same : left.path = right.path) : left = right :=
  List.inj_on_of_nodup_map table.distinct leftMember rightMember same

theorem CacheTable.compareSql_separates (table : CacheTable)
    (order : List (List SqlTerm × Direction)) : SeparatesOn (compareSql order) table.rows :=
  fun _ leftMember _ rightMember tie =>
    table.eq_of_path leftMember rightMember (path_eq_of_compareSql tie)

theorem CacheTable.compareLoaded_separates (table : CacheTable) (orderBy : List OrderBy) :
    SeparatesOn (compareLoaded orderBy) table.rows := by
  intro left leftMember right rightMember tie
  have paths := path_eq_of_compareRecords tie
  rw [CachedRow.path_selected, CachedRow.path_selected] at paths
  exact table.eq_of_path leftMember rightMember paths

theorem compareLoaded_ordersOn (orderBy : List OrderBy) (rows : List CachedRow) :
    OrdersOn (compareLoaded orderBy) rows :=
  OrdersOn.comap CachedRow.selected (compareRecords_ordersOn orderBy _)

variable {table : CacheTable}

theorem pagesAgree_of_orderable (present : ∀ row ∈ table.rows, row.TypesPresent determine)
    (orderable : ∀ left ∈ table.rows, ∀ right ∈ table.rows, left.Orderable right) :
    PagesAgree table determine includeBodies := by
  intro loaded perm types orderBy window fields
  obtain ⟨order, found⟩ := exists_sqlOrder fields
  have members : ∀ row ∈ loaded, row ∈ table.rows := fun row member => perm.mem_iff.mp member
  have kept := perm.filter (sqlWanted types)
  have keptMembers : ∀ row ∈ table.rows.filter (sqlWanted types), row ∈ table.rows :=
    fun row member => (List.mem_filter.mp member).1
  have loadedMembers : ∀ row ∈ loaded.filter (sqlWanted types), row ∈ table.rows :=
    fun row member => members row (List.mem_filter.mp member).1
  have sorted : sortBy (compareLoaded orderBy) (loaded.filter (sqlWanted types)) =
      sortBy (compareSql order) (table.rows.filter (sqlWanted types)) := by
    calc sortBy (compareLoaded orderBy) (loaded.filter (sqlWanted types))
        = sortBy (compareSql order) (loaded.filter (sqlWanted types)) := by
          apply sortBy_congr
          intro left leftMember right rightMember
          have leftHere := loadedMembers left leftMember
          have rightHere := loadedMembers right rightMember
          exact (compareSql_eq_compareLoaded ((fieldAgrees_iff left right).mpr
            ⟨orderable left leftHere right rightHere, orderable right rightHere left leftHere⟩)
            fields found).symm
      _ = sortBy (compareSql order) (table.rows.filter (sqlWanted types)) :=
          (compareSql_ordersOn order _).sortBy_eq_of_perm
            (SeparatesOn.mono (table.compareSql_separates order) keptMembers) kept
  refine ⟨_, sqlPage_eq table.countable found types window, ?_⟩
  rw [memoryPage_loaded (fun row member => present row (members row member)), sorted]
  simp only [List.map_map, and_true]
  apply List.map_congr_left
  intro row member
  exact (present row (mem_of_mem_slice member).1).facts_loaded.symm

theorem CacheTable.eq_of_map_path (table : CacheTable) {left right : List CachedRow}
    (leftMembers : ∀ row ∈ left, row ∈ table.rows) (rightMembers : ∀ row ∈ right, row ∈ table.rows)
    (same : left.map CachedRow.path = right.map CachedRow.path) : left = right := by
  induction left generalizing right with
  | nil => exact (List.map_eq_nil_iff.mp same.symm).symm
  | cons head rest ih =>
    cases right with
    | nil => cases same
    | cons other others =>
      obtain ⟨first, later⟩ := List.cons_eq_cons.mp same
      rw [table.eq_of_path (leftMembers head List.mem_cons_self)
          (rightMembers other List.mem_cons_self) first,
        ih (fun row member => leftMembers row (List.mem_cons_of_mem _ member))
          (fun row member => rightMembers row (List.mem_cons_of_mem _ member)) later]

/-- Rows that are sorted alike under one field, in both directions, compare alike
under it. -/
theorem fieldAgrees_of_sortBy_eq (members : ∀ row ∈ rows, row ∈ table.rows) {terms : List SqlTerm}
    (found : sqlTerms field = some terms)
    (directed : ∀ direction : Direction, sortBy (compareSql [(terms, direction)]) rows =
      sortBy (compareLoaded [{ field := field, direction := direction }]) rows)
    (leftMember : left ∈ rows) (rightMember : right ∈ rows) :
    FieldAgrees field left right := by
  have compared : ∀ direction : Direction, compareSql [(terms, direction)] left right =
      compareLoaded [{ field := field, direction := direction }] left right := fun direction =>
    (compareSql_ordersOn _ _).agree_of_sortBy_eq (compareLoaded_ordersOn _ _)
      (SeparatesOn.mono (table.compareSql_separates _) members)
      (SeparatesOn.mono (table.compareLoaded_separates _) members) (directed direction)
      leftMember rightMember
  have forward := compared .asc
  have backward := compared .desc
  simp only [compareSql, compareLoaded, compareRecords, compareTerms_eq .desc, compareValues,
    Direction.apply, SqlTerm.compareRows, CachedRow.path_selected] at forward backward
  intro other same
  rw [found] at same
  cases same
  exact eq_of_then_eq forward backward

theorem PagesAgree.fieldAgrees (agree : PagesAgree table determine includeBodies)
    (present : ∀ row ∈ table.rows, row.TypesPresent determine)
    (sqlField : field ∈ sqlFields) (leftMember : left ∈ table.rows)
    (rightMember : right ∈ table.rows) : FieldAgrees field left right := by
  obtain ⟨terms, found⟩ := exists_sqlTerms sqlField
  have directed : ∀ direction : Direction,
      sortBy (compareSql [(terms, direction)]) table.rows =
        sortBy (compareLoaded [{ field := field, direction := direction }]) table.rows := by
    intro direction
    have order : sqlOrder [{ field := field, direction := direction }] =
        some [(terms, direction)] := by
      simp [sqlOrder, found]
    obtain ⟨page, pageFound, facts, -, -⟩ := agree table.rows (List.Perm.refl _) []
      [{ field := field, direction := direction }] { offset := 0, limit := none }
      (by simpa using sqlField)
    rw [sqlPage_eq table.countable order] at pageFound
    cases pageFound
    rw [memoryPage_loaded present] at facts
    have all : table.rows.filter (sqlWanted []) = table.rows :=
      List.filter_eq_self.mpr fun _ _ => rfl
    have whole : ∀ ordered : List CachedRow,
        ({ offset := 0, limit := none } : Window).slice ordered = ordered := by
      intro ordered
      simp [Window.slice]
    simp only [all, whole] at facts
    have paths := congrArg (List.map RecordFacts.path) facts
    simp only [List.map_map, Function.comp_def, LocalRecord.path_facts, CachedRow.path_selected,
      CachedRow.path_loaded] at paths
    exact table.eq_of_map_path (fun _ => mem_sortBy.mp) (fun _ => mem_sortBy.mp) paths
  exact fieldAgrees_of_sortBy_eq (fun row member => member) found directed leftMember rightMember

/-- The two pages agree for every query exactly when every two rows compare alike:
no two different sizes round to one double, and every time before 1970 that is no
whole second lies in an earlier second than all other times of its column, or in
the second of another such time. -/
theorem pagesAgree_iff (table : CacheTable) (includeBodies : Bool)
    (present : ∀ row ∈ table.rows, row.TypesPresent determine) :
    PagesAgree table determine includeBodies ↔
      ∀ left ∈ table.rows, ∀ right ∈ table.rows, left.Orderable right := by
  constructor
  · intro agree left leftMember right rightMember
    exact ((fieldAgrees_iff left right).mp fun field sqlField =>
      agree.fieldAgrees present sqlField leftMember rightMember).1
  · exact pagesAgree_of_orderable present

end Pages

/-- A note of ten bytes with a modification time and no creation time. -/
def timedNote (path : String) (mtimeNs : I64) : CachedRow where
  path := path
  frontmatter := .object []
  effective := none
  body := ""
  size := 10
  mtimeNs := mtimeNs
  ctimeNs := none
  sourceRevision := "r1"
  failureReason := none
  typeNames := ["note"]

/-- A table of an old note, a note of unknown age and a recent one. -/
def agedTable : CacheTable where
  rows := [timedNote "b.md" ⟨-500000000, by decide⟩, timedNote "a.md" ⟨0, by decide⟩,
    timedNote "c.md" ⟨1700000000123456789, by decide⟩, timedNote "d.md" ⟨2000000000, by decide⟩]
  distinct := by decide
  countable := by decide

theorem pagesAgree_agedTable : PagesAgree agedTable (fun _ _ => ["note"]) false :=
  (pagesAgree_iff agedTable false (by unfold CachedRow.TypesPresent; decide)).mpr
    (by decide +kernel)

/-- Two notes from before 1970, the first of which has no whole second. -/
def raggedTable : CacheTable where
  rows := [timedNote "a.md" ⟨-1500000000, by decide⟩, timedNote "b.md" ⟨-3000000000, by decide⟩]
  distinct := by decide
  countable := by decide

/-- SQLite puts the earlier note first; in memory the time without a text is first. -/
theorem raggedTable_pages_differ :
    (sqlPage [] [{ field := "file.mtime" }] { offset := 0, limit := some 1 }
        raggedTable.rows).map (fun page => page.records.map LocalRecord.path) = some ["b.md"] ∧
      (memoryPage [] [{ field := "file.mtime" }] { offset := 0, limit := some 1 }
        (raggedTable.rows.map (CachedRow.loaded (fun _ _ => ["note"]) false))).records.map
          LocalRecord.path = ["a.md"] ∧
      ¬PagesAgree raggedTable (fun _ _ => ["note"]) false := by
  have sql : (sqlPage [] [{ field := "file.mtime" }] { offset := 0, limit := some 1 }
      raggedTable.rows).map (fun page => page.records.map LocalRecord.path) = some ["b.md"] := by
    decide +kernel
  have memory : (memoryPage [] [{ field := "file.mtime" }] { offset := 0, limit := some 1 }
      (raggedTable.rows.map (CachedRow.loaded (fun _ _ => ["note"]) false))).records.map
        LocalRecord.path = ["a.md"] := by
    decide +kernel
  refine ⟨sql, memory, ?_⟩
  intro agree
  obtain ⟨page, found, facts, -, -⟩ := agree raggedTable.rows (List.Perm.refl _) []
    [{ field := "file.mtime" }] { offset := 0, limit := some 1 } (by decide)
  rw [found, Option.map_some, Option.some.injEq] at sql
  have paths := congrArg (List.map RecordFacts.path) facts
  simp only [List.map_map, Function.comp_def, LocalRecord.path_facts] at paths
  rw [sql, memory] at paths
  exact absurd paths (by decide)

end Mdbase.Query
