import Mdbase.Library.Rounding
import Mdbase.Library.Whitespace
import Mdbase.Runtime.Members

/-!
# JSON and YAML values

The fields of a record are read from YAML as JSON and written back. Both have integers of 64 bits,
signed and unsigned, and floats; a value that is written is read again as it was, but for unsigned
integers that are not signed ones: they are written as floats.
-/

namespace Mdbase.Frontmatter

open Library
open Mdbase.Runtime (Value Number Sorted assign i64Max)

/-- `f64` of a YAML number. -/
inductive YamlFloat where
  | finite (value : Rat)
  | infinite (positive : Bool)
  | nan
  deriving DecidableEq

/-- `serde_yaml::Number`. -/
inductive YamlNumber where
  | posInt (value : Nat)
  | negInt (value : Int)
  | float (value : YamlFloat)
  deriving DecidableEq

/-- `n as f64`, of an integer. -/
def intToFloat (value : Int) : Rat := value.sign * (roundBits 53 value.natAbs : Nat)

/-- `serde_json::Number::as_i64`. -/
def jsonAsI64 : Number → Option Int
  | .posInt value => if value ≤ i64Max then some value else none
  | .negInt value => some value
  | .float _ => none

/-- `serde_json::Number::as_f64`. -/
def jsonAsF64 : Number → Option Rat
  | .posInt value => some (intToFloat value)
  | .negInt value => some (intToFloat value)
  | .float value => some value

/-- `serde_yaml::Number::as_i64`. -/
def YamlNumber.asI64 : YamlNumber → Option Int
  | .posInt value => if value ≤ i64Max then some value else none
  | .negInt value => some value
  | .float _ => none

/-- `serde_yaml::Number::as_u64`. -/
def YamlNumber.asU64 : YamlNumber → Option Nat
  | .posInt value => some value
  | .negInt _ | .float _ => none

/-- `serde_yaml::Number::as_f64`. -/
def YamlNumber.asF64 : YamlNumber → Option YamlFloat
  | .posInt value => some (.finite (intToFloat value))
  | .negInt value => some (.finite (intToFloat value))
  | .float value => some value

/-- `serde_json::Number::from`, of an `i64`. -/
def jsonOfI64 (value : Int) : Number := if value < 0 then .negInt value else .posInt value.toNat

/-- `serde_yaml::Number::from`, of an `i64`. -/
def yamlOfI64 (value : Int) : YamlNumber := if value < 0 then .negInt value else .posInt value.toNat

/-- `serde_yaml::Value`, with its numbers. -/
inductive YamlData where
  | null
  | bool (value : Bool)
  | number (value : YamlNumber)
  | string (value : String)
  | sequence (items : List YamlData)
  | mapping (entries : List (YamlData × YamlData))
  | tagged (tag : String) (value : YamlData)

/-- `normalize_yaml_datetime`. The first 19 bytes of a text that it rewrites are ASCII, so they are
its first 19 characters. -/
def normalizeYamlDatetime (value : String) : String :=
  let text := value.toList
  let digits := fun start stop => ((text.take stop).drop start).all Char.isDigit
  if 19 ≤ text.length ∧ text[4]? = some '-' ∧ text[7]? = some '-' ∧ text[10]? = some ' ' ∧
      text[13]? = some ':' ∧ text[16]? = some ':' ∧ digits 0 4 ∧ digits 5 7 ∧ digits 8 10 ∧
      digits 11 13 ∧ digits 14 16 ∧ digits 17 19 then
    String.ofList (text.take 10 ++ 'T' :: text.drop 11)
  else value

/-- `yaml_to_json`, of a number. -/
def yamlNumberToJson (number : YamlNumber) : Value :=
  match number.asI64, number.asU64, number.asF64 with
  | some signed, _, _ => .number (jsonOfI64 signed)
  | none, some unsigned, _ => .number (.posInt unsigned)
  | none, none, some (.infinite positive) => .string (if positive then ".inf" else "-.inf")
  | none, none, some .nan => .string ".nan"
  | none, none, some (.finite value) => .number (.float value)
  | none, none, none => .null

mutual

/-- `yaml_to_json`. -/
def yamlToJson : YamlData → Value
  | .null => .null
  | .bool value => .bool value
  | .number number => yamlNumberToJson number
  | .string value => .string (normalizeYamlDatetime value)
  | .sequence items => .array (yamlItemsToJson items)
  | .mapping entries => .object (yamlMappingToJson entries [])
  | .tagged _ value => yamlToJson value

/-- The items of a sequence. -/
def yamlItemsToJson : List YamlData → List Value
  | [] => []
  | item :: items => yamlToJson item :: yamlItemsToJson items

/-- `yaml_mapping_to_json`, after some entries. -/
def yamlMappingToJson : List (YamlData × YamlData) → List (String × Value) → List (String × Value)
  | [], members => members
  | (.string key, value) :: entries, members =>
    yamlMappingToJson entries (assign members key (some (yamlToJson value)))
  | (.null, _) :: entries, members | (.bool _, _) :: entries, members
  | (.number _, _) :: entries, members | (.sequence _, _) :: entries, members
  | (.mapping _, _) :: entries, members | (.tagged _ _, _) :: entries, members =>
    yamlMappingToJson entries members

end

/-- Is this the key of an entry? -/
def hasKey (key : String) : YamlData × YamlData → Bool
  | (.string other, _) => other = key
  | _ => false

/-- `Mapping::insert`, with a string for its key. -/
def insertField (entries : List (YamlData × YamlData)) (key : String) (value : YamlData) :
    List (YamlData × YamlData) :=
  if entries.any (hasKey key) then
    entries.map fun entry => if hasKey key entry then (entry.1, value) else entry
  else entries ++ [(.string key, value)]

/-- `json_to_yaml`, of a number. -/
def jsonNumberToYaml (number : Number) : YamlData :=
  match jsonAsI64 number, jsonAsF64 number with
  | some signed, _ => .number (yamlOfI64 signed)
  | none, some value => .number (.float (.finite value))
  | none, none => .null

mutual

/-- `json_to_yaml`. -/
def jsonToYaml : Value → YamlData
  | .null => .null
  | .bool value => .bool value
  | .number number => jsonNumberToYaml number
  | .string value => .string value
  | .array items => .sequence (jsonItemsToYaml items)
  | .object members => .mapping (jsonMembersToYaml members [])

/-- The items of an array. -/
def jsonItemsToYaml : List Value → List YamlData
  | [] => []
  | item :: items => jsonToYaml item :: jsonItemsToYaml items

/-- The members of an object, after some entries. -/
def jsonMembersToYaml :
    List (String × Value) → List (YamlData × YamlData) → List (YamlData × YamlData)
  | [], entries => entries
  | (key, value) :: members, entries =>
    jsonMembersToYaml members (insertField entries key (jsonToYaml value))

end

theorem yamlMappingToJson_fields {members : List (String × YamlData)}
    {before : List (String × Value)}
    (sorted : (before.map Prod.fst ++ members.map Prod.fst).Pairwise (· < ·)) :
    yamlMappingToJson (members.map fun member => (.string member.1, member.2)) before =
      before ++ members.map fun member => (member.1, yamlToJson member.2) := by
  induction members generalizing before with
  | nil => rw [List.map_nil, yamlMappingToJson, List.map_nil, List.append_nil]
  | cons member members ih =>
    have later : ∀ other ∈ before, other.1 < member.1 := fun other inside =>
      (List.pairwise_append.mp sorted).2.2 _ (List.mem_map_of_mem inside) _ List.mem_cons_self
    have appended : assign before member.1 (some (yamlToJson member.2)) =
        before ++ [(member.1, yamlToJson member.2)] := by
      rw [assign, List.filter_eq_self.mpr fun other inside => by simp [later other inside],
        List.filter_eq_nil_iff.mpr fun other inside below =>
          lt_asymm (later other inside) (of_decide_eq_true below)]
    rw [List.map_cons, yamlMappingToJson, appended, ih, List.append_assoc]
    · rfl
    · rw [List.map_append, List.append_assoc]
      exact sorted

theorem jsonMembersToYaml_eq {members : List (String × Value)} {before : List (String × YamlData)}
    (distinct : (before.map Prod.fst ++ members.map Prod.fst).Nodup) :
    jsonMembersToYaml members (before.map fun member => (.string member.1, member.2)) =
      (before ++ members.map fun member => (member.1, jsonToYaml member.2)).map
        fun member => (.string member.1, member.2) := by
  induction members generalizing before with
  | nil => rw [jsonMembersToYaml, List.map_nil, List.append_nil]
  | cons member members ih =>
    obtain ⟨name, value⟩ := member
    have fresh : ∀ other ∈ before, other.1 ≠ name := fun other inside =>
      (List.nodup_append.mp distinct).2.2 _ (List.mem_map_of_mem inside) _ List.mem_cons_self
    have appended : insertField (before.map fun member => (.string member.1, member.2)) name
        (jsonToYaml value) =
          (before ++ [(name, jsonToYaml value)]).map
            fun member => (.string member.1, member.2) := by
      rw [insertField, if_neg]
      · rw [List.map_append]
        rfl
      · rw [List.any_map, List.any_eq_true]
        rintro ⟨other, inside, same⟩
        exact fresh other inside (of_decide_eq_true same)
    rw [jsonMembersToYaml, appended, ih, List.append_assoc]
    · rfl
    · rw [List.map_append, List.append_assoc]
      exact distinct

theorem jsonItemsToYaml_eq (items : List Value) : jsonItemsToYaml items = items.map jsonToYaml := by
  induction items with
  | nil => rfl
  | cons item items ih => rw [jsonItemsToYaml, ih, List.map_cons]

theorem yamlItemsToJson_eq (items : List YamlData) :
    yamlItemsToJson items = items.map yamlToJson := by
  induction items with
  | nil => rfl
  | cons item items ih => rw [yamlItemsToJson, ih, List.map_cons]

/-- A value that is written as YAML and read again. -/
def projected (value : Value) : Value := yamlToJson (jsonToYaml value)

theorem projected_array (items : List Value) :
    projected (.array items) = .array (items.map projected) := by
  rw [projected, jsonToYaml, yamlToJson, jsonItemsToYaml_eq, yamlItemsToJson_eq, List.map_map]
  rfl

theorem projected_object {members : List (String × Value)} (sorted : Sorted members) :
    projected (.object members) =
      .object (members.map fun member => (member.1, projected member.2)) := by
  have written := @jsonMembersToYaml_eq members [] (sorted.imp ne_of_lt)
  rw [List.map_nil, List.nil_append] at written
  rw [projected, jsonToYaml, yamlToJson, written, yamlMappingToJson_fields, List.map_map]
  · rfl
  · rw [List.map_map]
    exact sorted

/-- A value is a part of another. -/
inductive Part (part : Value) : Value → Prop where
  | whole : Part part part
  | item {items : List Value} {item : Value} (member : item ∈ items) (inside : Part part item) :
      Part part (.array items)
  | member {members : List (String × Value)} {member : String × Value} (here : member ∈ members)
      (inside : Part part member.2) : Part part (.object members)

/-- A number that `serde_json` can hold. -/
def Held : Number → Prop
  | .posInt value => value < 2 ^ 64
  | .negInt value => -2 ^ 63 ≤ value ∧ value < 0
  | .float _ => True

theorem projected_number_iff {number : Number} (held : Held number) :
    projected (.number number) = .number number ↔
      ∀ unsigned, number = .posInt unsigned → unsigned ≤ i64Max := by
  cases number with
  | posInt value =>
    by_cases fits : value ≤ i64Max
    · refine iff_of_true ?_ (by rintro _ ⟨⟩; exact fits)
      have positive : ¬(value : Int) < 0 := by omega
      simp [positive, projected, jsonToYaml, jsonNumberToYaml, jsonAsI64, fits, yamlOfI64,
        yamlToJson, yamlNumberToJson, YamlNumber.asI64, jsonOfI64]
    · refine iff_of_false ?_ fun all => fits (all value rfl)
      simp [projected, jsonToYaml, jsonNumberToYaml, jsonAsI64, fits, jsonAsF64, yamlToJson,
        yamlNumberToJson, YamlNumber.asI64, YamlNumber.asU64, YamlNumber.asF64]
  | negInt value =>
    refine iff_of_true ?_ nofun
    simp [projected, jsonToYaml, jsonNumberToYaml, jsonAsI64, yamlOfI64, held.2, yamlToJson,
      yamlNumberToJson, YamlNumber.asI64, jsonOfI64]
  | float value => exact iff_of_true rfl nofun

theorem map_eq_self_iff {α : Type} {change : α → α} {items : List α} :
    items.map change = items ↔ ∀ item ∈ items, change item = item := by
  conv_lhs => rhs; rw [← List.map_id items]
  exact List.map_inj_left

/-- A value comes back as it was exactly when it has no unsigned integer above the signed ones. -/
theorem yamlToJson_jsonToYaml_iff {value : Value} (ordered : value.Ordered)
    (held : ∀ number, Part (.number number) value → Held number)
    (plain : ∀ text, Part (.string text) value → normalizeYamlDatetime text = text) :
    yamlToJson (jsonToYaml value) = value ↔
      ∀ unsigned, Part (.number (.posInt unsigned)) value → unsigned ≤ i64Max := by
  change projected value = value ↔ _
  induction ordered with
  | null | bool value => exact iff_of_true rfl nofun
  | string text =>
    refine iff_of_true ?_ nofun
    exact congrArg Value.string (plain text .whole)
  | number number =>
    rw [projected_number_iff (held number .whole)]
    refine forall_congr' fun unsigned => imp_congr_left ⟨?_, fun part => ?_⟩
    · rintro rfl
      exact .whole
    · cases part
      rfl
  | array all ih =>
    rw [projected_array, Value.array.injEq, map_eq_self_iff]
    constructor
    · rintro same unsigned (_ | ⟨member, inside⟩)
      exact (ih _ member (fun number part => held number (.item member part))
        fun text part => plain text (.item member part)).mp (same _ member) unsigned inside
    · intro all item member
      exact (ih _ member (fun number part => held number (.item member part))
        fun text part => plain text (.item member part)).mpr fun unsigned inside =>
          all unsigned (.item member inside)
  | object sorted all ih =>
    rw [projected_object sorted, Value.object.injEq, map_eq_self_iff]
    constructor
    · rintro same unsigned (_ | _ | ⟨member, inside⟩)
      exact (ih _ member (fun number part => held number (.member member part))
        fun text part => plain text (.member member part)).mp
          (congrArg Prod.snd (same _ member)) unsigned inside
    · intro all item member
      refine Prod.ext rfl ((ih _ member
        (fun number part => held number (.member member part))
        fun text part => plain text (.member member part)).mpr fun unsigned inside =>
          all unsigned (.member member inside))

/-- A list of a number of each sign, a float and a time that is not rewritten. -/
theorem yamlToJson_jsonToYaml_sample :
    yamlToJson (jsonToYaml (.object [("all", .array [.number (.posInt 3), .number (.negInt (-2)),
      .number (.float (1 / 2)), .string "2024-01-02T03:04:05"])])) =
    .object [("all", .array [.number (.posInt 3), .number (.negInt (-2)),
      .number (.float (1 / 2)), .string "2024-01-02T03:04:05"])] := by
  have leaves : ∀ part, Part part (.object [("all", .array [.number (.posInt 3),
      .number (.negInt (-2)), .number (.float (1 / 2)), .string "2024-01-02T03:04:05"])]) →
      (∃ members, part = .object members) ∨ (∃ items, part = .array items) ∨
        part ∈ [.number (.posInt 3), .number (.negInt (-2)), .number (.float (1 / 2)),
          .string "2024-01-02T03:04:05"] := by
    rintro part (_ | _ | ⟨here, inside⟩)
    · exact .inl ⟨_, rfl⟩
    · obtain rfl := List.mem_singleton.mp here
      rcases inside with _ | ⟨member, inside⟩
      · exact .inr (.inl ⟨_, rfl⟩)
      · refine .inr (.inr ?_)
        simp only [List.mem_cons, List.not_mem_nil, or_false] at member ⊢
        rcases member with rfl | rfl | rfl | rfl <;> cases inside <;> simp
  have single : ∀ member : String × Value, Sorted [member] := fun _ => List.pairwise_singleton _ _
  refine (yamlToJson_jsonToYaml_iff (.object (single _) ?_) ?_ ?_).mpr ?_
  · refine List.forall_mem_singleton.mpr (.array ?_)
    simp only [List.mem_cons, List.not_mem_nil, or_false]
    rintro item (rfl | rfl | rfl | rfl)
    · exact .number _
    · exact .number _
    · exact .number _
    · exact .string _
  · intro number part
    rcases leaves _ part with ⟨_, ⟨⟩⟩ | ⟨_, ⟨⟩⟩ | leaf
    simp at leaf
    rcases leaf with rfl | rfl | rfl
    · exact (by decide : 3 < 2 ^ 64)
    · exact (by decide : -2 ^ 63 ≤ (-2 : Int) ∧ (-2 : Int) < 0)
    · trivial
  · intro text part
    rcases leaves _ part with ⟨_, ⟨⟩⟩ | ⟨_, ⟨⟩⟩ | leaf
    simp at leaf
    subst leaf
    decide +kernel
  · intro unsigned part
    rcases leaves _ part with ⟨_, ⟨⟩⟩ | ⟨_, ⟨⟩⟩ | leaf
    simp at leaf
    subst leaf
    decide

/-- An unsigned integer comes back as a float. -/
theorem unsigned_becomes_float :
    ¬∀ value : Value, value.Ordered → (∀ number, Part (.number number) value → Held number) →
      (∀ text, Part (.string text) value → normalizeYamlDatetime text = text) →
      yamlToJson (jsonToYaml value) = value := by
  intro all
  have same := all (.number (.posInt (2 ^ 64 - 1))) (.number _)
    (by rintro _ ⟨⟩; exact (by decide : 2 ^ 64 - 1 < 2 ^ 64)) nofun
  revert same
  decide +kernel

end Mdbase.Frontmatter
