import Mdbase.Provider.Cursor

/-!
# The tokens of cursors

A token that a store has issued is cut into its parts again, unless the epoch of the
store has a colon. A store that reads one of its tokens reads all of them.
-/

namespace Mdbase.Provider

open Library
open Mdbase.Runtime (u64Max Value)

theorem colon_not_mem_uuid (id : Uuid) : ':' ∉ id.text.toList := by
  intro member
  obtain ⟨index, inside, same⟩ := List.mem_iff_getElem.mp member
  have here : (':', index) ∈ id.text.toList.zipIdx := by
    rw [List.mk_mem_zipIdx_iff_getElem?, List.getElem?_eq_getElem inside, same]
  have printed := id.printed
  simp only [isUuidText, decide_eq_true_eq] at printed
  have allowed := List.all_eq_true.mp printed.2 _ here
  dsimp only at allowed
  split at allowed
  next => simp at allowed
  next => exact absurd allowed (by decide)

theorem toString_toList (index : Nat) : (toString index).toList = Nat.toDigits 10 index := by
  simp

theorem colon_not_mem_toString (index : Nat) : ':' ∉ (toString index).toList := by
  intro member
  rw [toString_toList] at member
  have digit := Nat.isDigit_of_mem_toDigits (by decide) (by decide) member
  exact absurd digit (by decide)

theorem digitChar_hex {value : Nat} (below : value < 16) :
    Nat.digitChar value ≠ ':' ∧ (Nat.digitChar value).utf8Size = 1 := by
  interval_cases value <;> decide

theorem hexByte_spec (byte : UInt8) :
    (hexByte byte).length = 2 ∧ ∀ c ∈ hexByte byte, c ≠ ':' ∧ c.utf8Size = 1 := by
  have high : byte.toNat / 16 < 16 := by
    have bound := byte.toNat_lt
    omega
  have low : byte.toNat % 16 < 16 := Nat.mod_lt _ (by decide)
  refine ⟨rfl, ?_⟩
  intro c member
  simp only [hexByte, List.mem_cons, List.not_mem_nil, or_false] at member
  rcases member with rfl | rfl
  · exact digitChar_hex high
  · exact digitChar_hex low

theorem utf8Len_eq_length {chars : List Char} (single : ∀ c ∈ chars, c.utf8Size = 1) :
    String.utf8Len chars = chars.length := by
  induction chars with
  | nil => rfl
  | cons c rest ih =>
    have here := single c List.mem_cons_self
    have later := ih fun other member => single other (List.mem_cons_of_mem _ member)
    rw [String.utf8Len_cons, later, here, List.length_cons]

theorem cursorMac_spec (sha256 : List UInt8 → Vector UInt8 32) (key : List UInt8)
    (message : String) :
    (cursorMac sha256 key message).utf8ByteSize = 64 ∧
      ':' ∉ (cursorMac sha256 key message).toList := by
  unfold cursorMac
  dsimp only
  generalize sha256 _ = outer
  have characters : ∀ c ∈ outer.toList.flatMap hexByte, c ≠ ':' ∧ c.utf8Size = 1 := by
    intro c member
    obtain ⟨byte, _, here⟩ := List.mem_flatMap.mp member
    exact (hexByte_spec byte).2 c here
  have length : (outer.toList.flatMap hexByte).length = 64 := by
    have each : outer.toList.map (List.length ∘ hexByte) = List.replicate 32 2 := by
      refine List.eq_replicate_iff.mpr ⟨by simp, ?_⟩
      intro count member
      obtain ⟨byte, _, rfl⟩ := List.mem_map.mp member
      exact (hexByte_spec byte).1
    rw [List.length_flatMap]
    change (outer.toList.map (List.length ∘ hexByte)).sum = 64
    rw [each]
    rfl
  constructor
  · rw [String.utf8ByteSize_ofList, utf8Len_eq_length fun c member => (characters c member).2,
      length]
  · rw [String.toList_ofList]
    exact fun member => (characters _ member).1 rfl

variable {index : Nat}

theorem parseUsize_toString (bound : index ≤ u64Max) :
    parseUsize (toString index) = some index := by
  have digits : ∀ c ∈ Nat.toDigits 10 index, c.isDigit = true := fun c member =>
    Nat.isDigit_of_mem_toDigits (by decide) (by decide) member
  have unsigned : withoutPlus (toString index).toList = Nat.toDigits 10 index := by
    rw [toString_toList]
    unfold withoutPlus
    split
    next rest plus =>
      have sign := digits '+' (by rw [plus]; exact List.mem_cons_self)
      exact absurd sign (by decide)
    next => rfl
  unfold parseUsize
  dsimp only
  rw [unsigned, Nat.ofDigitChars_ten_toDigits]
  exact if_pos ⟨Nat.toDigits_ne_nil, List.all_eq_true.mpr digits, bound⟩

variable {Source : Type} {externals : CursorExternals Source}

theorem issue_parts (store : CursorStore Source) (id : Uuid) (index : Nat) :
    ((store.issue externals id.text index).token.toList.splitOn ':').map String.ofList =
      "v1" :: ((store.runtimeEpoch.toList.splitOn ':').map String.ofList ++
        [id.text, toString index, cursorMac externals.sha256 store.signingKey
          (cursorMessage store.runtimeEpoch id.text index)]) := by
  have mac := (cursorMac_spec externals.sha256 store.signingKey
    (cursorMessage store.runtimeEpoch id.text index)).2
  have text : (store.issue externals id.text index).token.toList =
      ['v', '1'] ++ ':' :: (store.runtimeEpoch.toList ++ ':' :: (id.text.toList ++ ':' ::
        ((toString index).toList ++ ':' :: (cursorMac externals.sha256 store.signingKey
          (cursorMessage store.runtimeEpoch id.text index)).toList))) := by
    simp [CursorStore.issue, cursorMessage, String.toList_append]
  have version : ':' ∉ ['v', '1'] := by decide
  rw [text, List.splitOn_append_cons_self_of_not_mem version, List.splitOn_append_cons_self,
    List.splitOn_append_cons_self_of_not_mem (colon_not_mem_uuid id),
    List.splitOn_append_cons_self_of_not_mem (colon_not_mem_toString index),
    List.splitOn_eq_singleton mac]
  simp only [List.map_cons, List.map_append, String.ofList_toList, List.map_nil]

/-- The epoch of the store has no colon. -/
def CursorStore.Readable (store : CursorStore Source) : Prop :=
  (store.runtimeEpoch.toList.splitOn ':').length = 1

variable {store : CursorStore Source}

theorem authenticate_issue (readable : store.Readable) (id : Uuid) (bound : index ≤ u64Max) :
    store.authenticate externals (store.issue externals id.text index) = .ok (id.text, index) := by
  obtain ⟨epoch, single⟩ := List.length_eq_one_iff.mp readable
  have same : epoch = store.runtimeEpoch.toList := by
    have joined := @List.intercalate_splitOn _ store.runtimeEpoch.toList _ _ ':'
    rw [single] at joined
    simpa using joined
  unfold CursorStore.authenticate
  rw [issue_parts, single, same]
  simp only [List.map_cons, List.map_nil, String.ofList_toList, List.cons_append, List.nil_append]
  rw [if_neg (by simp [(cursorMac_spec _ _ _).1]), if_neg (by simp), if_neg (by simp [id.printed]),
    parseUsize_toString bound]
  simp

theorem authenticate_issue_ok {id : Uuid} {found : String × Nat} (bound : index ≤ u64Max)
    (accepted : store.authenticate externals (store.issue externals id.text index) = .ok found) :
    store.Readable ∧ found = (id.text, index) := by
  have readable : store.Readable := by
    unfold CursorStore.authenticate at accepted
    rw [issue_parts] at accepted
    split at accepted
    next version epoch other number mac parts =>
      have length := congrArg List.length parts
      simp only [List.length_cons, List.length_append, List.length_map, List.length_nil] at length
      unfold CursorStore.Readable
      omega
    next => cases accepted
  refine ⟨readable, ?_⟩
  rw [authenticate_issue readable id bound] at accepted
  exact (Except.ok.inj accepted).symm

end Mdbase.Provider
