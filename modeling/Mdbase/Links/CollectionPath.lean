import Mdbase.Library.Fallible
import Mdbase.Library.Whitespace

/-!
# Paths of a collection

A path of a collection is relative, has `/` between its components and can be a file
name on every platform.
-/

namespace Mdbase.Links

open Library

/-- `CollectionPathError`. -/
inductive CollectionPathError where
  | empty
  | absolute
  | traversal
  | currentDirectory
  | emptyComponent
  | nullByte
  | nonUnicode
  | platformUnsafe
  deriving DecidableEq

/-- `char::is_control`. -/
def isControl (character : Char) : Bool :=
  character.toNat < 0x20 ∨ (0x7f ≤ character.toNat ∧ character.toNat < 0xa0)

/-- `is_reserved_device_suffix`. -/
def isReservedDeviceSuffix (value : Text) : Bool :=
  value ∈ [['1'], ['2'], ['3'], ['4'], ['5'], ['6'], ['7'], ['8'], ['9'], ['¹'], ['²'], ['³']]

/-- A component that names a device, whatever its extension. -/
def isReservedDevice (component : Text) : Bool :=
  let basename := (component.takeWhile (· ≠ '.')).map Char.toUpper
  basename ∈ [['C', 'O', 'N'], ['P', 'R', 'N'], ['A', 'U', 'X'], ['N', 'U', 'L']] ||
    (basename.take 3 ∈ [['C', 'O', 'M'], ['L', 'P', 'T']] &&
      isReservedDeviceSuffix (basename.drop 3))

/-- `validate_portable_component`, with the components that are refused before it. -/
def validateComponent (component : Text) : Except CollectionPathError Text :=
  if component = [] then .error .emptyComponent
  else if component = ['.'] then .error .currentDirectory
  else if component = ['.', '.'] then .error .traversal
  else if component.any (fun character =>
      character ∈ ['<', '>', ':', '"', '|', '?', '*'] || isControl character) then
    .error .platformUnsafe
  else if component.getLast? ∈ [some '.', some ' '] then .error .platformUnsafe
  else if isReservedDevice component then .error .platformUnsafe
  else .ok component

/-- A path that is rooted or carries a drive. -/
def isAbsolute : Text → Bool
  | '/' :: _ | '\\' :: _ => true
  | drive :: ':' :: _ => drive.isAlpha
  | _ => false

/-- The components of a path. -/
def components (path : Text) : List Text := path.splitOn '/'

/-- `input.replace('\\', "/")`. -/
def forwardSlashes (path : Text) : Text :=
  path.map fun character => if character = '\\' then '/' else character

/-- `CollectionPath::new`, by the text of the path. -/
def collectionPath (input : String) : Except CollectionPathError String :=
  let path := input.toList
  if path = [] then .error .empty
  else if Char.ofNat 0 ∈ path then .error .nullByte
  else if isAbsolute path then .error .absolute
  else
    match (components (forwardSlashes path)).mapM validateComponent with
    | .ok parts => .ok (String.ofList (['/'].intercalate parts))
    | .error error => .error error

/-- The text before the last `/`, or nothing. -/
def directory (path : String) : Text := (path.toList.rdropWhile (· ≠ '/')).dropLast

/-- The number of components of a path. -/
def depth (path : String) : Nat := (components path.toList).length

/-- `Path::file_name`: the last component that is not `.`, unless it is `..`. -/
def fileName (path : String) : Option Text :=
  ((components path.toList).filter fun component =>
    component ≠ [] ∧ component ≠ ['.']).getLast?.filter (· ≠ ['.', '.'])

/-- The part of a file name before its last dot. -/
def beforeLastDot (name : Text) : Text := (name.rdropWhile (· ≠ '.')).dropLast

/-- `Path::file_stem`. -/
def fileStem (path : String) : Option Text :=
  (fileName path).map fun name => if beforeLastDot name = [] then name else beforeLastDot name

/-- Has a path an extension, `Path::extension`? -/
def hasExtension (path : String) : Bool := (fileName path).any fun name => beforeLastDot name ≠ []

theorem validateComponent_ok {component part : Text}
    (ok : validateComponent component = .ok part) : part = component := by
  unfold validateComponent at ok
  split_ifs at ok
  exact (Except.ok.inj ok).symm

variable {parts valid : List Text}

theorem mapM_validateComponent_ok
    (ok : parts.mapM validateComponent = .ok valid) : valid = parts := by
  have images := (forall₂_of_mapM_ok ok).imp fun _ _ => validateComponent_ok
  exact List.forall₂_eq_eq_eq ▸ images.flip

variable {part : Text}

theorem validateComponent_of_mapM
    (ok : parts.mapM validateComponent = .ok valid) (member : part ∈ parts) :
    ∃ component, validateComponent part = .ok component := by
  obtain ⟨component, _, validated⟩ := exists_image_of_mapM_ok ok member
  exact ⟨component, validated⟩

theorem ne_of_validateComponent (valid : ∃ component, validateComponent part = .ok component) :
    part ≠ [] ∧ part ≠ ['.'] ∧ part ≠ ['.', '.'] := by
  obtain ⟨component, ok⟩ := valid
  unfold validateComponent at ok
  split_ifs at ok with empty current parent
  exact ⟨empty, current, parent⟩

theorem collectionPath_ok {input path : String} (ok : collectionPath input = .ok path) :
    path = String.ofList (forwardSlashes input.toList) := by
  simp only [collectionPath] at ok
  split_ifs at ok
  split at ok
  next parts valid =>
    cases ok
    rw [mapM_validateComponent_ok valid, components, List.intercalate_splitOn]
  next => cases ok

theorem forwardSlashes_idem (path : Text) :
    forwardSlashes (forwardSlashes path) = forwardSlashes path := by
  simp only [forwardSlashes, List.map_map]
  refine List.map_congr_left fun character _ => ?_
  by_cases backslash : character = '\\' <;> simp [backslash]

theorem isAbsolute_forwardSlashes (path : Text) :
    isAbsolute (forwardSlashes path) = isAbsolute path := by
  match path with
  | [] => rfl
  | [character] =>
    by_cases slash : character = '/'
    · subst slash
      rfl
    · by_cases backslash : character = '\\'
      · subst backslash
        rfl
      · simp [forwardSlashes, isAbsolute, slash, backslash]
  | character :: next :: rest =>
    by_cases slash : character = '/'
    · subst slash
      rfl
    · by_cases backslash : character = '\\'
      · subst backslash
        rfl
      · have head : forwardSlashes (character :: next :: rest) =
            character :: (if next = '\\' then '/' else next) :: forwardSlashes rest := by
          simp [forwardSlashes, backslash]
        rw [head]
        by_cases colon : next = ':'
        · subst colon
          simp [isAbsolute]
        · by_cases mark : next = '\\'
          · subst mark
            simp [isAbsolute, slash, backslash]
          · simp [isAbsolute, slash, backslash, colon, mark]

variable {path canonical : String}

theorem collectionPath_idem (valid : collectionPath path = .ok canonical) :
    collectionPath canonical = .ok canonical := by
  have text := collectionPath_ok valid
  subst text
  simp only [collectionPath, String.toList_ofList] at valid ⊢
  rw [isAbsolute_forwardSlashes, forwardSlashes_idem]
  split_ifs at valid with empty null absolute
  have nonempty : forwardSlashes path.toList ≠ [] := by
    simpa [forwardSlashes] using empty
  have noNull : Char.ofNat 0 ∉ forwardSlashes path.toList := by
    intro member
    obtain ⟨character, inside, same⟩ := List.mem_map.mp member
    split at same
    next => exact absurd same (by decide)
    next => exact null (same ▸ inside)
  rw [if_neg nonempty, if_neg noNull, if_neg absolute]
  exact valid

theorem components_cons (character : Char) (path : Text) :
    components (character :: path) =
      if character = '/' then [] :: components path
      else (components path).modifyHead (List.cons character) := by
  simp [components, List.splitOn_cons_eq_if_modifyHead]

/-- The components of a path with forward slashes are those of the path, as far as they
have no backslash. The first one is compared by itself: the character before it joins it. -/
theorem components_forwardSlashes (path : Text) :
    ∃ first rest first' rest', components path = first :: rest ∧
      components (forwardSlashes path) = first' :: rest' ∧
      ('\\' ∉ first → first' = first) ∧ ∀ part ∈ rest, '\\' ∉ part → part ∈ rest' := by
  induction path with
  | nil => exact ⟨[], [], [], [], rfl, rfl, fun _ => rfl, fun _ member => by cases member⟩
  | cons character path ih =>
    obtain ⟨first, rest, first', rest', raw, slashed, same, kept⟩ := ih
    have step : forwardSlashes (character :: path) =
        (if character = '\\' then '/' else character) :: forwardSlashes path := rfl
    have later : ∀ part ∈ first :: rest, '\\' ∉ part → part ∈ first' :: rest' := by
      intro part member plain
      rcases List.mem_cons.mp member with rfl | member
      · exact same plain ▸ List.mem_cons_self
      · exact List.mem_cons_of_mem _ (kept part member plain)
    rw [step, components_cons, components_cons, raw, slashed]
    by_cases slash : character = '/'
    · subst slash
      exact ⟨[], _, [], _, rfl, rfl, fun _ => rfl, later⟩
    · by_cases backslash : character = '\\'
      · subst backslash
        exact ⟨_, rest, [], _, rfl, rfl, fun plain => absurd List.mem_cons_self plain,
          fun part member => later part (List.mem_cons_of_mem _ member)⟩
      · rw [if_neg slash, if_neg backslash, if_neg slash]
        refine ⟨_, rest, _, rest', rfl, rfl, fun plain => ?_, kept⟩
        rw [same fun member => plain (List.mem_cons_of_mem _ member)]

theorem ne_of_mem_components (valid : collectionPath path = .ok canonical)
    (member : part ∈ components path.toList) :
    part ≠ [] ∧ part ≠ ['.'] ∧ part ≠ ['.', '.'] := by
  have named : ∀ part ∈ components (forwardSlashes path.toList),
      part ≠ [] ∧ part ≠ ['.'] ∧ part ≠ ['.', '.'] := by
    simp only [collectionPath] at valid
    split_ifs at valid
    split at valid
    next parts ok =>
      exact fun part partMember => ne_of_validateComponent (validateComponent_of_mapM ok partMember)
    next => cases valid
  have plainName : '\\' ∉ part → part ∈ components (forwardSlashes path.toList) := by
    obtain ⟨first, rest, first', rest', raw, slashed, same, kept⟩ :=
      components_forwardSlashes path.toList
    intro plain
    rw [raw] at member
    rw [slashed]
    rcases List.mem_cons.mp member with rfl | member
    · exact same plain ▸ List.mem_cons_self
    · exact List.mem_cons_of_mem _ (kept part member plain)
  refine ⟨?_, ?_, ?_⟩ <;> rintro rfl
  · exact (named _ (plainName (by simp))).1 rfl
  · exact (named _ (plainName (by simp))).2.1 rfl
  · exact (named _ (plainName (by simp))).2.2 rfl

theorem exists_fileStem (valid : collectionPath path = .ok canonical) :
    ∃ stem, fileStem path = some stem := by
  have whole : (components path.toList).filter (fun component =>
      component ≠ [] ∧ component ≠ ['.']) = components path.toList := by
    refine List.filter_eq_self.mpr fun part member => ?_
    have named := ne_of_mem_components valid member
    simp [named.1, named.2.1]
  have nonempty : components path.toList ≠ [] := by
    obtain ⟨first, rest, _, _, raw, _⟩ := components_forwardSlashes path.toList
    simp [raw]
  have last := List.getLast_mem nonempty
  have name : fileName path = some ((components path.toList).getLast nonempty) := by
    rw [fileName, whole, List.getLast?_eq_some_getLast nonempty, Option.filter_some,
      if_pos (by simpa using (ne_of_mem_components valid last).2.2)]
  rw [fileStem, name]
  exact ⟨_, rfl⟩

end Mdbase.Links
