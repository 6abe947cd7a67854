import Mdbase.Links.CollectionPath

/-!
# Which paths belong to a collection

The path policy of a collection decides by its settings which paths are records: folders with
a role of their own, hidden components and excluded patterns are left out. Patterns of v0.3 are
portable globs over whole components. Patterns of v0.2 are matched against the text of the path.
-/

namespace Mdbase.Watch

open Library Links

/-- The ranges of a class, up to the `]` that closes it, and what follows. -/
def parseRanges (ranges : List (Char × Char)) (first : Bool) :
    Text → Option (List (Char × Char) × Text)
  | [] => none
  | character :: '-' :: last :: rest =>
    if character = ']' ∧ first = false then some (ranges, '-' :: last :: rest)
    else if last ≠ ']' then parseRanges (ranges ++ [(character, last)]) false rest
    else parseRanges (ranges ++ [(character, character)]) false ('-' :: last :: rest)
  | character :: rest =>
    if character = ']' ∧ first = false then some (ranges, rest)
    else parseRanges (ranges ++ [(character, character)]) false rest

/-- `CharClass`. -/
structure CharClass where
  negated : Bool
  ranges : List (Char × Char)

/-- `CharClass::matches`. -/
def CharClass.matches_ (class_ : CharClass) (character : Char) : Bool :=
  (class_.ranges.any fun (low, high) => low ≤ character && character ≤ high) != class_.negated

/-- `parse_class`. -/
def parseClass : Text → Option (CharClass × Text)
  | '!' :: body => (parseRanges [] true body).map fun (ranges, after) => (⟨true, ranges⟩, after)
  | body => (parseRanges [] true body).map fun (ranges, after) => (⟨false, ranges⟩, after)

theorem length_parseRanges {ranges found : List (Char × Char)} {first : Bool}
    {body after : Text} (parsed : parseRanges ranges first body = some (found, after)) :
    after.length < body.length := by
  induction ranges, first, body using parseRanges.induct with
  | case1 => cases parsed
  | case2 ranges first character last rest closed =>
    rw [parseRanges, if_pos closed] at parsed
    cases parsed
    exact Nat.lt_succ_self _
  | case3 ranges first character last rest inside range ih =>
    rw [parseRanges, if_neg inside, if_pos range] at parsed
    have shorter := ih parsed
    simp only [List.length_cons]
    omega
  | case4 ranges first character last rest inside range ih =>
    rw [parseRanges, if_neg inside, if_neg range] at parsed
    exact (ih parsed).trans (Nat.lt_succ_self _)
  | case5 ranges first character rest single closed =>
    rw [parseRanges, if_pos closed] at parsed
    · cases parsed
      exact Nat.lt_succ_self _
    · exact single
  | case6 ranges first character rest single inside ih =>
    rw [parseRanges, if_neg inside] at parsed
    · exact (ih parsed).trans (Nat.lt_succ_self _)
    · exact single

theorem length_parseClass {class_ : CharClass} {body after : Text}
    (parsed : parseClass body = some (class_, after)) : after.length < body.length := by
  unfold parseClass at parsed
  split at parsed
  next rest =>
    obtain ⟨⟨ranges, found⟩, here, same⟩ := Option.map_eq_some_iff.mp parsed
    cases same
    exact (length_parseRanges here).trans (Nat.lt_succ_self _)
  obtain ⟨⟨ranges, found⟩, here, same⟩ := Option.map_eq_some_iff.mp parsed
  cases same
  exact length_parseRanges here

/-- Does a rest of a list satisfy a test, the list itself included? -/
def anySuffix {α : Type} (test : List α → Bool) : List α → Bool
  | [] => test []
  | first :: rest => test (first :: rest) || anySuffix test rest

/-- `match_segment`. A `*` that takes a character is tried again on the rest of the text. -/
def matchSegment (text pattern : Text) : Bool :=
  match pattern with
  | [] => text.isEmpty
  | '*' :: rest => anySuffix (fun text => matchSegment text rest) text
  | '?' :: rest =>
    match text with
    | [] => false
    | _ :: remaining => matchSegment remaining rest
  | '[' :: rest =>
    match _parsed : parseClass rest, text with
    | some (class_, after), character :: remaining =>
      class_.matches_ character && matchSegment remaining after
    | none, character :: remaining => character = '[' && matchSegment remaining rest
    | _, [] => false
  | literal :: rest =>
    match text with
    | [] => false
    | character :: remaining => character = literal && matchSegment remaining rest
termination_by pattern.length
decreasing_by
  all_goals simp_wf
  have shorter := length_parseClass _parsed
  omega

/-- `match_components`. A `**` that takes a component is tried again on the rest of the path. -/
def matchComponents (path : List Text) : List Text → Bool
  | [] => path.isEmpty
  | first :: rest =>
    if first = ['*', '*'] then anySuffix (fun path => matchComponents path rest) path
    else
      match path with
      | [] => false
      | component :: remaining => matchSegment component first && matchComponents remaining rest

/-- `portable_glob_match`. -/
def portableGlobMatch (pattern path : Text) : Bool :=
  matchComponents (components path) (components pattern)

/-- `path.starts_with(prefix)`. -/
def startsWith (start path : Text) : Bool := start.isPrefixOf path

/-- Is a path the path of a folder, or below it? -/
def isAtOrBelow (folder path : Text) : Bool := path = folder || startsWith (folder ++ ['/']) path

/-- `match_glob_pattern`. -/
def matchGlobPattern (pattern path : Text) : Bool :=
  if ['/', '*', '*'].isSuffixOf pattern then
    isAtOrBelow (pattern.take (pattern.length - 3)) path
  else if startsWith ['*', '.'] pattern then (pattern.drop 1).isSuffixOf path
  else
    match pattern.splitOn '*' with
    | [start, ending] => startsWith start path && ending.isSuffixOf path
    | _ => isAtOrBelow pattern path

/-- `has_hidden_component`. -/
def hasHiddenComponent (path : Text) : Bool :=
  (components (forwardSlashes path)).any (startsWith ['.'])

/-- `Settings`, as far as they decide about paths, with the profile of the collection. -/
structure PathSettings where
  isCanonical : Bool
  extensions : List Text
  exclude : List Text
  includeSubfolders : Bool
  typesFolder : Text
  contractsFolder : Text
  migrationsFolder : Text
  cacheFolder : Text

namespace PathSettings

/-- `is_excluded_without_nested_collection`. -/
def isExcluded (settings : PathSettings) (path : Text) : Bool :=
  isAtOrBelow settings.typesFolder path || isAtOrBelow settings.contractsFolder path ||
    isAtOrBelow settings.cacheFolder path || isAtOrBelow settings.migrationsFolder path ||
    (settings.cacheFolder ≠ ".mdbase".toList && isAtOrBelow ".mdbase".toList path) ||
    path ∈ ["mdbase.yaml".toList, "mdbase.lock.yaml".toList] ||
    if settings.isCanonical then
      (components path).any (fun component =>
        startsWith ['.'] component || component = "node_modules".toList) ||
        settings.exclude.any fun pattern => portableGlobMatch pattern path
    else
      settings.exclude.any (fun pattern => matchGlobPattern pattern path) ||
        (!settings.includeSubfolders && path.contains '/')

/-- `is_valid_extension`. -/
def isValidExtension (settings : PathSettings) (path : Text) : Bool :=
  ".md".toList.isSuffixOf path ||
    settings.extensions.any fun extension => ('.' :: extension).isSuffixOf path

/-- `validate_record_path_after_traversal` accepts a path. -/
def isRecordPath (settings : PathSettings) (path : Text) : Bool :=
  (collectionPath (String.ofList path)).isOk && !hasHiddenComponent path &&
    !settings.isExcluded path && settings.isValidExtension path

end PathSettings

end Mdbase.Watch
