import Mathlib

/-!
# White space

The white space of Unicode and the trimming of texts.
-/

namespace Mdbase.Library

/-- A text, by its characters. -/
abbrev Text := List Char

instance : LawfulBEq Text := inferInstance
instance : LawfulBEq (Option Text) := inferInstance

/-- `char::is_whitespace`. -/
def isWhitespace (character : Char) : Bool :=
  let code := character.toNat
  (0x9 ≤ code ∧ code ≤ 0xd) ∨ code ∈ [0x20, 0x85, 0xa0, 0x1680] ∨
    (0x2000 ≤ code ∧ code ≤ 0x200a) ∨ code ∈ [0x2028, 0x2029, 0x202f, 0x205f, 0x3000]

/-- `str::trim_end`. -/
def trimmedEnd (text : Text) : Text := text.rdropWhile isWhitespace

/-- `str::trim`. -/
def trimmed (text : Text) : Text := trimmedEnd (text.dropWhile isWhitespace)

theorem trimmedEnd_concat {space : Char} (white : isWhitespace space) (text : Text) :
    trimmedEnd (text ++ [space]) = trimmedEnd text :=
  List.rdropWhile_concat_pos _ _ _ white

theorem isPrefix_trimmedEnd (text : Text) : trimmedEnd text <+: text := List.rdropWhile_prefix _ _

end Mdbase.Library
