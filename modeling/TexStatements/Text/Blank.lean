import TexStatements.Text.Basic

/-!
# Blank characters

A character is blank when it has the Unicode property `White_Space`. Blanks separate words,
surround names and captions, and may stand between a command and its arguments. The zero-width
space U+200B and the byte-order mark U+FEFF are not blank.
-/
namespace TexStatements

/-- The Unicode property `White_Space`. -/
def isBlank (c : Char) : Bool :=
  let code := c.val.toNat
  (0x09 ≤ code && code ≤ 0x0D) || code == 0x20 || code == 0x85 || code == 0xA0 ||
    code == 0x1680 || (0x2000 ≤ code && code ≤ 0x200A) || code == 0x2028 || code == 0x2029 ||
    code == 0x202F || code == 0x205F || code == 0x3000

namespace Text

/-- A text without its leading blanks. -/
def trimStart (text : Text) : Text := text.dropWhile isBlank

/-- A text without its trailing blanks. -/
def trimEnd (text : Text) : Text := (text.reverse.dropWhile isBlank).reverse

/-- A text without its leading and trailing blanks. -/
def trim (text : Text) : Text := trimEnd (trimStart text)

/-- Skipping blanks leads to a suffix. -/
theorem trimStart_suffix (text : Text) : trimStart text <:+ text := List.dropWhile_suffix isBlank

/-- The words of a text: its maximal runs of characters that are not blank. -/
def words (text : Text) : List Text := (fields isBlank text).filter fun field => !field.isEmpty

/-- A trimmed text, unless nothing is left of it. -/
def nonBlank? (text : Text) : Option Text :=
  let trimmed := trim text
  if trimmed.isEmpty then none else some trimmed

end Text

end TexStatements
