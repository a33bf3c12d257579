import TexStatements.Extraction

/-!
# Records as JSON

Records are written as a JSON array of objects, indented by two spaces a level. In a string only
the quotation mark, the backslash and the control characters below the space are escaped.
-/
namespace TexStatements
namespace Json

/-- The hexadecimal digit of a value below sixteen. -/
def hexDigit (value : Nat) : Char :=
  Char.ofNat (if value < 10 then '0'.val.toNat + value else 'a'.val.toNat + (value - 10))

/-- A control character by its code point, in four digits. -/
def unicodeEscape (c : Char) : Text :=
  let code := c.val.toNat
  ['\\', 'u', '0', '0', hexDigit (code / 16), hexDigit (code % 16)]

/-- One character of a string. -/
def escape (c : Char) : Text :=
  if c = '"' then ['\\', '"']
  else if c = '\\' then ['\\', '\\']
  else if c = '\n' then ['\\', 'n']
  else if c = '\r' then ['\\', 'r']
  else if c = '\t' then ['\\', 't']
  else if c = Char.ofNat 0x08 then ['\\', 'b']
  else if c = Char.ofNat 0x0C then ['\\', 'f']
  else if c < ' ' then unicodeEscape c
  else [c]

/-- A string in quotation marks. -/
def string (text : Text) : Text := '"' :: text.flatMap escape ++ ['"']

/-- A string, or `null`. -/
def nullable : Option Text → Text
  | some text => string text
  | none => "null".toList

/-- A line of an object: its key and its value. -/
def field (key : String) (value : Text) : Text :=
  "    ".toList ++ string key.toList ++ ": ".toList ++ value

/-- One record as an object, indented by one level. -/
def record (record : Record) : Text :=
  "  \x7b\n".toList ++
    Text.join ",\n".toList
      [field "title" (string record.title), field "body" (string record.body),
        field "label" (nullable record.label?)] ++
    "\n  \x7d".toList

/-- Records as an array. -/
def records (records : List Record) : Text :=
  if records.isEmpty then "[]".toList
  else "[\n".toList ++ Text.join ",\n".toList (records.map record) ++ "\n]".toList

end Json
end TexStatements
