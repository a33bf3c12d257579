import TexStatements.Text.Blank

/-!
# Numerals

Counts are written in decimal without padding. A bound count is read from decimal digits with an
optional plus sign and must fit in a 64-bit word.
-/
namespace TexStatements

/-- Whether a character is a decimal digit of ASCII. -/
def isDigit (c : Char) : Bool := '0' ≤ c && c ≤ '9'

/-- Value of a decimal digit of ASCII. -/
def digitValue (c : Char) : Nat := c.val.toNat - '0'.val.toNat

/-- The decimal numeral of a count. -/
def numeral (count : Nat) : Text := Nat.toDigits 10 count

/-- Bound of the counts that are read: the number of 64-bit words. -/
def wordBound : Nat := 0x10000000000000000

/-- Value of a list of decimal digits, most significant first. -/
def digitsValue (digits : Text) : Nat := digits.foldl (fun value c => 10 * value + digitValue c) 0

/-- Read a count from decimal digits with an optional plus sign before them. -/
def readCount? (text : Text) : Option Nat :=
  let digits := match text with
    | '+' :: rest => rest
    | _ => text
  if digits.isEmpty || !digits.all isDigit then none
  else
    let value := digitsValue digits
    if value < wordBound then some value else none

/-- A noun with its count, in the singular for one and with an `s` otherwise. -/
def counted (count : Nat) (noun : Text) : Text :=
  numeral count ++ ' ' :: noun ++ if count = 1 then [] else ['s']

end TexStatements
