import TexStatements.Text.Basic

/-!
# Counters as letters

Positive counts are written over the letters A to Z in bijective base 26: A to Z, AA, AB and so on.
Zero, the value of a counter that was never stepped, is written as A too.
-/
namespace TexStatements

/-- The letter of a bijective digit, given less one. -/
def letterOf (digit : Nat) : Char := Char.ofNat ('A'.val.toNat + digit)

/-- The letters of a count, last first. -/
def reversedLetters (count : Nat) : Text :=
  if count = 0 then [] else letterOf ((count - 1) % 26) :: reversedLetters ((count - 1) / 26)
termination_by count
decreasing_by omega

/-- A count in letters. -/
def letters (count : UInt32) : Text :=
  if count = 0 then ['A'] else (reversedLetters count.toNat).reverse

end TexStatements
