import TexStatements.Text.Numeral

/-!
# Fixed-point numerals

A finite binary64 value is written with a fixed number of decimal places. The value is decoded
into an exact fraction first, so the only rounding is the one to the last place, where a half
goes to the even neighbour.
-/
namespace TexStatements

/-- Quotient rounded to the nearest count, a half to the even one. -/
def roundHalfEven (numerator denominator : Nat) : Nat :=
  let quotient := numerator / denominator
  let remainder := numerator % denominator
  if 2 * remainder < denominator then quotient
  else if denominator < 2 * remainder then quotient + 1
  else if quotient % 2 = 0 then quotient else quotient + 1

/-- A finite binary64 value as a sign and a fraction. -/
structure BinaryFraction where
  /-- Whether the sign bit is set. -/
  negative : Bool
  /-- Numerator of the magnitude. -/
  numerator : Nat
  /-- Denominator of the magnitude, a power of two. -/
  denominator : Nat

/-- The bit above the fraction of a binary64 encoding, which a significand has implicitly. -/
def implicitBit : Nat := 0x10000000000000

/-- The sign bit of a binary64 encoding. -/
def signBit : Nat := 0x8000000000000000

/-- Exact value of a finite binary64 encoding. -/
def BinaryFraction.ofBits (bits : UInt64) : BinaryFraction :=
  let word := bits.toNat
  let exponent := word / implicitBit % 0x800
  let fraction := word % implicitBit
  let significand := if exponent = 0 then fraction else implicitBit + fraction
  let scale := if exponent = 0 then 1 else exponent
  let negative := signBit ≤ word
  if 1075 ≤ scale then ⟨negative, significand <<< (scale - 1075), 1⟩
  else ⟨negative, significand, 1 <<< (1075 - scale)⟩

/-- A numeral padded with zeros on the left to a width. -/
def paddedNumeral (width count : Nat) : Text :=
  let digits := numeral count
  List.replicate (width - digits.length) '0' ++ digits

/-- A fraction with a fixed positive number of decimal places. -/
def BinaryFraction.toFixed (value : BinaryFraction) (places : Nat) : Text :=
  let unit := Nat.pow 10 places
  let scaled := roundHalfEven (value.numerator * unit) value.denominator
  (if value.negative then ['-'] else []) ++ numeral (scaled / unit) ++
    '.' :: paddedNumeral places (scaled % unit)

/-- A finite binary64 value with a fixed positive number of decimal places. -/
def fixedPoint (places : Nat) (value : Float) : Text :=
  (BinaryFraction.ofBits value.toBits).toFixed places

end TexStatements
