/-!
Binary floating-point formats in exact arithmetic.

A pattern is the bit pattern of a number without its sign, read as a natural number. The number it
denotes is a whole multiple of the format's smallest positive one, so magnitudes, their order and
their rounding are statements about natural numbers only. Infinity is the pattern after the largest
finite one, and everything beyond it is not a number.
-/

set_option autoImplicit false

namespace RuleMachine

structure BinaryFormat where
  fractionBits : Nat
  exponentBits : Nat
  deriving DecidableEq, Repr

namespace BinaryFormat

def single : BinaryFormat := ⟨23, 8⟩

def double : BinaryFormat := ⟨52, 11⟩

variable (F : BinaryFormat)

def scale : Nat :=
  Nat.pow 2 (F.exponentBits - 1) - 2 + F.fractionBits

/-- The pattern of infinity: every exponent bit set, no fraction bit set. -/
def infinity : Nat :=
  (Nat.pow 2 F.exponentBits - 1) * Nat.pow 2 F.fractionBits

def quietNaN : Nat :=
  F.infinity + Nat.pow 2 (F.fractionBits - 1)

/-- The magnitude of a pattern, counted in smallest positive numbers. The same rule continued to
the pattern of infinity gives the power of two that follows the largest finite number. -/
def units (pattern : Nat) : Nat :=
  let field := pattern / Nat.pow 2 F.fractionBits
  let fraction := pattern % Nat.pow 2 F.fractionBits
  if field = 0 then fraction
  else (Nat.pow 2 F.fractionBits + fraction) * Nat.pow 2 (field - 1)

end BinaryFormat

def roundQuotient (num den : Nat) : Nat :=
  let whole := num / den
  let left := num % den
  if 2 * left < den then whole
  else if den < 2 * left then whole + 1
  else whole + whole % 2

namespace BinaryFormat

variable (F : BinaryFormat)

/-- The pattern nearest to the quotient `num / den` of two natural numbers, ties to even.

The quotient is first counted in smallest positive numbers. `shift` is how many of its low bits
the format cannot hold, and the rounded count is added to the exponent field as it is: a count
below the leading bit is a subnormal pattern, and one that rounds up to the next power of two
carries into the exponent. -/
def round (num den : Nat) : Nat :=
  let scaled := num * Nat.pow 2 F.scale
  let shift := (scaled / den).log2 - F.fractionBits
  min F.infinity
    (shift * Nat.pow 2 F.fractionBits + roundQuotient scaled (den * Nat.pow 2 shift))

/-- The pattern nearest to `significand * 10 ^ exponent`, where the significand has at most
`digits` decimal digits. Powers of ten that leave the format's range are not computed. -/
def roundDecimal (significand digits : Nat) (exponent : Int) : Nat :=
  if significand = 0 then 0
  else if exponent > F.scale then F.infinity
  else if exponent + digits < -(F.scale : Int) then 0
  else if 0 ≤ exponent then F.round (significand * Nat.pow 10 exponent.toNat) 1
  else F.round significand (Nat.pow 10 (-exponent).toNat)

end BinaryFormat

end RuleMachine
