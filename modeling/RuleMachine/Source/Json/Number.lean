import RuleMachine.Number.Written
import RuleMachine.Source.Json.Literal
/-!
Numbers in JSON texts. What a literal is read as and how a float is written is left to a library.

The library that the program uses reads a literal without fraction and exponent as a whole number
when 64 bits hold it. Every other number is a double, computed in doubles: the significand is made
of the leading digits that 64 bits hold, and it is multiplied or divided once by a power of ten,
which is a double itself. Each of these operations rounds, so the result need not be the double
nearest to the text.
-/

set_option autoImplicit false

namespace RuleMachine

inductive JsonNumber where
  | whole (n : Int)
  | real (x : Double)
  deriving DecidableEq, Repr

/-- How a library reads and writes the numbers of JSON texts. -/
structure JsonNumbers where
  number : NumberLiteral → Except JsonFault JsonNumber
  float : Single → String

namespace BinaryFormat

variable (F : BinaryFormat)

def product (p q : Nat) : Nat := F.round (F.units p * F.units q) (Nat.pow 2 (2 * F.scale))

def quotient (p q : Nat) : Nat := F.round (F.units p) (F.units q)

def powerOfTen (exponent : Nat) : Nat := F.roundDecimal 1 1 exponent

end BinaryFormat

namespace JsonNumber

def maxPower : Nat := 308

/-- `pattern * 10 ^ exponent` in doubles, or nothing if that is out of range. Small powers are
applied in several divisions, of which the third gives zero. -/
def scaleByTen : Nat → Nat → Int → Option Nat
  | 0, _, _ => some 0
  | fuel + 1, pattern, exponent =>
    if exponent.natAbs ≤ maxPower then
      let power := BinaryFormat.double.powerOfTen exponent.natAbs
      if 0 ≤ exponent then
        let result := BinaryFormat.double.product pattern power
        if result = BinaryFormat.double.infinity then none else some result
      else some (BinaryFormat.double.quotient pattern power)
    else if pattern = 0 then some 0
    else if 0 ≤ exponent then none
    else
      let power := BinaryFormat.double.powerOfTen maxPower
      scaleByTen fuel (BinaryFormat.double.quotient pattern power) (exponent + maxPower)

def ofParts (negative : Bool) (significand : Nat) (exponent : Int) : Except JsonFault JsonNumber :=
  match scaleByTen 4 (BinaryFormat.double.round significand 1) exponent with
  | some pattern => .ok (.real (.ofPattern negative pattern))
  | none => .error .syntaxError

/-- Appends digits to a significand while 64 bits hold it; the second part is the digits left. -/
def absorb (significand : Nat) : List Char → Nat × List Char
  | [] => (significand, [])
  | c :: cs =>
    let longer := 10 * significand + digitValue c
    if longer < Nat.pow 2 64 then absorb longer cs else (significand, c :: cs)

def ofWhole (negative : Bool) (n : Nat) : JsonNumber :=
  if !negative then .whole n
  else if n = 0 ∨ 0x8000000000000000 < n then
    .real (.ofPattern true (BinaryFormat.double.round n 1))
  else .whole (-n)

def ofLiteral (ℓ : NumberLiteral) : Except JsonFault JsonNumber :=
  let (significand, surplus) := absorb 0 ℓ.whole
  if ℓ.IsWhole ∧ surplus = [] then .ok (ofWhole ℓ.negative significand)
  else
    let (significand, left) := absorb significand ℓ.fraction
    let exponent : Int := surplus.length + left.length - ℓ.fraction.length
    match ℓ.exponent with
    | none => ofParts ℓ.negative significand exponent
    | some e =>
      -- an exponent beyond 31 bits is not computed
      if digitsValue e.digits < 0x80000000 then ofParts ℓ.negative significand (exponent + e.value)
      else if significand ≠ 0 ∧ !e.minus then .error .syntaxError
      else .ok (.real (.ofPattern ℓ.negative 0))

end JsonNumber

def JsonNumbers.standard : JsonNumbers where
  number := JsonNumber.ofLiteral
  float x := x.write .data

def JsonNumbers.readNumber (lib : JsonNumbers) (cs : List Char) :
    Except JsonFault (JsonNumber × List Char) := do
  let (ℓ, rest) ← NumberLiteral.scan cs
  return (← lib.number ℓ, rest)

end RuleMachine
