import RuleMachine.Number.BinaryFormat
/-!
The shortest decimal that reads back.

The decimals that round to a pattern form an interval around its number, whose ends belong to it
exactly when the pattern is even. Grids of decimals are tried from coarse to fine, and on each only
the two neighbours of the number need a test: if any point of the grid lies in the interval, one of
these does.
-/

set_option autoImplicit false

namespace RuleMachine

/-- Which of two equally near decimals of the same length is written. -/
inductive TieRule where
  | upward
  | toEven
  deriving DecidableEq, Repr

structure Decimal where
  significand : Nat
  exponent : Int
  deriving DecidableEq, Repr

namespace Decimal

def trim : Nat → Decimal → Decimal
  | 0, d => d
  | fuel + 1, d =>
    if d.significand ≠ 0 ∧ d.significand % 10 = 0 then
      trim fuel ⟨d.significand / 10, d.exponent + 1⟩
    else d

def digits (d : Decimal) : List Char := Nat.toDigits 10 d.significand

def leadingExponent (d : Decimal) : Int := d.exponent + d.digits.length - 1

end Decimal

def floorLog10 (num den : Nat) (fuel : Nat) : Int :=
  if den ≤ num then ((Nat.toDigits 10 (num / den)).length : Int) - 1 else down fuel num 0
where
  down : Nat → Nat → Int → Int
    | 0, _, e => e
    | fuel + 1, n, e => if den ≤ n then e else down fuel (10 * n) (e - 1)

namespace BinaryFormat

variable (F : BinaryFormat)

/-- The decimal on the grid of multiples of `10 ^ exponent` that rounds to `pattern`, if there is
one. With the number doubled, the interval runs between the sums of its magnitude with its two
neighbours' magnitudes. -/
def onGrid? (tie : TieRule) (pattern : Nat) (exponent : Int) : Option Nat :=
  let twice := 2 * F.units pattern
  let low := F.units (pattern - 1) + F.units pattern
  let high := F.units pattern + F.units (pattern + 1)
  let step := Nat.pow 2 (F.scale + 1) * Nat.pow 10 exponent.toNat
  let stretch := Nat.pow 10 (-exponent).toNat
  let inside (k : Nat) : Bool :=
    if pattern % 2 = 0 then decide (low * stretch ≤ k * step ∧ k * step ≤ high * stretch)
    else decide (low * stretch < k * step ∧ k * step < high * stretch)
  let below := twice * stretch / step
  let doubled := 2 * twice * stretch
  let middle := (2 * below + 1) * step
  match inside below, inside (below + 1) with
  | false, false => none
  | true, false => some below
  | false, true => some (below + 1)
  | true, true =>
    if doubled < middle then some below
    else if middle < doubled then some (below + 1)
    else match tie with
      | .upward => some (below + 1)
      | .toEven => some (below + below % 2)

/-- Tries the grids from `10 ^ exponent` downwards; when none of `fuel` grids has a hit the answer
is the number itself, which is a decimal. -/
def firstGrid (tie : TieRule) (pattern : Nat) : Nat → Int → Decimal
  | 0, _ => ⟨F.units pattern * Nat.pow 5 F.scale, -(F.scale : Int)⟩
  | fuel + 1, exponent =>
    match F.onGrid? tie pattern exponent with
    | some k => ⟨k, exponent⟩
    | none => firstGrid tie pattern fuel (exponent - 1)

/-- The shortest decimal that rounds to a finite positive pattern, and the nearest of the shortest.
Zero has the decimal zero. -/
def shortest (tie : TieRule) (pattern : Nat) : Decimal :=
  if pattern = 0 then ⟨0, 0⟩
  else
    let leading := floorLog10 (F.units pattern) (Nat.pow 2 F.scale) (F.scale + 1)
    let found := F.firstGrid tie pattern (F.scale + 1) leading
    found.trim (F.scale + 1)

end BinaryFormat

end RuleMachine
