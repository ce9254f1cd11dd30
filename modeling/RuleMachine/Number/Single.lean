import RuleMachine.Number.BinaryFormat
/-!
Four-byte floating-point numbers as bit patterns, and the eight-byte ones that sources are read
through. Two patterns are the same value of these types only if every bit agrees; the numeric
comparisons are `Single.less` and `Single.same`, for which a pattern that is not a number never
holds and the two zeros are alike.
-/

set_option autoImplicit false

namespace RuleMachine

structure Single where
  bits : UInt32
  deriving DecidableEq, Repr, Inhabited

namespace Single

def ofPattern (negative : Bool) (pattern : Nat) : Single :=
  ⟨UInt32.ofNat (if negative then 0x80000000 + pattern else pattern)⟩

def isNegative (x : Single) : Bool := 0x80000000 ≤ x.bits.toNat

def pattern (x : Single) : Nat := x.bits.toNat % 0x80000000

def isNaN (x : Single) : Bool := BinaryFormat.single.infinity < x.pattern

def isFinite (x : Single) : Bool := x.pattern < BinaryFormat.single.infinity

def units (x : Single) : Int :=
  let magnitude : Int := BinaryFormat.single.units x.pattern
  if x.isNegative then -magnitude else magnitude

def less (x y : Single) : Bool :=
  !x.isNaN && !y.isNaN && decide (x.units < y.units)

def same (x y : Single) : Bool :=
  !x.isNaN && !y.isNaN && decide (x.units = y.units)

def ofInt (n : Int) : Single :=
  ofPattern (n < 0) (BinaryFormat.single.round n.natAbs 1)

end Single

structure Double where
  bits : UInt64
  deriving DecidableEq, Repr, Inhabited

namespace Double

def ofPattern (negative : Bool) (pattern : Nat) : Double :=
  ⟨UInt64.ofNat (if negative then 0x8000000000000000 + pattern else pattern)⟩

def isNegative (x : Double) : Bool := 0x8000000000000000 ≤ x.bits.toNat

def pattern (x : Double) : Nat := x.bits.toNat % 0x8000000000000000

def isNaN (x : Double) : Bool := BinaryFormat.double.infinity < x.pattern

def isFinite (x : Double) : Bool := x.pattern < BinaryFormat.double.infinity

/-- The nearest four-byte number, ties to even; what lies beyond its range becomes infinite. -/
def toSingle (x : Double) : Single :=
  let pattern :=
    if x.isNaN then BinaryFormat.single.quietNaN
    else if x.isFinite then
      BinaryFormat.single.round (BinaryFormat.double.units x.pattern)
        (Nat.pow 2 BinaryFormat.double.scale)
    else BinaryFormat.single.infinity
  .ofPattern x.isNegative pattern

end Double

end RuleMachine
