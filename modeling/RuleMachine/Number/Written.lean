import RuleMachine.Number.Shortest
import RuleMachine.Number.Single

set_option autoImplicit false

namespace RuleMachine

/-- The decisions of a written form. A number whose first digit has exponent `e` is positional
when `least ≤ e ≤ greatest`, where an absent bound is no bound. -/
structure NumberStyle where
  tie : TieRule
  least : Option Int
  greatest : Option Int
  wholeEnd : String
  infinite : Bool → String
  nan : String

namespace NumberStyle

def plain : NumberStyle where
  tie := .upward
  least := none
  greatest := none
  wholeEnd := ""
  infinite := fun negative => if negative then "-inf" else "inf"
  nan := "NaN"

/-- Positional from the sixth decimal to thirteen whole digits, always marked as a fraction, ties
to even; what is not finite has no number and is `null`. -/
def data : NumberStyle where
  tie := .toEven
  least := some (-6)
  greatest := some 12
  wholeEnd := ".0"
  infinite := fun _ => "null"
  nan := "null"

def positional (style : NumberStyle) (d : Decimal) : String :=
  let digits := d.digits
  let lead := d.leadingExponent
  if 0 ≤ d.exponent then
    String.ofList (digits ++ List.replicate d.exponent.toNat '0') ++ style.wholeEnd
  else if 0 ≤ lead then
    let whole := lead.toNat + 1
    String.ofList (digits.take whole ++ '.' :: digits.drop whole)
  else
    String.ofList ('0' :: '.' :: List.replicate (-lead - 1).toNat '0' ++ digits)

def scientific (d : Decimal) : String :=
  let mantissa := match d.digits with
    | first :: [] => [first]
    | first :: more => first :: '.' :: more
    | [] => []
  let sign := if d.leadingExponent < 0 then '-' else '+'
  String.ofList (mantissa ++ 'e' :: sign :: Nat.toDigits 10 d.leadingExponent.natAbs)

def isPositional (style : NumberStyle) (d : Decimal) : Bool :=
  style.least.all (· ≤ d.leadingExponent) && style.greatest.all (d.leadingExponent ≤ ·)

def magnitude (style : NumberStyle) (d : Decimal) : String :=
  if d.significand = 0 || style.isPositional d then style.positional d else scientific d

def write (style : NumberStyle) (F : BinaryFormat) (negative : Bool) (pattern : Nat) : String :=
  if F.infinity < pattern then style.nan
  else if pattern = F.infinity then style.infinite negative
  else
    let text := style.magnitude (F.shortest style.tie pattern)
    if negative then "-" ++ text else text

end NumberStyle

def Single.write (style : NumberStyle) (x : Single) : String :=
  style.write .single x.isNegative x.pattern

def Double.write (style : NumberStyle) (x : Double) : String :=
  style.write .double x.isNegative x.pattern

end RuleMachine
