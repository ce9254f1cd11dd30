import RuleMachine.Number.Single

set_option autoImplicit false

namespace RuleMachine

def digitValue (c : Char) : Nat := c.toNat - '0'.toNat

def isDigit (c : Char) : Bool := '0' ≤ c && c ≤ '9'

def digitsValue (cs : List Char) : Nat :=
  cs.foldl (fun n c => 10 * n + digitValue c) 0

def splitSign : List Char → Bool × List Char
  | '-' :: cs => (true, cs)
  | '+' :: cs => (false, cs)
  | cs => (false, cs)

def readInteger? (cs : List Char) : Option Int :=
  let (negative, digits) := splitSign cs
  if digits ≠ [] ∧ digits.all isDigit then
    some (if negative then -(digitsValue digits : Int) else digitsValue digits)
  else none

/-- A decimal as written: all its digits without the point, and the exponent of its last digit. -/
structure DecimalLiteral where
  negative : Bool
  digits : List Char
  exponent : Int
  deriving DecidableEq, Repr

def exponentValue (cs : List Char) : Nat :=
  cs.foldl (fun n c => if n < 65536 then 10 * n + digitValue c else n) 0

def readExponent? : List Char → Option Int
  | [] => some 0
  | c :: cs =>
    if c = 'e' ∨ c = 'E' then
      let (negative, digits) := splitSign cs
      if digits ≠ [] ∧ digits.all isDigit then
        some (if negative then -(exponentValue digits : Int) else exponentValue digits)
      else none
    else none

namespace DecimalLiteral

/-- Digits with at most one point among them, at least one digit, then an exponent part. -/
def read? (cs : List Char) : Option DecimalLiteral := do
  let (negative, body) := splitSign cs
  let whole := body.takeWhile isDigit
  let (fraction, rest) := match body.dropWhile isDigit with
    | '.' :: more => (more.takeWhile isDigit, more.dropWhile isDigit)
    | more => ([], more)
  if whole ++ fraction = [] then none
  let exponent ← readExponent? rest
  some ⟨negative, whole ++ fraction, exponent - fraction.length⟩

def pattern (F : BinaryFormat) (d : DecimalLiteral) : Nat :=
  F.roundDecimal (digitsValue d.digits) d.digits.length d.exponent

end DecimalLiteral

def lowerAscii (cs : List Char) : List Char := cs.map Char.toLower

/-- Sign and pattern of a floating-point text: a decimal, or the name of an infinity or of "not a
number" in any case. -/
def readPattern? (F : BinaryFormat) (cs : List Char) : Option (Bool × Nat) :=
  let (negative, body) := splitSign cs
  let name := String.ofList (lowerAscii body)
  if name = "inf" ∨ name = "infinity" then some (negative, F.infinity)
  else if name = "nan" then some (negative, F.quietNaN)
  else (DecimalLiteral.read? cs).map fun d => (d.negative, d.pattern F)

def Single.read? (cs : List Char) : Option Single :=
  (readPattern? .single cs).map fun (negative, pattern) => .ofPattern negative pattern

end RuleMachine
