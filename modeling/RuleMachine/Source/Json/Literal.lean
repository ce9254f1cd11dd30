import RuleMachine.Number.Literal

set_option autoImplicit false

namespace RuleMachine

inductive JsonFault where
  | syntaxError
  | endOfText
  deriving DecidableEq, Repr

structure ExponentPart where
  capital : Bool
  minus? : Option Bool
  digits : List Char
  digits_ne_nil : digits ≠ []
  isDigit_of_mem : ∀ c ∈ digits, isDigit c = true

/-- A number in the grammar of JSON: an optional minus, digits without a zero in front, perhaps a
fraction and an exponent. Without digits in the fraction there is no point. -/
structure NumberLiteral where
  negative : Bool
  whole : List Char
  fraction : List Char
  exponent : Option ExponentPart
  whole_first : whole = ['0'] ∨ ∃ c cs, whole = c :: cs ∧ c ≠ '0'
  isDigit_of_mem_whole : ∀ c ∈ whole, isDigit c = true
  isDigit_of_mem_fraction : ∀ c ∈ fraction, isDigit c = true

namespace ExponentPart

variable (e : ExponentPart)

def signChars : List Char :=
  match e.minus? with
  | none => []
  | some minus => [if minus then '-' else '+']

def minus : Bool := e.minus?.getD false

def chars : List Char := (if e.capital then 'E' else 'e') :: (e.signChars ++ e.digits)

def value : Int := if e.minus then -(digitsValue e.digits : Int) else digitsValue e.digits

end ExponentPart

namespace NumberLiteral

variable (ℓ : NumberLiteral)

def fractionChars : List Char := if ℓ.fraction = [] then [] else '.' :: ℓ.fraction

def exponentChars : List Char :=
  match ℓ.exponent with
  | none => []
  | some e => e.chars

def body : List Char := ℓ.whole ++ (ℓ.fractionChars ++ ℓ.exponentChars)

def chars : List Char := if ℓ.negative then '-' :: ℓ.body else ℓ.body

def text : String := String.ofList ℓ.chars

def significand : Nat := digitsValue (ℓ.whole ++ ℓ.fraction)

def exponentValue : Int :=
  match ℓ.exponent with
  | none => 0
  | some e => e.value

def power : Int := ℓ.exponentValue - ℓ.fraction.length

def IsWhole : Prop := ℓ.fraction = [] ∧ ℓ.exponent = none

instance : Decidable ℓ.IsWhole := by
  unfold IsWhole
  cases ℓ.exponent <;> infer_instance

def integer : Int := if ℓ.negative then -(digitsValue ℓ.whole : Int) else digitsValue ℓ.whole

/-- A literal with neither fraction nor exponent whose number 64 bits hold, with or without sign. -/
def FitsWord : Prop :=
  ℓ.IsWhole ∧ -0x8000000000000000 ≤ ℓ.integer ∧ ℓ.integer < 0x10000000000000000

instance : Decidable ℓ.FitsWord := by
  unfold FitsWord
  infer_instance

theorem isDigit_of_mem_takeWhile (cs : List Char) : ∀ c ∈ cs.takeWhile isDigit, isDigit c = true :=
  List.all_eq_true.1 List.all_takeWhile

instance (whole : List Char) : Decidable (whole = ['0'] ∨ ∃ c cs, whole = c :: cs ∧ c ≠ '0') :=
  match whole with
  | [] => .isFalse (by simp)
  | c :: cs => decidable_of_iff (c = '0' ∧ cs = [] ∨ c ≠ '0') (by simp)

theorem isDigit_of_mem_nil : ∀ c ∈ ([] : List Char), isDigit c = true := nofun

def digitMissing : List Char → JsonFault
  | [] => .endOfText
  | _ :: _ => .syntaxError

def scanFraction (cs : List Char) :
    Except JsonFault ({ digits : List Char // ∀ c ∈ digits, isDigit c = true } × List Char) :=
  match cs with
  | '.' :: cs =>
    let rest := cs.dropWhile isDigit
    if cs.takeWhile isDigit = [] then .error (digitMissing rest)
    else .ok (⟨cs.takeWhile isDigit, isDigit_of_mem_takeWhile cs⟩, rest)
  | cs => .ok (⟨[], isDigit_of_mem_nil⟩, cs)

def scanSign : List Char → Option Bool × List Char
  | '-' :: cs => (some true, cs)
  | '+' :: cs => (some false, cs)
  | cs => (none, cs)

def scanExponent : List Char → Except JsonFault (Option ExponentPart × List Char)
  | c :: cs =>
    if c = 'e' ∨ c = 'E' then
      let (minus?, body) := scanSign cs
      let rest := body.dropWhile isDigit
      if h : body.takeWhile isDigit = [] then .error (digitMissing rest)
      else
        .ok (some ⟨c = 'E', minus?, body.takeWhile isDigit, h, isDigit_of_mem_takeWhile body⟩, rest)
    else .ok (none, c :: cs)
  | [] => .ok (none, [])

def scanBody (negative : Bool) (cs : List Char) : Except JsonFault (NumberLiteral × List Char) := do
  let whole := cs.takeWhile isDigit
  if h : whole = ['0'] ∨ ∃ c cs, whole = c :: cs ∧ c ≠ '0' then
    let (fraction, rest) ← scanFraction (cs.dropWhile isDigit)
    let (exponent, rest) ← scanExponent rest
    return (⟨negative, whole, fraction, exponent, h, isDigit_of_mem_takeWhile cs, fraction.2⟩, rest)
  else if whole = [] then throw (digitMissing (cs.dropWhile isDigit))
  else throw .syntaxError

def scan : List Char → Except JsonFault (NumberLiteral × List Char)
  | '-' :: cs => scanBody true cs
  | cs => scanBody false cs

end NumberLiteral

end RuleMachine
