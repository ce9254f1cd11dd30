import RuleMachine.Number.Literal
import RuleMachine.Number.Written

set_option autoImplicit false

namespace RuleMachine

inductive Scalar where
  | int (n : Int32)
  | float (x : Single)
  | bool (b : Bool)
  | string (s : String)
  deriving DecidableEq, Repr, Inhabited

/-- The values that can be compared with each other. Whole numbers compare as floats. -/
inductive ScalarKind where
  | number
  | string
  | bool
  deriving DecidableEq, Repr

def ScalarKind.name : ScalarKind → String
  | .number => "number"
  | .string => "string"
  | .bool => "bool"

namespace Scalar

def kind : Scalar → ScalarKind
  | .int _ => .number
  | .float _ => .number
  | .bool _ => .bool
  | .string _ => .string

def asSingle? : Scalar → Option Single
  | .int n => some (.ofInt n.toInt)
  | .float x => some x
  | _ => none

def asBool? : Scalar → Option Bool
  | .bool b => some b
  | _ => none

def asString? : Scalar → Option String
  | .string s => some s
  | _ => none

def display : Scalar → String
  | .int n => toString n.toInt
  | .float x => x.write .plain
  | .bool b => if b then "true" else "false"
  | .string s => s

/-- A whole number that is kept whole when 32 bits hold it and becomes a float otherwise. -/
def ofInt (n : Int) : Scalar :=
  if -0x80000000 ≤ n ∧ n < 0x80000000 then .int (.ofInt n) else .float (.ofInt n)

/-- The value that a bare text stands for: a truth value, else a whole number of 32 bits, else a
float, else the text itself. -/
def ofLiteralBy (parse : List Char → Option Single) (text : String) : Scalar :=
  if text = "true" then .bool true
  else if text = "false" then .bool false
  else
    let asFloat := match parse text.toList with
      | some x => .float x
      | none => .string text
    match readInteger? text.toList with
    | some n => if -0x80000000 ≤ n ∧ n < 0x80000000 then .int (.ofInt n) else asFloat
    | none => asFloat

def ofLiteral (text : String) : Scalar := ofLiteralBy Single.read? text

end Scalar

end RuleMachine
