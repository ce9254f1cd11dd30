import RuleMachine.Code.CompileError
import RuleMachine.Code.Opcode

set_option autoImplicit false

namespace RuleMachine

inductive Operator where
  | gt
  | lt
  | gte
  | lte
  | eq
  | neq
  | contains
  | notContains
  deriving DecidableEq, Repr

namespace Operator

def all : List Operator := [gt, lt, gte, lte, eq, neq, contains, notContains]

def symbol : Operator → String
  | gt => "GT"
  | lt => "LT"
  | gte => "GTE"
  | lte => "LTE"
  | eq => "EQ"
  | neq => "NEQ"
  | contains => "CONTAINS"
  | notContains => "NOT_CONTAINS"

def ofSymbol? (s : String) : Option Operator := all.find? (·.symbol == s)

end Operator

/-- The opcode that compares values of a kind by an operator, if the kind has the operator. -/
def ScalarKind.opcode? : ScalarKind → Operator → Option Opcode
  | .number, .gt => some .floatGt
  | .number, .lt => some .floatLt
  | .number, .gte => some .floatGte
  | .number, .lte => some .floatLte
  | .number, .eq => some .floatEq
  | .number, .neq => some .floatNeq
  | .string, .eq => some .strEq
  | .string, .neq => some .strNeq
  | .string, .contains => some .strContains
  | .string, .notContains => some .strNotContains
  | .bool, .eq => some .boolEq
  | .bool, .neq => some .boolNeq
  | _, _ => none

def ScalarKind.operators (kind : ScalarKind) : List Operator :=
  Operator.all.filter fun op => (kind.opcode? op).isSome

/-- The opcode for a written operator and a value; an error lists what the kind accepts. -/
def Opcode.select (operator : String) (value : Scalar) : Except CompileError Opcode :=
  match (Operator.ofSymbol? operator).bind value.kind.opcode? with
  | some op => .ok op
  | none =>
    let accepted := ", ".intercalate (value.kind.operators.map Operator.symbol)
    .error
      { cause := .unsupportedOperator operator value.kind
        rule := none
        hint := some s!"{value.kind.name} values accept {accepted}" }

end RuleMachine
