import RuleMachine.Code.Operand
import RuleMachine.Scalar

set_option autoImplicit false

namespace RuleMachine

inductive CompileCause where
  | unsupportedOperator (operator : String) (kind : ScalarKind)
  | emptyCondition
  | undefinedLabel (name : String)
  | duplicateLabel (name : String)
  | jumpOutOfRange (index : Nat)
  | jumpTooLarge
  | priorityOutOfRange (priority : UInt32)
  | tooManyParameters (count : Nat)
  | encoding (error : OperandError)
  deriving DecidableEq, Repr

def CompileCause.message : CompileCause → String
  | .unsupportedOperator operator kind =>
    s!"unsupported operator '{operator}' for {kind.name} value"
  | .emptyCondition => "condition node has neither a fact nor any 'all'/'any' children"
  | .undefinedLabel name => s!"jump references undefined label '{name}'"
  | .duplicateLabel name => s!"label '{name}' is defined more than once"
  | .jumpOutOfRange index => s!"jump from instruction {index} lands outside the program"
  | .jumpTooLarge => "jump offset too large"
  | .priorityOutOfRange priority => s!"priority {priority.toNat} does not fit in 32 bits"
  | .tooManyParameters count => s!"too many script parameters ({count})"
  | .encoding error => "operand encoding failed: " ++ error.message

structure CompileError where
  cause : CompileCause
  rule : Option String
  hint : Option String
  deriving DecidableEq, Repr

namespace CompileError

def ofCause (cause : CompileCause) : CompileError := ⟨cause, none, none⟩

/-- Names the rule unless a rule is named already. -/
def inRule (e : CompileError) (rule : String) : CompileError :=
  { e with rule := e.rule.or (some rule) }

def message (e : CompileError) : String :=
  let place := match e.rule with
    | some rule => s!"rule '{rule}': "
    | none => ""
  let advice := match e.hint with
    | some hint => "\n  hint: " ++ hint
    | none => ""
  place ++ e.cause.message ++ advice

end CompileError

end RuleMachine
