
set_option autoImplicit false

namespace RuleMachine

structure CompilerSettings where
  stripLabels : Bool := false
  /-- Emit rules by descending priority; rules of one priority keep their order. -/
  sortByPriority : Bool := true
  deriving DecidableEq, Repr, Inhabited

/-- What a comparison does with a fact that is missing or of another kind: it is false, or it is
an error. -/
inductive FactPolicy where
  | lenient
  | strict
  deriving DecidableEq, Repr, Inhabited

def FactPolicy.all : List FactPolicy := [.lenient, .strict]

def FactPolicy.name : FactPolicy → String
  | .lenient => "lenient"
  | .strict => "strict"

structure RunSettings where
  factPolicy : FactPolicy := .lenient
  maxSteps : Option Nat := none
  deriving DecidableEq, Repr, Inhabited

structure Settings where
  compiler : CompilerSettings := {}
  interpreter : RunSettings := {}
  deriving DecidableEq, Repr, Inhabited

end RuleMachine
