import RuleMachine.NameTable
import RuleMachine.Scalar

set_option autoImplicit false

namespace RuleMachine

/-- A leaf compares a fact with a value. A group holds when all of its first children hold and,
if it has any of the second, one of those. Operators are as written; compiling checks them. -/
inductive Condition where
  | leaf (fact operator : String) (value : Scalar)
  | group (all any : List Condition)
  deriving Repr, Inhabited

structure Action where
  kind : String
  target : String
  value : Scalar
  deriving DecidableEq, Repr

/-- The kind of action that calls the script named by its target. -/
def Action.scriptKind : String := "script"

structure Script where
  params : List String
  body : String
  deriving DecidableEq, Repr

structure Rule where
  name : String
  priority : UInt32
  conditions : Condition
  actions : List Action
  scripts : NameTable Script
  deriving Inhabited

abbrev Ruleset := List Rule

end RuleMachine
