import RuleMachine.Ruleset.Basic
/-!
Drafts: rulesets as a source gives them, before they are checked. Every field may be missing, and a
condition may carry any mixture of the fields of leaves and groups.
-/

set_option autoImplicit false

namespace RuleMachine

structure ConditionDraft where
  fact : Option String := none
  operator : Option String := none
  value : Option Scalar := none
  all : Option (List ConditionDraft) := none
  any : Option (List ConditionDraft) := none
  deriving Repr, Inhabited

structure ActionDraft where
  kind : Option String := none
  target : Option String := none
  value : Option Scalar := none
  deriving DecidableEq, Repr, Inhabited

structure RuleDraft where
  name : Option String := none
  priority : Option Int := none
  conditions : Option ConditionDraft := none
  actions : List ActionDraft := []
  scripts : NameTable Script := .empty
  deriving Inhabited

structure RulesetDraft where
  rules : List RuleDraft := []
  deriving Inhabited

end RuleMachine
