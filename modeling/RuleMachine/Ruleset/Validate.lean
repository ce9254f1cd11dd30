import RuleMachine.Ruleset.Check
/-!
Walking a draft. The defects are put into one list as they are met, and what has a defect is left
out; at the end there are rules only if nothing was put into the list.
-/

set_option autoImplicit false

namespace RuleMachine

abbrev Validation := StateM (List Defect)

namespace Validation

variable {α β : Type}

def report (path : String) (kind : DefectKind) : Validation Unit :=
  modify (· ++ [⟨kind, path⟩])

def required (path field : String) : Option α → Validation (Option α)
  | none => do
    report path (.missingField field)
    return none
  | some a => return some a

def requiredText (path field : String) : Option String → Validation (Option String)
  | none => do
    report path (.missingField field)
    return none
  | some s =>
    if s.isEmpty then do
      report path (.emptyField field)
      return none
    else return some s

def keep (visit : Nat → α → Validation (Option β)) (index : Nat) : List α → Validation (List β)
  | [] => return []
  | a :: rest => do
    let found ← visit index a
    let more ← keep visit (index + 1) rest
    return found.toList ++ more

end Validation

open Validation

namespace ConditionDraft

def validateLeaf (path : String) (c : ConditionDraft) : Validation (Option Condition) := do
  let fact ← requiredText path "fact" c.fact
  let operator ← requiredText path "operator" c.operator
  let value ← required path "value" c.value
  return do return .leaf (← fact) (← operator) (← value)

def validateGroup (path : String) :
    Option (List Condition) → Option (List Condition) → Validation (Option Condition)
  | some all, some any =>
    if all.isEmpty && any.isEmpty then do
      report path .emptyCondition
      return none
    else return some (.group all any)
  | _, _ => return none

mutual

def validate (path : String) : ConditionDraft → Validation (Option Condition)
  | ⟨fact, operator, value, all, any⟩ => do
    let self : ConditionDraft := ⟨fact, operator, value, all, any⟩
    if self.isLeaf && self.isGroup then
      report path .mixedCondition
      return none
    else if self.isGroup then
      let all ← validateChildren? (path ++ ".all") all
      let any ← validateChildren? (path ++ ".any") any
      validateGroup path all any
    else if self.isLeaf then self.validateLeaf path
    else
      report path .emptyCondition
      return none

def validateChildren? (path : String) :
    Option (List ConditionDraft) → Validation (Option (List Condition))
  | none => return some []
  | some children => do
    let (sound, children) ← validateChildren path 0 children
    return if sound then some children else none

/-- The children that are in order, and whether all are. -/
def validateChildren (path : String) (index : Nat) :
    List ConditionDraft → Validation (Bool × List Condition)
  | [] => return (true, [])
  | c :: rest => do
    let child ← validate (elementPath path index) c
    let (sound, children) ← validateChildren path (index + 1) rest
    return (child.isSome && sound, child.toList ++ children)

end

end ConditionDraft

namespace RuleDraft

def validatePriority (path : String) (priority : Option Int) : Validation (Option UInt32) := do
  let p := priority.getD 0
  if p < 0 then
    report path (.negativePriority p)
    return none
  else if p ≤ maxPriority then return some (.ofNat p.toNat)
  else
    report path (.priorityTooLarge p)
    return none

def validateConditions (path : String) : Option ConditionDraft → Validation (Option Condition)
  | none => do
    report path (.missingField "conditions")
    return none
  | some c =>
    if c.fact.isSome && !c.isGroup then do
      report (path ++ ".conditions") .rootNotGroup
      return none
    else c.validate (path ++ ".conditions")

def validateAction (path : String) (a : ActionDraft) : Validation (Option Action) := do
  let kind ← requiredText path "type" a.kind
  let target ← required path "target" a.target
  let value ← required path "value" a.value
  return do return ⟨← kind, ← target, ← value⟩

/-- A rule is found even if some of its actions are not. -/
def validate (path : String) (r : RuleDraft) : Validation (Option Rule) := do
  let name ← requiredText path "name" r.name
  let priority ← validatePriority path r.priority
  let conditions ← validateConditions path r.conditions
  let actions ← keep (fun index => validateAction (elementPath (path ++ ".actions") index)) 0
    r.actions
  return do return ⟨← name, ← priority, ← conditions, actions, r.scripts⟩

end RuleDraft

def RulesetDraft.validate (d : RulesetDraft) : Except (List Defect) Ruleset :=
  let (rules, defects) :=
    (keep (fun index r => r.validate (elementPath "rules" index)) 0 d.rules).run []
  if defects.isEmpty then .ok rules else .error defects

end RuleMachine
