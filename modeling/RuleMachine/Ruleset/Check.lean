import RuleMachine.Ruleset.Draft
/-!
Checking drafts. A check either gives the checked value or lists defects, each with its path in the
draft; two checks side by side list the defects of both, so that one run of the checker finds
everything.
-/

set_option autoImplicit false

namespace RuleMachine

inductive DefectKind where
  | missingField (field : String)
  | emptyField (field : String)
  | negativePriority (priority : Int)
  | priorityTooLarge (priority : Int)
  | rootNotGroup
  | emptyCondition
  | mixedCondition
  deriving DecidableEq, Repr

def DefectKind.message : DefectKind → String
  | .missingField field => s!"missing required field '{field}'"
  | .emptyField field => s!"field '{field}' must not be empty"
  | .negativePriority priority => s!"priority must be non-negative, got {priority}"
  | .priorityTooLarge priority => s!"priority {priority} is too large (max 2147483647)"
  | .rootNotGroup => "rule conditions must contain an 'all' or 'any' group"
  | .emptyCondition => "condition node has neither a fact nor any 'all'/'any' children"
  | .mixedCondition => "condition node mixes fact, operator, or value with 'all'/'any' groups"

/-- Something wrong with a draft, and the path to the part that it is wrong with. -/
structure Defect where
  kind : DefectKind
  path : String
  deriving DecidableEq, Repr

def Defect.message (d : Defect) : String := d.path ++ ": " ++ d.kind.message

def defectsMessage (defects : List Defect) : String :=
  s!"ruleset is invalid ({defects.length} errors):"
    ++ String.join (defects.map fun d => "\n  " ++ d.message)

abbrev Checked (α : Type) := Except (List Defect) α

namespace Checked

variable {α β : Type}

def fail (path : String) (kind : DefectKind) : Checked α := .error [⟨kind, path⟩]

def both : Checked α → Checked β → Checked (α × β)
  | .ok a, .ok b => .ok (a, b)
  | .ok _, .error ds => .error ds
  | .error ds, .ok _ => .error ds
  | .error ds, .error es => .error (ds ++ es)

def sequence : List (Checked α) → Checked (List α)
  | [] => .ok []
  | c :: cs => (both c (sequence cs)).map fun (a, as) => a :: as

def required (path field : String) : Option α → Checked α
  | none => fail path (.missingField field)
  | some a => .ok a

def requiredText (path field : String) : Option String → Checked String
  | none => fail path (.missingField field)
  | some s => if s.isEmpty then fail path (.emptyField field) else .ok s

end Checked

def elementPath (path : String) (index : Nat) : String := s!"{path}[{index}]"

namespace ConditionDraft

def isGroup (c : ConditionDraft) : Bool := c.all.isSome || c.any.isSome

def isLeaf (c : ConditionDraft) : Bool := c.fact.isSome || c.operator.isSome || c.value.isSome

def checkLeaf (path : String) (c : ConditionDraft) : Checked Condition :=
  let fact := Checked.requiredText path "fact" c.fact
  let operator := Checked.requiredText path "operator" c.operator
  let value := Checked.required path "value" c.value
  (fact.both (operator.both value)).map fun (fact, operator, value) => .leaf fact operator value

def checkGroup (path : String) (children : Checked (List Condition × List Condition)) :
    Checked Condition := do
  let (all, any) ← children
  if all.isEmpty && any.isEmpty then Checked.fail path .emptyCondition
  else return .group all any

mutual

def check (path : String) : ConditionDraft → Checked Condition
  | ⟨fact, operator, value, all, any⟩ =>
    let self : ConditionDraft := ⟨fact, operator, value, all, any⟩
    if self.isLeaf && self.isGroup then Checked.fail path .mixedCondition
    else if self.isGroup then
      let all := checkChildren? (path ++ ".all") all
      let any := checkChildren? (path ++ ".any") any
      checkGroup path (all.both any)
    else if self.isLeaf then self.checkLeaf path
    else Checked.fail path .emptyCondition

def checkChildren? (path : String) : Option (List ConditionDraft) → Checked (List Condition)
  | none => .ok []
  | some children => checkChildren path 0 children

def checkChildren (path : String) (index : Nat) : List ConditionDraft → Checked (List Condition)
  | [] => .ok []
  | c :: rest =>
    let first := check (elementPath path index) c
    let more := checkChildren path (index + 1) rest
    (first.both more).map fun (c, cs) => c :: cs

end

end ConditionDraft

namespace RuleDraft

def maxPriority : Int := 2147483647

def checkPriority (path : String) (priority : Option Int) : Checked UInt32 :=
  let p := priority.getD 0
  if p < 0 then Checked.fail path (.negativePriority p)
  else if p ≤ maxPriority then .ok (.ofNat p.toNat)
  else Checked.fail path (.priorityTooLarge p)

def checkConditions (path : String) : Option ConditionDraft → Checked Condition
  | none => Checked.fail path (.missingField "conditions")
  | some c =>
    if c.fact.isSome && !c.isGroup then Checked.fail (path ++ ".conditions") .rootNotGroup
    else c.check (path ++ ".conditions")

def checkAction (path : String) (a : ActionDraft) : Checked Action :=
  let kind := Checked.requiredText path "type" a.kind
  let target := Checked.required path "target" a.target
  let value := Checked.required path "value" a.value
  (kind.both (target.both value)).map fun (kind, target, value) => ⟨kind, target, value⟩

def check (path : String) (r : RuleDraft) : Checked Rule :=
  let name := Checked.requiredText path "name" r.name
  let priority := checkPriority path r.priority
  let conditions := checkConditions path r.conditions
  let actions := Checked.sequence <| r.actions.zipIdx.map fun (a, index) =>
    checkAction (elementPath (path ++ ".actions") index) a
  (name.both (priority.both (conditions.both actions))).map
    fun (name, priority, conditions, actions) => ⟨name, priority, conditions, actions, r.scripts⟩

end RuleDraft

/-- The ruleset that a draft stands for, or everything that is wrong with it. -/
def RulesetDraft.check (d : RulesetDraft) : Checked Ruleset :=
  Checked.sequence <| d.rules.zipIdx.map fun (r, index) => r.check (elementPath "rules" index)

end RuleMachine
