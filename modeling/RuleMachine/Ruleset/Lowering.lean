import RuleMachine.Code.Assembly
import RuleMachine.Code.Operator
import RuleMachine.Ruleset.Basic
/-!
Conditions and rules as code. The code of a condition is given two labels and leaves for one of
them: the first when the condition holds, the second when it does not. It evaluates from left to
right and no further than needed.
-/

set_option autoImplicit false

namespace RuleMachine

/-- Lowering takes labels from a pool, which keeps those it has given when lowering fails. -/
abbrev Lowering (α : Type) := EStateM CompileError LabelPool α

namespace Lowering

def ofExcept {α : Type} : Except CompileError α → Lowering α
  | .ok a => pure a
  | .error e => throw e

def ofCause {α : Type} (r : Except CompileCause α) : Lowering α :=
  ofExcept (r.mapError .ofCause)

def allocate : Lowering Label := fun pool =>
  let (label, pool) := pool.allocate
  .ok label pool

end Lowering

mutual

/-- The code of a condition. A leaf is a comparison and two jumps; of a group with both lists the
first has to hold before the second is looked at. -/
def Condition.lower (success failure : Label) : Condition → Lowering Assembly
  | .leaf fact operator value => do
    let op ← Lowering.ofExcept (Opcode.select operator value)
    let test ← Lowering.ofCause (Instruction.comparison op fact value)
    return [.instruction test, .jump .jumpIfTrue success, .jump .jumpIfFalse failure]
  | .group all any =>
    match all.isEmpty, any.isEmpty with
    | true, true => throw (.ofCause .emptyCondition)
    | false, true => lowerAll success failure all
    | true, false => lowerAny success failure any
    | false, false => do
      let middle ← Lowering.allocate
      let first ← lowerAll middle failure all
      let mark ← Lowering.ofCause middle.mark
      let second ← lowerAny success failure any
      return first ++ .instruction mark :: second

def lowerAll (success failure : Label) : List Condition → Lowering Assembly
  | [] => throw (.ofCause .emptyCondition)
  | c :: rest =>
    if rest.isEmpty then c.lower success failure
    else do
      let next ← Lowering.allocate
      let first ← c.lower next failure
      let mark ← Lowering.ofCause next.mark
      let more ← lowerAll success failure rest
      return first ++ .instruction mark :: more

def lowerAny (success failure : Label) : List Condition → Lowering Assembly
  | [] => throw (.ofCause .emptyCondition)
  | c :: rest =>
    if rest.isEmpty then c.lower success failure
    else do
      let next ← Lowering.allocate
      let first ← c.lower success next
      let mark ← Lowering.ofCause next.mark
      let more ← lowerAny success failure rest
      return first ++ .instruction mark :: more

end

def Action.instruction (a : Action) : Except CompileCause Instruction :=
  if a.kind = Action.scriptKind then Instruction.scriptCall a.target a.value.display
  else Instruction.action a.kind a.target a.value.display

/-- The code of a rule: its frame, its scripts in the order of their names, the condition, and the
actions between the marks for success and for failure. -/
def Rule.lower (r : Rule) : Lowering Assembly := do
  let start ← Lowering.ofCause (Instruction.ruleStart r.name)
  let priority ← Lowering.ofCause (Instruction.priority r.priority)
  let scripts ← r.scripts.entries.mapM fun (name, script) =>
    Lowering.ofCause (Instruction.scriptDefinition name script.params script.body)
  let body ← Lowering.allocate
  let skip ← Lowering.allocate
  let condition ← r.conditions.lower body skip
  let bodyMark ← Lowering.ofCause body.mark
  let actions ← r.actions.mapM fun a => Lowering.ofCause a.instruction
  let skipMark ← Lowering.ofCause skip.mark
  return (start :: priority :: scripts).map .instruction ++ condition
    ++ (bodyMark :: actions ++ [skipMark, Instruction.ruleEnd]).map .instruction

end RuleMachine
