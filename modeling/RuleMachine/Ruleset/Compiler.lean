import RuleMachine.Code.Compact
import RuleMachine.Ruleset.Lowering
import RuleMachine.Settings
/-!
The compiler. Rules are compiled one by one, with labels that no other rule sees, and their programs
are joined; jumps are relative, so joining does not change them.
-/

set_option autoImplicit false

namespace RuleMachine

namespace Rule

def assemble (r : Rule) : Lowering Program := do
  let code ← r.lower
  Lowering.ofCause code.resolve

/-- The program of a rule. All labels are back in the pool afterwards, also after a failure. -/
def compile (r : Rule) : Lowering Program := fun pool =>
  match r.assemble pool with
  | .ok program pool => .ok program pool.releaseAll
  | .error e pool => .error e pool.releaseAll

end Rule

namespace Ruleset

def emissionOrder (settings : CompilerSettings) (rules : Ruleset) : Ruleset :=
  if settings.sortByPriority then rules.mergeSort fun a b => b.priority ≤ a.priority else rules

/-- The programs of rules one after the other; the first failure decides and names its rule. -/
def join : Ruleset → Lowering Program
  | [] => return []
  | r :: rest => do
    let first ← fun pool => match r.compile pool with
      | .ok program pool => .ok program pool
      | .error e pool => .error (e.inRule r.name) pool
    let more ← join rest
    return first ++ more

def compile (settings : CompilerSettings) (rules : Ruleset) : Lowering Program := do
  let program ← join (rules.emissionOrder settings)
  if settings.stripLabels then Lowering.ofCause program.compact else return program

end Ruleset

/-- A compiler keeps its pool of labels from one use to the next. -/
structure Compiler where
  settings : CompilerSettings
  labels : LabelPool := .empty
  deriving Repr

namespace Compiler

def use (c : Compiler) {α : Type} (work : Lowering α) : Except CompileError α × Compiler :=
  match work c.labels with
  | .ok a labels => (.ok a, { c with labels := labels })
  | .error e labels => (.error e, { c with labels := labels })

def compile (c : Compiler) (rules : Ruleset) : Except CompileError Program × Compiler :=
  c.use (rules.compile c.settings)

def compileRule (c : Compiler) (r : Rule) : Except CompileError Program × Compiler :=
  c.use r.compile

end Compiler

def Ruleset.program (settings : CompilerSettings) (rules : Ruleset) :
    Except CompileError Program :=
  ((Compiler.mk settings .empty).compile rules).1

end RuleMachine
