import RuleMachine.NameTable

set_option autoImplicit false

namespace RuleMachine

inductive HostError where
  | failed (text : String)
  | scriptUnavailable (name : String)
  | unknownScript (name : String)
  deriving DecidableEq, Repr

def HostError.message : HostError → String
  | .failed text => text
  | .scriptUnavailable name => s!"scripts are not supported by this handler (called '{name}')"
  | .unknownScript name => s!"script '{name}' was never defined"

structure ActionCall where
  rule : Option String
  kind : String
  target : String
  value : String
  deriving DecidableEq, Repr

structure ScriptDefinition where
  rule : Option String
  name : String
  params : List String
  body : String
  deriving DecidableEq, Repr

structure ScriptCall where
  rule : Option String
  name : String
  argument : String
  deriving DecidableEq, Repr

inductive HostCall where
  | action (call : ActionCall)
  | definition (definition : ScriptDefinition)
  | script (call : ScriptCall)
  deriving DecidableEq, Repr

/-- A host with states in `σ`. Unless it says otherwise it ignores definitions of scripts and
refuses their calls. -/
structure Host (σ : Type) where
  execute : ActionCall → EStateM HostError σ Unit
  defineScript : ScriptDefinition → EStateM HostError σ Unit := fun _ => pure ()
  callScript : ScriptCall → EStateM HostError σ Unit :=
    fun call => throw (.scriptUnavailable call.name)

def Host.perform {σ : Type} (host : Host σ) : HostCall → EStateM HostError σ Unit
  | .action call => host.execute call
  | .definition definition => host.defineScript definition
  | .script call => host.callScript call

structure Record where
  actions : List ActionCall := []
  scripts : NameTable (List String × String) := .empty
  scriptCalls : List (String × String) := []
  deriving DecidableEq, Inhabited

def Record.clear (r : Record) : Record := { r with actions := [], scriptCalls := [] }

/-- Records everything, refuses actions of one kind if it is told one, and calls of scripts that
were not defined. -/
def Host.recording (refused : Option String) : Host Record where
  execute call := do
    if refused = some call.kind then throw (.failed s!"action '{call.kind}' rejected")
    modify fun r => { r with actions := r.actions ++ [call] }
  defineScript d :=
    modify fun r => { r with scripts := r.scripts.insert d.name (d.params, d.body) }
  callScript call := do
    if !(← get).scripts.contains call.name then throw (.unknownScript call.name)
    modify fun r => { r with scriptCalls := r.scriptCalls ++ [(call.name, call.argument)] }

def writeLine (writable : Bool) (rule : Option String) (line : String) :
    EStateM HostError String Unit := do
  if !writable then throw (.failed "writer closed")
  let place := rule.getD "-"
  modify fun text => text ++ s!"[{place}] {line}\n"

def Host.console (writable : Bool) : Host String where
  execute call := writeLine writable call.rule s!"{call.kind} -> {call.target}: {call.value}"
  defineScript d :=
    let params := ", ".intercalate d.params
    writeLine writable d.rule s!"define script {d.name}({params})"
  callScript call := writeLine writable call.rule s!"script {call.name}({call.argument})"

def Host.counting : Host Nat where
  execute _ := modify (· + 1)

end RuleMachine
