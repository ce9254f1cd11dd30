import RuleMachine.Machine.Run

set_option autoImplicit false

namespace RuleMachine

def Progress.result? : Progress → Option (Except RuntimeError Report)
  | .running _ => none
  | .finished report => some (.ok report)
  | .failed error => some (.error error)

inductive Phase where
  | ready
  | halted
  deriving DecidableEq, Repr

def Phase.name : Phase → String
  | .ready => "Ready"
  | .halted => "Halted"

structure Session where
  machine : Machine
  phase : Phase

namespace Session

def start (program : Program) (settings : RunSettings) : Session :=
  ⟨⟨program.toArray, .empty, settings⟩, .ready⟩

def load (bytes : Bytes) : Except RuntimeError Session :=
  match Program.load bytes with
  | .ok program => .ok (start program {})
  | .error e => .error (.ofLoadError e)

def facts (s : Session) : Facts := s.machine.facts

def setFacts (s : Session) (facts : Facts) : Session :=
  { s with machine.facts := facts }

/-- Runs the program on a host and halts, however the run ends. -/
def execute {σ : Type} (s : Session) (host : Host σ) (state : σ) : Progress × σ × Session :=
  let (progress, state) := s.machine.run host state
  (progress, state, { s with phase := .halted })

end Session

end RuleMachine
