import RuleMachine.Machine.Step

set_option autoImplicit false

namespace RuleMachine

inductive Progress where
  | running (registers : Registers)
  | finished (report : Report)
  | failed (error : RuntimeError)
  deriving DecidableEq, Repr

def Registers.fail (r : Registers) (cause : RuntimeCause) : RuntimeError :=
  ⟨cause, some r.address, r.rule⟩

namespace Machine

variable {σ : Type} (m : Machine) (host : Host σ)

def limitReached (r : Registers) : Option Nat :=
  m.settings.maxSteps.filter (· ≤ r.report.instructions)

def advance (r : Registers) (state : σ) : Progress × σ :=
  match m.program[r.address]? with
  | none => (.finished r.report, state)
  | some i =>
    match m.limitReached r with
    | some limit => (.failed (r.fail (.stepLimitExceeded limit)), state)
    | none =>
      match m.dispatch host i r state with
      | .ok next state =>
        (.running { next with report.instructions := r.report.instructions + 1 }, state)
      | .error cause state => (.failed (r.fail cause), state)

def advanceUpTo : Nat → Registers → σ → Progress × σ
  | 0, r, state => (.running r, state)
  | fuel + 1, r, state =>
    match m.advance host r state with
    | (.running next, state) => advanceUpTo fuel next state
    | final => final

/-- How often a run may advance before it is given up: once more than the limit on steps, or what
no run gets through in a lifetime when there is no limit. -/
def patience : Nat := (m.settings.maxSteps.getD 0x4000000000000000) + 1

def run (state : σ) : Progress × σ :=
  m.advanceUpTo host m.patience {} state

end Machine

end RuleMachine
