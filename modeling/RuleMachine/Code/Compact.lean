import RuleMachine.Code.Assembly
/-!
Programs without marks. Taking the marks out moves the instructions behind them, so every jump gets
the distance between the new places of its source and target.
-/

set_option autoImplicit false

namespace RuleMachine

def Instruction.isMark (i : Instruction) : Bool := i.opcode == .label

namespace Program

/-- The place of address `index` once the marks are gone: the number of other instructions before
it. -/
def compactIndex (p : Program) (index : Nat) : Nat :=
  (p.take index).countP (!·.isMark)

/-- The address that a jump at `index` goes to, if it lies in the program or at its end. -/
def jumpTarget? (p : Program) (index : Nat) (i : Instruction) : Option Nat := do
  let offset ← i.jumpOffset?
  let target := (index : Int) + 1 + offset.toInt
  if 0 ≤ target ∧ target ≤ p.length then some target.toNat else none

def compactInstruction (p : Program) (index : Nat) (i : Instruction) :
    Except CompileCause Instruction :=
  if i.opcode.isJump then
    match p.jumpTarget? index i with
    | none => .error (.jumpOutOfRange index)
    | some target => do
      let distance ← jumpDistance (p.compactIndex index) (p.compactIndex target)
      return .jump i.opcode distance
  else .ok i

def compactFrom (p : Program) (index : Nat) : List Instruction → Except CompileCause Program
  | [] => .ok []
  | i :: rest =>
    if i.isMark then compactFrom p (index + 1) rest
    else do
      let first ← p.compactInstruction index i
      let more ← compactFrom p (index + 1) rest
      return first :: more

def compact (p : Program) : Except CompileCause Program := compactFrom p 0 p

end Program

end RuleMachine
