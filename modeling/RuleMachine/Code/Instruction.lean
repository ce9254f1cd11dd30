import RuleMachine.Code.CompileError
import RuleMachine.Code.Opcode

set_option autoImplicit false

namespace RuleMachine

/-- An opcode with its operand bytes. Nothing makes the bytes fit the opcode. -/
structure Instruction where
  opcode : Opcode
  operands : Bytes
  deriving DecidableEq, Repr

namespace Instruction

def size (i : Instruction) : Nat := 1 + i.operands.length

def bytes (i : Instruction) : Bytes := i.opcode.byte :: i.operands

def read {α : Type} (i : Instruction) (r : Read α) : Except OperandError α :=
  match r (Cursor.start i.operands) with
  | .ok a _ => .ok a
  | .error e _ => .error e

def jumpOffset? (i : Instruction) : Option Int32 :=
  if i.opcode.isJump then (i.read Read.int).toOption else none

def simple (op : Opcode) : Instruction := ⟨op, []⟩

def jump (op : Opcode) (offset : Int32) : Instruction := ⟨op, Operand.int offset⟩

end Instruction

def encodeText (s : String) : Except CompileCause Bytes :=
  (Operand.text s).mapError .encoding

def encodeTexts : List String → Except CompileCause Bytes
  | [] => .ok []
  | s :: more => do
    let first ← encodeText s
    let rest ← encodeTexts more
    return first ++ rest

namespace Instruction

/-- A comparison of a fact with a value; the value decides how it is encoded. -/
def comparison (op : Opcode) (fact : String) (value : Scalar) :
    Except CompileCause Instruction := do
  let name ← encodeText fact
  let operand ← match value with
    | .int n => pure (Operand.single (.ofInt n.toInt))
    | .float x => pure (Operand.single x)
    | .string s => encodeText s
    | .bool b => pure (Operand.bool b)
  return ⟨op, name ++ operand⟩

def ruleStart (name : String) : Except CompileCause Instruction :=
  return ⟨.ruleStart, ← encodeText name⟩

def ruleEnd : Instruction := simple .ruleEnd

def priority (n : UInt32) : Except CompileCause Instruction :=
  if n.toNat < 0x80000000 then .ok ⟨.priority, Operand.word n⟩
  else .error (.priorityOutOfRange n)

def action (kind target value : String) : Except CompileCause Instruction :=
  return ⟨.execAction, ← encodeTexts [kind, target, value]⟩

def scriptDefinition (name : String) (params : List String) (body : String) :
    Except CompileCause Instruction := do
  if 0x80000000 ≤ params.length then throw (.tooManyParameters params.length)
  let start ← encodeText name
  let rest ← encodeTexts (params ++ [body])
  return ⟨.scriptDef, start ++ Operand.int (.ofNat params.length) ++ rest⟩

def scriptCall (name argument : String) : Except CompileCause Instruction :=
  return ⟨.scriptCall, ← encodeTexts [name, argument]⟩

end Instruction

end RuleMachine
