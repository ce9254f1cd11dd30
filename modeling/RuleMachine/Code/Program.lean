import RuleMachine.Code.Instruction
/-!
Programs and their form in a file: the bytes of the instructions one after the other, without a
header. The address of an instruction is its index.
-/

set_option autoImplicit false

namespace RuleMachine

abbrev Program := List Instruction

/-- Why bytes are not a program. Offsets count from the first byte of the file. -/
inductive LoadError where
  | unknownOpcode (byte : UInt8) (offset : Nat)
  | operands (opcode : Opcode) (offset : Nat) (error : OperandError)
  deriving DecidableEq, Repr

def LoadError.message : LoadError → String
  | .unknownOpcode byte offset => s!"unknown opcode 0x{hexByte byte} at byte {offset}"
  | .operands opcode offset error =>
    s!"malformed {opcode.name} operands at byte {offset}: {error.message}"

namespace Program

def byteLength (p : Program) : Nat := p.foldr (fun i length => i.size + length) 0

def ruleCount (p : Program) : Nat := p.countP (·.opcode == .ruleStart)

def bytes (p : Program) : Bytes := p.flatMap Instruction.bytes

/-- The instructions in the rest of a file, which starts at `offset`. -/
def loadFrom (offset : Nat) : Bytes → Except LoadError Program
  | [] => .ok []
  | byte :: body =>
    match Opcode.ofByte? byte with
    | none => .error (.unknownOpcode byte offset)
    | some op =>
      match op.skipOperands (Cursor.start body) with
      | .error e _ => .error (.operands op offset e)
      | .ok _ cursor => do
        let rest ← loadFrom (offset + 1 + cursor.offset) (body.drop cursor.offset)
        return ⟨op, body.take cursor.offset⟩ :: rest
termination_by bytes => bytes.length
decreasing_by simp only [List.length_drop, List.length_cons]; omega

def load (bytes : Bytes) : Except LoadError Program := loadFrom 0 bytes

def jumps (p : Program) : List (Nat × Int32) :=
  p.zipIdx.filterMap fun (i, index) => i.jumpOffset?.map (index, ·)

end Program

end RuleMachine
