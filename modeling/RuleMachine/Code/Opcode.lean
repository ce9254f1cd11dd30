import RuleMachine.Code.Operand
import RuleMachine.Scalar
/-!
The instruction set. Bytes and names are part of the file format and of listings. A comparison
opcode fixes the kind of value that it compares, so that a program carries no other type tags.
-/

set_option autoImplicit false

namespace RuleMachine

inductive Opcode where
  | nop
  | jumpIfTrue
  | jumpIfFalse
  | label
  | ruleStart
  | ruleEnd
  | priority
  | floatGt
  | floatLt
  | floatGte
  | floatLte
  | floatEq
  | floatNeq
  | strEq
  | strNeq
  | strContains
  | strNotContains
  | boolEq
  | boolNeq
  | execAction
  | scriptDef
  | scriptCall
  deriving DecidableEq, Repr

inductive OperandPart where
  | word
  | bool
  | text
  /-- A count and so many texts; a negative count counts as none. -/
  | texts
  deriving DecidableEq, Repr

namespace Opcode

def all : List Opcode :=
  [nop, jumpIfTrue, jumpIfFalse, label, ruleStart, ruleEnd, priority, floatGt, floatLt, floatGte,
    floatLte, floatEq, floatNeq, strEq, strNeq, strContains, strNotContains, boolEq, boolNeq,
    execAction, scriptDef, scriptCall]

def byte : Opcode → UInt8
  | nop => 0x00
  | jumpIfTrue => 0x01
  | jumpIfFalse => 0x02
  | label => 0x03
  | ruleStart => 0x10
  | ruleEnd => 0x11
  | priority => 0x12
  | floatGt => 0x20
  | floatLt => 0x21
  | floatGte => 0x22
  | floatLte => 0x23
  | floatEq => 0x24
  | floatNeq => 0x25
  | strEq => 0x30
  | strNeq => 0x31
  | strContains => 0x32
  | strNotContains => 0x33
  | boolEq => 0x40
  | boolNeq => 0x41
  | execAction => 0x50
  | scriptDef => 0x51
  | scriptCall => 0x52

def ofByte? (b : UInt8) : Option Opcode := all.find? (·.byte == b)

theorem mem_all (op : Opcode) : op ∈ all := by cases op <;> decide

theorem ofByte?_byte (op : Opcode) : ofByte? op.byte = some op := by cases op <;> rfl

theorem byte_of_ofByte? {b : UInt8} {op : Opcode} (h : ofByte? b = some op) : op.byte = b := by
  simpa using List.find?_some h

def name : Opcode → String
  | nop => "NOP"
  | jumpIfTrue => "JUMP_IF_TRUE"
  | jumpIfFalse => "JUMP_IF_FALSE"
  | label => "LABEL"
  | ruleStart => "RULE_START"
  | ruleEnd => "RULE_END"
  | priority => "PRIORITY"
  | floatGt => "FLOAT_GT"
  | floatLt => "FLOAT_LT"
  | floatGte => "FLOAT_GTE"
  | floatLte => "FLOAT_LTE"
  | floatEq => "FLOAT_EQ"
  | floatNeq => "FLOAT_NEQ"
  | strEq => "STR_EQ"
  | strNeq => "STR_NEQ"
  | strContains => "STR_CONTAINS"
  | strNotContains => "STR_NOT_CONTAINS"
  | boolEq => "BOOL_EQ"
  | boolNeq => "BOOL_NEQ"
  | execAction => "EXEC_ACTION"
  | scriptDef => "SCRIPT_DEF"
  | scriptCall => "SCRIPT_CALL"

def isJump : Opcode → Bool
  | jumpIfTrue => true
  | jumpIfFalse => true
  | _ => false

/-- The kind of value that a comparison reads; other opcodes have none. -/
def comparisonKind? : Opcode → Option ScalarKind
  | floatGt | floatLt | floatGte | floatLte | floatEq | floatNeq => some .number
  | strEq | strNeq | strContains | strNotContains => some .string
  | boolEq | boolNeq => some .bool
  | _ => none

def layout : Opcode → List OperandPart
  | nop | ruleEnd => []
  | jumpIfTrue | jumpIfFalse | priority => [.word]
  | label | ruleStart => [.text]
  | floatGt | floatLt | floatGte | floatLte | floatEq | floatNeq => [.text, .word]
  | strEq | strNeq | strContains | strNotContains => [.text, .text]
  | boolEq | boolNeq => [.text, .bool]
  | execAction => [.text, .text, .text]
  | scriptDef => [.text, .texts, .text]
  | scriptCall => [.text, .text]

end Opcode

def OperandPart.skip : OperandPart → Read Unit
  | .word => do let _ ← Read.take 4
  | .bool => do let _ ← Read.take 1
  | .text => Read.skipText
  | .texts => do
    let count ← Read.int
    Read.skipTexts count.toInt.toNat

def skipParts : List OperandPart → Read Unit
  | [] => return ()
  | part :: parts => do
    part.skip
    skipParts parts

/-- Passes over the operands of an opcode. A file has no other sign of where an instruction
ends. -/
def Opcode.skipOperands (op : Opcode) : Read Unit := skipParts op.layout

end RuleMachine
