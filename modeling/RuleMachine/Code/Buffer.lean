import RuleMachine.Code.Operand

set_option autoImplicit false

namespace RuleMachine

inductive OperandKind where
  | int
  | single
  | bool
  | text
  deriving DecidableEq, Repr

inductive OperandValue where
  | int (n : Int32)
  | single (x : Single)
  | bool (b : Bool)
  | text (s : String)
  deriving DecidableEq, Repr

def OperandValue.kind : OperandValue → OperandKind
  | int _ => .int
  | single _ => .single
  | bool _ => .bool
  | text _ => .text

/-- A write changes the buffer; what it has appended before it fails stays there. -/
abbrev Write (α : Type) := EStateM OperandError Bytes α

namespace Write

def append (bytes : Bytes) : Write Unit := modify (· ++ bytes)

/-- A text that is too long is refused before anything of it is appended. -/
def text (s : String) : Write Unit := do
  let bytes := textBytes s
  if maxTextLength < bytes.length then throw (.textTooLong bytes.length)
  append (Operand.short bytes.length)
  append bytes

end Write

def OperandValue.write : OperandValue → Write Unit
  | int n => Write.append (Operand.int n)
  | single x => Write.append (Operand.single x)
  | bool b => Write.append (Operand.bool b)
  | text s => Write.text s

def writeAll : List OperandValue → Write Unit
  | [] => return ()
  | v :: values => do
    v.write
    writeAll values

def OperandKind.read : OperandKind → Read OperandValue
  | int => return .int (← Read.int)
  | single => return .single (← Read.single)
  | bool => return .bool (← Read.bool)
  | text => return .text (← Read.text)

def readAll : List OperandKind → Read (List OperandValue)
  | [] => return []
  | kind :: kinds => do
    let first ← kind.read
    let more ← readAll kinds
    return first :: more

end RuleMachine
