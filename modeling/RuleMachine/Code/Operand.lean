import RuleMachine.Number.Single
import RuleMachine.Text.Quoted
/-!
Operand bytes. Whole numbers and floats take four bytes, lowest first; a truth value takes one byte,
zero or one; a text takes its length in two bytes, lowest first, and then its UTF-8 bytes.

Writing fails only for a text that is too long. Reading moves a cursor, and a read that fails leaves
the cursor behind what it has consumed before it failed.
-/

set_option autoImplicit false

namespace RuleMachine

abbrev Bytes := List UInt8

/-- The greatest number of bytes in a text operand. -/
def maxTextLength : Nat := 65535

inductive OperandError where
  | unexpectedEnd (offset needed available : Nat)
  | textTooLong (length : Nat)
  | invalidBool (byte : UInt8)
  | invalidText (offset : Nat)
  deriving DecidableEq, Repr

def OperandError.message : OperandError → String
  | .unexpectedEnd offset needed available =>
    s!"unexpected end of operands: needed {needed} bytes at offset {offset}, {available} available"
  | .textTooLong length => s!"string of {length} bytes exceeds the {maxTextLength} byte limit"
  | .invalidBool byte => "invalid boolean byte 0x" ++ hexByte byte
  | .invalidText offset => s!"string operand at offset {offset} is not valid UTF-8"

def textBytes (s : String) : Bytes := s.toByteArray.data.toList

def textOfBytes? (bytes : Bytes) : Option String := String.fromUTF8? ⟨bytes.toArray⟩

theorem textOfBytes?_textBytes (s : String) : textOfBytes? (textBytes s) = some s := by
  have h : (⟨(textBytes s).toArray⟩ : ByteArray) = s.toByteArray := by simp [textBytes]
  rw [textOfBytes?, h]
  simp [String.fromUTF8?, s.isValidUTF8, String.fromUTF8]

namespace Operand

def short (n : Nat) : Bytes := [.ofNat n, .ofNat (n / 0x100)]

def word (n : UInt32) : Bytes :=
  [.ofNat n.toNat, .ofNat (n.toNat / 0x100), .ofNat (n.toNat / 0x10000),
    .ofNat (n.toNat / 0x1000000)]

def int (n : Int32) : Bytes := word n.toUInt32

def single (x : Single) : Bytes := word x.bits

def bool (b : Bool) : Bytes := [if b then 1 else 0]

def text (s : String) : Except OperandError Bytes :=
  let bytes := textBytes s
  if bytes.length ≤ maxTextLength then .ok (short bytes.length ++ bytes)
  else .error (.textTooLong bytes.length)

end Operand

structure Cursor where
  rest : Bytes
  offset : Nat
  deriving DecidableEq, Repr

def Cursor.start (bytes : Bytes) : Cursor := ⟨bytes, 0⟩

abbrev Read (α : Type) := EStateM OperandError Cursor α

def splitExactly {α : Type} : Nat → List α → Option (List α × List α)
  | 0, l => some ([], l)
  | _ + 1, [] => none
  | n + 1, a :: l => (splitExactly n l).map fun (front, back) => (a :: front, back)

namespace Read

def take (n : Nat) : Read Bytes := fun c =>
  match splitExactly n c.rest with
  | some (front, back) => .ok front ⟨back, c.offset + n⟩
  | none => .error (.unexpectedEnd c.offset n c.rest.length) c

def littleEndian : Bytes → Nat
  | [] => 0
  | b :: bytes => b.toNat + 0x100 * littleEndian bytes

def word : Read UInt32 := return .ofNat (littleEndian (← take 4))

def int : Read Int32 := return (← word).toInt32

def single : Read Single := return ⟨← word⟩

def bool : Read Bool := do
  let bytes ← take 1
  match bytes with
  | [0] => return false
  | [1] => return true
  | other => throw (.invalidBool (other.headD 0))

def length : Read Nat := return littleEndian (← take 2)

/-- A text; its bytes are consumed before they are checked. -/
def text : Read String := do
  let n ← length
  let start ← get
  let bytes ← take n
  match textOfBytes? bytes with
  | some s => return s
  | none => throw (.invalidText start.offset)

/-- Passes over a text without checking its bytes. -/
def skipText : Read Unit := do
  let n ← length
  let _ ← take n

def texts : Nat → Read (List String)
  | 0 => return []
  | n + 1 => do
    let first ← text
    let more ← texts n
    return first :: more

def skipTexts : Nat → Read Unit
  | 0 => return ()
  | n + 1 => do
    skipText
    skipTexts n

end Read

end RuleMachine
