import RuleMachine.Code.Program
import RuleMachine.Machine.Host

set_option autoImplicit false

namespace RuleMachine

inductive RuntimeCause where
  | unknownOpcode (byte : UInt8) (offset : Nat)
  | decode (error : OperandError)
  | missingFact (fact : String)
  | factTypeMismatch (fact : String) (opcode : Opcode) (expected found : ScalarKind)
  | jumpOutOfBounds (target : Int) (length : Nat)
  | invalidCount (script : String) (count : Int32)
  | stepLimitExceeded (limit : Nat)
  | host (error : HostError)
  deriving DecidableEq, Repr

def RuntimeCause.message : RuntimeCause → String
  | .unknownOpcode byte offset => s!"unknown opcode 0x{hexByte byte} at byte {offset}"
  | .decode error => "malformed operands: " ++ error.message
  | .missingFact fact => s!"fact '{fact}' is not defined"
  | .factTypeMismatch fact opcode expected found =>
    s!"fact '{fact}' is {found.name}, but {opcode.name} compares {expected.name} values"
  | .jumpOutOfBounds target length =>
    s!"jump target {target} outside program of {length} instructions"
  | .invalidCount script count =>
    s!"invalid operand: script '{script}' has negative parameter count {count.toInt}"
  | .stepLimitExceeded limit => s!"step limit of {limit} instructions exceeded"
  | .host error => "action handler failed: " ++ error.message

structure RuntimeError where
  cause : RuntimeCause
  address : Option Nat
  rule : Option String
  deriving DecidableEq, Repr

namespace RuntimeError

def ofLoadError : LoadError → RuntimeError
  | .unknownOpcode byte offset => ⟨.unknownOpcode byte offset, none, none⟩
  | .operands _ _ error => ⟨.decode error, none, none⟩

def message (e : RuntimeError) : String :=
  let place := match e.address, e.rule with
    | some address, some rule => s!" (at instruction {address} in rule '{rule}')"
    | some address, none => s!" (at instruction {address})"
    | none, _ => ""
  "runtime error: " ++ e.cause.message ++ place

end RuntimeError

end RuleMachine
