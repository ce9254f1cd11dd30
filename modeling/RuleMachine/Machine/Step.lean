import RuleMachine.Machine.RuntimeError
import RuleMachine.Settings
import RuleMachine.Text.Infix

set_option autoImplicit false

namespace RuleMachine

abbrev Facts := NameTable Scalar

/-- A program, laid out for access by address, with what its runs read. Runs change neither. -/
structure Machine where
  program : Array Instruction
  facts : Facts
  settings : RunSettings

structure Report where
  /-- Rules that did something, once for each time they were entered, in order. -/
  firedRules : List String := []
  actions : Nat := 0
  scripts : Nat := 0
  instructions : Nat := 0
  factsRead : List String := []
  deriving DecidableEq, Repr, Inhabited

def Report.fired (r : Report) (rule : String) : Bool := r.firedRules.contains rule

structure Registers where
  address : Nat := 0
  flag : Bool := false
  rule : Option String := none
  ruleFired : Bool := false
  report : Report := {}
  deriving DecidableEq, Repr, Inhabited

def Registers.fire (r : Registers) : Registers :=
  if r.ruleFired then r
  else
    { r with
      ruleFired := true
      report.firedRules := r.report.firedRules ++ r.rule.toList }

abbrev Decode (α : Type) := EStateM RuntimeCause Cursor α

def Decode.ofRead {α : Type} (r : Read α) : Decode α := fun c =>
  match r c with
  | .ok a c => .ok a c
  | .error e c => .error (.decode e) c

instance {α : Type} : CoeHead (Read α) (Decode α) := ⟨Decode.ofRead⟩

def Instruction.decode {α : Type} (i : Instruction) (d : Decode α) : Except RuntimeCause α :=
  match d (Cursor.start i.operands) with
  | .ok a _ => .ok a
  | .error e _ => .error e

/-- A comparison of floats. Nothing holds of what is not a number but that it differs. -/
def Opcode.compareNumbers : Opcode → Single → Single → Bool
  | .floatGt, x, y => y.less x
  | .floatLt, x, y => x.less y
  | .floatGte, x, y => y.less x || x.same y
  | .floatLte, x, y => x.less y || x.same y
  | .floatEq, x, y => x.same y
  | _, x, y => !x.same y

def Opcode.compareStrings : Opcode → String → String → Bool
  | .strEq, s, t => s == t
  | .strNeq, s, t => s != t
  | .strContains, s, t => hasPart t.toList s.toList
  | _, s, t => !hasPart t.toList s.toList

def Opcode.compareBools : Opcode → Bool → Bool → Bool
  | .boolEq, a, b => a == b
  | _, a, b => a != b

namespace Machine

variable (m : Machine)

/-- What a comparison gives when its fact cannot be read. -/
def unreadable (cause : RuntimeCause) : Decode Bool :=
  match m.settings.factPolicy with
  | .lenient => return false
  | .strict => throw cause

def compareValue (op : Opcode) (kind : ScalarKind) (fact : String) (value : Scalar) :
    Decode Bool := do
  let mismatch := m.unreadable (.factTypeMismatch fact op kind value.kind)
  match kind with
  | .number =>
    let operand ← Decode.ofRead Read.single
    match value.asSingle? with
    | some x => return op.compareNumbers x operand
    | none => mismatch
  | .string =>
    let operand ← Decode.ofRead Read.text
    match value.asString? with
    | some s => return op.compareStrings s operand
    | none => mismatch
  | .bool =>
    let operand ← Decode.ofRead Read.bool
    match value.asBool? with
    | some b => return op.compareBools b operand
    | none => mismatch

/-- A comparison: the name of the fact and the result. A missing fact is met before the operand is
decoded. -/
def compare (op : Opcode) (kind : ScalarKind) : Decode (String × Bool) := do
  let fact ← Decode.ofRead Read.text
  match m.facts.find? fact with
  | none => return (fact, ← m.unreadable (.missingFact fact))
  | some value => return (fact, ← m.compareValue op kind fact value)

/-- Where a jump that is taken at `address` lands; the end of the program is a place to land. -/
def land (address : Nat) (offset : Int32) : Except RuntimeCause Nat :=
  let target := (address : Int) + 1 + offset.toInt
  if 0 ≤ target ∧ target ≤ m.program.size then .ok target.toNat
  else .error (.jumpOutOfBounds target m.program.size)

def decodeAction (rule : Option String) : Decode ActionCall := do
  let kind ← Decode.ofRead Read.text
  let target ← Decode.ofRead Read.text
  let value ← Decode.ofRead Read.text
  return ⟨rule, kind, target, value⟩

def decodeDefinition (rule : Option String) : Decode ScriptDefinition := do
  let name ← Decode.ofRead Read.text
  let count ← Decode.ofRead Read.int
  if count.toInt < 0 then throw (.invalidCount name count)
  let params ← Decode.ofRead (Read.texts count.toInt.toNat)
  let body ← Decode.ofRead Read.text
  return ⟨rule, name, params, body⟩

def decodeCall (rule : Option String) : Decode ScriptCall := do
  let name ← Decode.ofRead Read.text
  let argument ← Decode.ofRead Read.text
  return ⟨rule, name, argument⟩

end Machine

/-- What an instruction asks for: perhaps a call of the host, and the registers once the host has
agreed. -/
structure Intent where
  call : Option HostCall := none
  next : Registers
  deriving DecidableEq, Repr

namespace Machine

variable (m : Machine)

def branch (wanted : Bool) (i : Instruction) (r : Registers) : Except RuntimeCause Intent := do
  let offset ← i.decode (Decode.ofRead Read.int)
  if r.flag = wanted then
    let target ← m.land r.address offset
    return { next := { r with address := target } }
  else return { next := { r with address := r.address + 1 } }

def test (kind : ScalarKind) (i : Instruction) (r : Registers) : Except RuntimeCause Intent := do
  let (fact, holds) ← i.decode (m.compare i.opcode kind)
  return { next := { r with
    address := r.address + 1
    flag := holds
    report.factsRead := r.report.factsRead ++ [fact] } }

def intent (i : Instruction) (r : Registers) : Except RuntimeCause Intent :=
  let next := { r with address := r.address + 1 }
  match i.opcode with
  | .nop | .label => return { next }
  | .jumpIfTrue => m.branch true i r
  | .jumpIfFalse => m.branch false i r
  | .ruleStart => do
    let name ← i.decode (Decode.ofRead Read.text)
    return { next := { next with rule := some name, ruleFired := false, flag := false } }
  | .priority => do
    let _ ← i.decode (Decode.ofRead Read.int)
    return { next }
  | .ruleEnd => return { next := { next with rule := none, ruleFired := false } }
  | .floatGt | .floatLt | .floatGte | .floatLte | .floatEq | .floatNeq => m.test .number i r
  | .strEq | .strNeq | .strContains | .strNotContains => m.test .string i r
  | .boolEq | .boolNeq => m.test .bool i r
  | .execAction => do
    let call ← i.decode (decodeAction r.rule)
    return {
      call := some (.action call)
      next := { next with report.actions := r.report.actions + 1 }.fire }
  | .scriptDef => do
    let definition ← i.decode (decodeDefinition r.rule)
    return { call := some (.definition definition), next }
  | .scriptCall => do
    let call ← i.decode (decodeCall r.rule)
    return {
      call := some (.script call)
      next := { next with report.scripts := r.report.scripts + 1 }.fire }

end Machine

abbrev Step (σ α : Type) := EStateM RuntimeCause σ α

namespace Step

variable {σ α : Type}

def ofExcept : Except RuntimeCause α → Step σ α
  | .ok a => pure a
  | .error e => throw e

def ofHost (work : EStateM HostError σ α) : Step σ α := fun s =>
  match work s with
  | .ok a s => .ok a s
  | .error e s => .error (.host e) s

end Step

namespace Machine

variable {σ : Type} (m : Machine) (host : Host σ)

/-- Executes an instruction: the registers after it, with the host's state changed if the
instruction calls the host. -/
def dispatch (i : Instruction) (r : Registers) : Step σ Registers := do
  let intent ← Step.ofExcept (m.intent i r)
  match intent.call with
  | none => return intent.next
  | some call => do
    Step.ofHost (host.perform call)
    return intent.next

end Machine

end RuleMachine
