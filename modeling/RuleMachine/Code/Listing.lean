import RuleMachine.Code.Program
import RuleMachine.Text.Blank

set_option autoImplicit false

namespace RuleMachine

def padRight (width : Nat) (s : String) : String :=
  s ++ String.ofList (List.replicate (width - s.length) ' ')

def padLeft (width : Nat) (fill : Char) (s : String) : String :=
  String.ofList (List.replicate (width - s.length) fill) ++ s

/-- The operands of an instruction at `index` as a listing shows them. Names are shown as they
are, values in quotes. -/
def Opcode.operandText (index : Nat) : Opcode → Read String
  | .nop | .ruleEnd => return ""
  | .jumpIfTrue | .jumpIfFalse => do
    let offset ← Read.int
    let target := (index : Int) + 1 + offset.toInt
    let shown := padLeft 4 ' ' (toString offset.toInt)
    return s!" {shown} -> {target}"
  | .label | .ruleStart => do
    let name ← Read.text
    return " " ++ name
  | .priority => do
    let n ← Read.int
    return s!" {n.toInt}"
  | .floatGt | .floatLt | .floatGte | .floatLte | .floatEq | .floatNeq => do
    let fact ← Read.text
    let x ← Read.single
    let shown := x.write .plain
    return s!" {fact} {shown}"
  | .strEq | .strNeq | .strContains | .strNotContains => do
    let fact ← Read.text
    let s ← Read.text
    return s!" {fact} {quoted s}"
  | .boolEq | .boolNeq => do
    let fact ← Read.text
    let b ← Read.bool
    let shown := if b then "true" else "false"
    return s!" {fact} {shown}"
  | .execAction => do
    let kind ← Read.text
    let target ← Read.text
    let value ← Read.text
    return s!" {kind} {target} {quoted value}"
  | .scriptDef => do
    let name ← Read.text
    let count ← Read.int
    let params ← Read.texts count.toInt.toNat
    let body ← Read.text
    let shown := ", ".intercalate params
    return s!" {name}({shown}) {quoted body}"
  | .scriptCall => do
    let name ← Read.text
    let argument ← Read.text
    return s!" {name} {quoted argument}"

def Instruction.line (index : Nat) (i : Instruction) : String :=
  let operands := match i.read (i.opcode.operandText index) with
    | .ok text => text
    | .error _ => " <malformed operands>"
  let start := padLeft 4 '0' (toString index) ++ " " ++ padRight 16 i.opcode.name
  String.ofList (dropBlankEnd (start ++ operands).toList)

/-- A heading and the lines of all instructions, each ended by a line feed. -/
def Program.listing (p : Program) (title : String) : String :=
  let lines := p.zipIdx.map fun (i, index) => i.line index ++ "\n"
  s!"== {title} ==\n" ++ String.join lines

end RuleMachine
