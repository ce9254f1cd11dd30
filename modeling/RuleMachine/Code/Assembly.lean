import RuleMachine.Code.Label
import RuleMachine.Code.Program
/-!
Code whose jumps still name labels. A label has its address where its mark stands, and resolving
the code turns every named jump into a jump by the distance from the next instruction to the mark.
-/

set_option autoImplicit false

namespace RuleMachine

inductive CodeLine where
  | instruction (i : Instruction)
  | jump (op : Opcode) (target : Label)
  deriving DecidableEq, Repr

abbrev Assembly := List CodeLine

/-- The mark of a label, an instruction that does nothing. Names of labels are short. -/
def Label.mark (l : Label) : Except CompileCause Instruction :=
  return ⟨.label, ← encodeText l.name⟩

def jumpDistance (source target : Nat) : Except CompileCause Int32 :=
  let distance : Int := target - source - 1
  if -0x80000000 ≤ distance ∧ distance < 0x80000000 then .ok (.ofInt distance)
  else .error .jumpTooLarge

namespace Assembly

/-- The marks of the code with their addresses, counted from `index`. `seen` are the marks before
it; a name that is marked twice is an error at its second mark. -/
def marksFrom (index : Nat) (seen : List (String × Nat)) :
    Assembly → Except CompileCause (List (String × Nat))
  | [] => .ok seen
  | .jump _ _ :: rest => marksFrom (index + 1) seen rest
  | .instruction i :: rest =>
    if i.opcode = .label then
      match i.read Read.text with
      | .error e => .error (.encoding e)
      | .ok name =>
        if (seen.lookup name).isSome then .error (.duplicateLabel name)
        else marksFrom (index + 1) ((name, index) :: seen) rest
    else marksFrom (index + 1) seen rest

def resolveFrom (marks : List (String × Nat)) (index : Nat) :
    Assembly → Except CompileCause Program
  | [] => .ok []
  | .instruction i :: rest => do
    let more ← resolveFrom marks (index + 1) rest
    return i :: more
  | .jump op l :: rest =>
    match marks.lookup l.name with
    | none => .error (.undefinedLabel l.name)
    | some target => do
      let distance ← jumpDistance index target
      let more ← resolveFrom marks (index + 1) rest
      return .jump op distance :: more

def resolve (code : Assembly) : Except CompileCause Program := do
  let marks ← marksFrom 0 [] code
  resolveFrom marks 0 code

end Assembly

end RuleMachine
