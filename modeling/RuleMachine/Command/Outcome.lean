
set_option autoImplicit false

namespace RuleMachine

/-- Why a command fails: what it was about to do, and what went wrong, from the outside in. -/
structure Failure where
  context : String
  causes : List String := []
  deriving DecidableEq, Repr

def hanging (start : String) (indent : Nat) (text : String) : String :=
  let lines := text.toList.splitOn '\n'
  let gap := '\n' :: List.replicate indent ' '
  start ++ String.ofList (gap.intercalate lines)

namespace Failure

/-- The causes, one below the other; several are numbered. -/
def causeLines : List String → List String
  | [cause] => [hanging "    " 4 cause]
  | causes => causes.zipIdx.map fun (cause, index) =>
    let number := toString index
    let start := String.ofList (List.replicate (5 - number.length) ' ') ++ number ++ ": "
    hanging start 7 cause

def message (f : Failure) : String :=
  let causes := match f.causes with
    | [] => ""
    | causes => "\nCaused by:\n" ++ String.join ((causeLines causes).map (· ++ "\n"))
  s!"Error: {f.context}\n" ++ causes

end Failure

inductive Ending where
  | done
  | failed (failure : Failure)
  | misused
  deriving DecidableEq, Repr

structure Outcome where
  output : String
  ending : Ending
  deriving DecidableEq, Repr

namespace Outcome

def exitCode (o : Outcome) : UInt32 :=
  match o.ending with
  | .done => 0
  | .failed _ => 1
  | .misused => 2

end Outcome

end RuleMachine
