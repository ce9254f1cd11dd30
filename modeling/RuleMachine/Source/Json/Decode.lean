import RuleMachine.Number.Written
import RuleMachine.Source.Dialect
import RuleMachine.Source.Error

set_option autoImplicit false

namespace RuleMachine

def NumberStyle.wideData : NumberStyle :=
  { NumberStyle.data with least := some (-5), greatest := some 15 }

namespace Json

def found : Json → String
  | .null => "null"
  | .bool b => if b then "boolean `true`" else "boolean `false`"
  | .number (.whole n) => s!"integer `{n}`"
  | .number (.real x) =>
    let shown := x.write .wideData
    s!"floating point `{shown}`"
  | .string s => "string " ++ quoted s
  | .array _ _ => "sequence"
  | .object _ _ => "map"
  | .fault _ => ""

def mismatch (expected : String) : Json → JsonError
  | .fault f => .fault f
  | value => .mismatch (.wrongType value.found expected)

def endingOf (fault : Option JsonFault) : Except JsonError Unit :=
  match fault with
  | none => .ok ()
  | some f => .error (.fault f)

def text : Json → Except JsonError String
  | .string s => .ok s
  | value => .error (value.mismatch "a string")

def whole : Json → Except JsonError Int
  | .number (.whole n) =>
    if n < 0x8000000000000000 then .ok n
    else .error (.mismatch (.wrongValue s!"integer `{n}`" "i64"))
  | value => .error (value.mismatch "i64")

def scalar : Json → Except JsonError Scalar
  | .bool b => .ok (.bool b)
  | .number (.whole n) => .ok (.ofInt n)
  | .number (.real x) => .ok (.float x.toSingle)
  | .string s => .ok (.string s)
  | value => .error (value.mismatch "a number, boolean, or string")

def sequence : Json → Except JsonError (Items Json JsonError)
  | .array elements cut => .ok ⟨elements, endingOf cut⟩
  | value => .error (value.mismatch "a sequence")

def table : Json → Except JsonError (Items (String × Json) JsonError)
  | .object entries cut => .ok ⟨entries, endingOf cut⟩
  | value => .error (value.mismatch "a map")

def record (expected : String) : Json → Except JsonError (Fields Json JsonError)
  | .object entries cut => .ok (.named ⟨entries, endingOf cut⟩)
  | .array elements cut => .ok (.positional ⟨elements, endingOf cut⟩)
  | value => .error (value.mismatch expected)

/-- JSON: `null` leaves an optional value out, and nothing may follow the last field. -/
def dialect : Dialect Json JsonError where
  text := text
  whole := whole
  scalar := scalar
  isAbsent
    | .null => .ok true
    | _ => .ok false
  sequence := sequence
  table := table
  record := record
  surplus := some (.fault .syntaxError)
  unknownField field expected := .mismatch (.unknownField field expected)
  duplicateField field := .mismatch (.duplicateField field)
  missingField field := .mismatch (.missingField field)
  shortRecord length expected := .mismatch (.wrongLength length (expected ++ " with 2 elements"))
  maxDepth := Json.maxDepth + 1
  tooDeep := .fault .syntaxError

end Json

/-- Reads a text that holds one value and nothing else. -/
def JsonNumbers.readText (lib : JsonNumbers) {α : Type} (read : Json → Except JsonError α)
    (text : String) : Except JsonError α := do
  let (tree, trailing) := lib.ofText text
  let a ← read tree
  if trailing then .error (.fault .syntaxError)
  return a

def Json.readText {α : Type} (read : Json → Except JsonError α) (text : String) :
    Except JsonError α :=
  JsonNumbers.standard.readText read text

end RuleMachine
