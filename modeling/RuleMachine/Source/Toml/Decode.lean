import RuleMachine.Settings
import RuleMachine.Source.Dialect
import RuleMachine.Source.Toml.Tree

set_option autoImplicit false

namespace RuleMachine

namespace Toml

def text : Toml → Except Malformed String
  | .string s => .ok s
  | _ => .error .malformed

def whole : Toml → Except Malformed Int
  | .integer n => .ok n
  | _ => .error .malformed

def scalar : Toml → Except Malformed Scalar
  | .string s => .ok (.string s)
  | .integer n => .ok (.ofInt n)
  | .real x => .ok (.float x.toSingle)
  | .bool b => .ok (.bool b)
  | _ => .error .malformed

def sequence : Toml → Except Malformed (Items Toml Malformed)
  | .array values => .ok ⟨values, .ok ()⟩
  | _ => .error .malformed

def items : Toml → Except Malformed (Items (String × Toml) Malformed)
  | .table entries => .ok ⟨entries, .ok ()⟩
  | _ => .error .malformed

def record (_ : String) : Toml → Except Malformed (Fields Toml Malformed)
  | .table entries => .ok (.named ⟨entries, .ok ()⟩)
  | .array values => .ok (.positional ⟨values, .ok ()⟩)
  | _ => .error .malformed

/-- TOML: a value that is there counts, and what follows the last field is ignored. Neither headers
nor values can be nested as deep as the bound for conditions. -/
def dialect : Dialect Toml Malformed where
  text := text
  whole := whole
  scalar := scalar
  isAbsent _ := .ok false
  sequence := sequence
  table := items
  record := record
  surplus := none
  unknownField _ _ := .malformed
  duplicateField _ := .malformed
  missingField _ := .malformed
  shortRecord _ _ := .malformed
  maxDepth := 10000
  tooDeep := .malformed

def readText {α : Type} (read : Toml → Except Malformed α) (text : String) : Except Malformed α :=
  match Toml.ofText? text with
  | some tree => read tree
  | none => .error .malformed

def flag : Toml → Except Malformed Bool
  | .bool b => .ok b
  | _ => .error .malformed

def factPolicy : Toml → Except Malformed FactPolicy
  | .string name => named name
  | .table [(name, .table [])] => named name
  | .table [(name, .array [])] => named name
  | _ => .error .malformed
where
  named (name : String) : Except Malformed FactPolicy :=
    match FactPolicy.all.find? (·.name == name) with
    | some policy => .ok policy
    | none => .error .malformed

def steps : Toml → Except Malformed Nat
  | .integer n => if 0 ≤ n then .ok n.toNat else .error .malformed
  | _ => .error .malformed

def compilerSettings : Toml → Except Malformed CompilerSettings :=
  let schema : Dialect.Schema Toml Malformed CompilerSettings :=
    { name := "compiler"
      fields := ["strip_labels", "sort_by_priority"]
      set := fun field value s =>
        if field = "strip_labels" then do return { s with stripLabels := ← flag value }
        else do return { s with sortByPriority := ← flag value } }
  dialect.readRecord schema [] {}

def runSettings : Toml → Except Malformed RunSettings :=
  let schema : Dialect.Schema Toml Malformed RunSettings :=
    { name := "interpreter"
      fields := ["fact_policy", "max_steps"]
      set := fun field value s =>
        if field = "fact_policy" then do return { s with factPolicy := ← factPolicy value }
        else do return { s with maxSteps := ← dialect.optional steps value } }
  dialect.readRecord schema [] {}

def settings : Toml → Except Malformed Settings :=
  let schema : Dialect.Schema Toml Malformed Settings :=
    { name := "settings"
      fields := ["compiler", "interpreter"]
      set := fun field value s =>
        if field = "compiler" then do return { s with compiler := ← compilerSettings value }
        else do return { s with interpreter := ← runSettings value } }
  dialect.readRecord schema [] {}

end Toml

end RuleMachine
