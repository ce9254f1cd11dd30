import RuleMachine.Files.Tree
import RuleMachine.Ruleset.Check
import RuleMachine.Source.Json.Tree

set_option autoImplicit false

namespace RuleMachine

inductive JsonMismatch where
  | wrongType (found expected : String)
  | wrongValue (found expected : String)
  | unknownField (field : String) (expected : List String)
  | duplicateField (field : String)
  | missingField (field : String)
  | wrongLength (length : Nat) (expected : String)
  deriving DecidableEq, Repr

def alternatives (names : List String) : String :=
  match names.map fun name => s!"`{name}`" with
  | [] => "there are no fields"
  | [a] => a
  | [a, b] => s!"{a} or {b}"
  | several => "one of " ++ ", ".intercalate several

def JsonMismatch.message : JsonMismatch → String
  | .wrongType found expected => s!"invalid type: {found}, expected {expected}"
  | .wrongValue found expected => s!"invalid value: {found}, expected {expected}"
  | .unknownField field [] => s!"unknown field `{field}`, there are no fields"
  | .unknownField field expected =>
    s!"unknown field `{field}`, expected {alternatives expected}"
  | .duplicateField field => s!"duplicate field `{field}`"
  | .missingField field => s!"missing field `{field}`"
  | .wrongLength length expected => s!"invalid length {length}, expected {expected}"

inductive JsonError where
  | fault (f : JsonFault)
  | mismatch (m : JsonMismatch)
  deriving DecidableEq, Repr

def JsonError.message : JsonError → String
  | .fault .syntaxError => "the text is no JSON"
  | .fault .endOfText => "the text ends inside a value"
  | .mismatch m => m.message

inductive SourceError where
  | io (error : FileError)
  | unknownFormat (path : String)
  | json (error : JsonError)
  | yaml
  | toml
  | invalid (defects : List Defect)
  deriving DecidableEq, Repr

namespace SourceError

def cause : SourceError → String
  | .io e => e.message
  | .unknownFormat path =>
    s!"cannot infer source format of '{path}', expected .json, .yaml, .yml, or .toml"
  | .json e => e.message
  | .yaml => "the text is no YAML of the expected shape"
  | .toml => "the text is no TOML of the expected shape"
  | .invalid defects => defectsMessage defects

def message (e : SourceError) : String :=
  match e with
  | .io _ => "failed to read source file: " ++ e.cause
  | .json _ => "failed to parse JSON: " ++ e.cause
  | .yaml => "failed to parse YAML: " ++ e.cause
  | .toml => "failed to parse TOML: " ++ e.cause
  | _ => e.cause

/-- An error and what caused it, from the outside in. An unknown format has no cause. -/
def causes : SourceError → List String
  | .unknownFormat path => [(SourceError.unknownFormat path).message]
  | e => [e.message, e.cause]

end SourceError

end RuleMachine
