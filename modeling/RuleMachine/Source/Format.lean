import RuleMachine.Source.Error

set_option autoImplicit false

namespace RuleMachine

inductive SourceFormat where
  | json
  | yaml
  | toml
  deriving DecidableEq, Repr

namespace SourceFormat

/-- The format of a path by its extension; the case of ASCII letters does not matter. -/
def ofPath (path : String) : Except SourceError SourceFormat :=
  match (FilePath.extension? path).map fun cs => String.ofList (cs.map Char.toLower) with
  | some "json" => .ok .json
  | some "yaml" => .ok .yaml
  | some "yml" => .ok .yaml
  | some "toml" => .ok .toml
  | _ => .error (.unknownFormat path)

end SourceFormat

end RuleMachine
