import RuleMachine.Files.Tree
import RuleMachine.Source.Toml.Decode
set_option autoImplicit false

namespace RuleMachine

inductive SettingsError where
  | io (error : FileError)
  | malformed
  | zeroStepLimit
  deriving DecidableEq, Repr

namespace SettingsError

def message : SettingsError → String
  | .io e => "failed to read config file: " ++ e.message
  | .malformed => "failed to parse config: the text is no TOML of the expected shape"
  | .zeroStepLimit => "max_steps must be greater than zero"

def causes (e : SettingsError) : List String :=
  e.message :: match e with
    | .io e => [e.message]
    | .malformed => ["the text is no TOML of the expected shape"]
    | .zeroStepLimit => []

end SettingsError

end RuleMachine
