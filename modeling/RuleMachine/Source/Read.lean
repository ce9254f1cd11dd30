import RuleMachine.Machine.Step
import RuleMachine.Ruleset.Validate
import RuleMachine.Source.Configuration
import RuleMachine.Source.Format
import RuleMachine.Source.Json.Decode
import RuleMachine.Source.Yaml.Decode

set_option autoImplicit false

namespace RuleMachine

def SourceFormat.readDraft (text : String) : SourceFormat → Except SourceError RulesetDraft
  | .json => (Json.readText Json.dialect.ruleset text).mapError .json
  | .yaml => (Yaml.readText Yaml.dialect.ruleset text).mapError fun _ => .yaml
  | .toml => (Toml.readText Toml.dialect.ruleset text).mapError fun _ => .toml

def SourceFormat.readFacts (text : String) : SourceFormat → Except SourceError Facts
  | .json => (Json.readText Json.dialect.facts text).mapError .json
  | .yaml => (Yaml.readText Yaml.dialect.facts text).mapError fun _ => .yaml
  | .toml => (Toml.readText Toml.dialect.facts text).mapError fun _ => .toml

/-- Libraries that read texts: what a text has the form of, or why it has none. -/
structure SourceReaders where
  draft : SourceFormat → String → Except SourceError RulesetDraft
  facts : SourceFormat → String → Except SourceError Facts
  settings : String → Option Settings

namespace SourceReaders

def standard : SourceReaders where
  draft format text := format.readDraft text
  facts format text := format.readFacts text
  settings text := (Toml.readText Toml.settings text).toOption

variable (lib : SourceReaders)

def ruleset (format : SourceFormat) (text : String) : Except SourceError Ruleset := do
  let draft ← lib.draft format text
  draft.validate.mapError .invalid

def checkedSettings (text : String) : Except SettingsError Settings :=
  match lib.settings text with
  | none => .error .malformed
  | some settings =>
    if settings.interpreter.maxSteps = some 0 then .error .zeroStepLimit else .ok settings

end SourceReaders

def SourceFormat.readRuleset (format : SourceFormat) (text : String) :
    Except SourceError Ruleset :=
  SourceReaders.standard.ruleset format text

def Settings.parse (text : String) : Except SettingsError Settings :=
  SourceReaders.standard.checkedSettings text

end RuleMachine
