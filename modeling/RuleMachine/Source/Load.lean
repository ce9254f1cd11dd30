import RuleMachine.Code.Program
import RuleMachine.Files.Access
import RuleMachine.Source.Read

set_option autoImplicit false

namespace RuleMachine

variable {m : Type → Type} [Monad m] [FileAccess m]

def Settings.fileName : String := "rulebyte.toml"

def readSource (path : String) : ExceptT SourceError m (SourceFormat × String) := do
  let format ← SourceFormat.ofPath path
  return (format, ← (readText path).adapt .io)

namespace SourceReaders

variable (lib : SourceReaders)

def loadRuleset (path : String) : ExceptT SourceError m Ruleset := do
  let (format, text) ← readSource path
  lib.ruleset format text

def loadFacts (path : String) : ExceptT SourceError m Facts := do
  let (format, text) ← readSource path
  lib.facts format text

def loadSettings (path : String) : ExceptT SettingsError m Settings := do
  let text ← (readText path).adapt .io
  lib.checkedSettings text

/-- The settings of a directory with the path of their file, or the default ones if there is no such
file. -/
def discoverSettings (directory : String) :
    ExceptT SettingsError m (Settings × Option String) := do
  let path := FilePath.join directory Settings.fileName
  if ← FileAccess.isFile (m := m) path then return (← lib.loadSettings path, some path)
  else return ({}, none)

end SourceReaders

def loadRuleset (path : String) : ExceptT SourceError m Ruleset :=
  SourceReaders.standard.loadRuleset path

def loadFacts (path : String) : ExceptT SourceError m Facts :=
  SourceReaders.standard.loadFacts path

def Settings.load (path : String) : ExceptT SettingsError m Settings :=
  SourceReaders.standard.loadSettings path

def Settings.discover (directory : String) : ExceptT SettingsError m (Settings × Option String) :=
  SourceReaders.standard.discoverSettings directory

inductive ProgramFileError where
  | io (error : FileError)
  | load (error : LoadError)
  deriving DecidableEq, Repr

namespace ProgramFileError

def message : ProgramFileError → String
  | .io e => "failed to access program file: " ++ e.message
  | .load e => "invalid program file: " ++ e.message

def causes (e : ProgramFileError) : List String :=
  e.message :: match e with
    | .io e => [e.message]
    | .load (.operands opcode offset e) => [(LoadError.operands opcode offset e).message, e.message]
    | .load e => [e.message]

end ProgramFileError

def loadProgram (path : String) : ExceptT ProgramFileError m Program := do
  let bytes ← (readBytes path).adapt .io
  match Program.load bytes with
  | .ok program => return program
  | .error e => throw (.load e)

def saveProgram (path : String) (program : Program) : ExceptT ProgramFileError m Unit :=
  (ExceptT.mk (FileAccess.write path program.bytes)).adapt .io

end RuleMachine
