import RuleMachine.Code.Listing
import RuleMachine.Command.Arguments
import RuleMachine.Command.Outcome
import RuleMachine.Machine.Session
import RuleMachine.Ruleset.Compiler
import RuleMachine.Source.Load
/-!
The commands. They act on files through `FileAccess` alone, and what they write is kept in order,
so that what was written before a failure is still there.
-/

set_option autoImplicit false

namespace RuleMachine

def version : String := "0.3.0"

abbrev CommandM (m : Type → Type) := ExceptT Failure (StateT String m)

namespace CommandM

variable {m : Type → Type} [Monad m] {ε α : Type}

def write (text : String) : CommandM m Unit := modify (· ++ text)

/-- Does something whose errors become the causes of a failure in a context. -/
def inContext (context : String) (causes : ε → List String) (work : ExceptT ε m α) :
    CommandM m α := do
  match ← (work.run : m (Except ε α)) with
  | .ok a => return a
  | .error e => throw ⟨context, causes e⟩

end CommandM

open CommandM

variable {m : Type → Type} [Monad m] [FileAccess m]

/-- The settings of the file that is named, or else those of the current directory. -/
def Invocation.loadSettings (lib : SourceReaders) (i : Invocation) : CommandM m Settings :=
  match i.settings with
  | some path =>
    inContext s!"Failed to load config '{path}'" SettingsError.causes (lib.loadSettings path)
  | none => do
    let directory ← inContext "Failed to get current directory" (fun e => [FileError.message e])
      (FileAccess.currentDirectory : m (Except FileError String))
    let (settings, _) ← inContext s!"Failed to load {Settings.fileName}" SettingsError.causes
      (lib.discoverSettings directory)
    return settings

/-- Writes a program to a new file and moves that to the path. -/
def storeProgram (path : String) (program : Program) : CommandM m Unit := do
  let directory := FilePath.directory path
  match ← (FileAccess.createTemp directory : m (Except FileError (FileAccess.TempFile m))) with
  | .error e => throw ⟨s!"Failed to create temp file in '{directory}'", [e.message]⟩
  | .ok file =>
    match ← (FileAccess.writeTemp file program.bytes : m (Except FileError Unit)) with
    | .error e =>
      (FileAccess.discardTemp file : m Unit)
      throw ⟨"Failed to write program", [e.message]⟩
    | .ok () =>
      match ← (FileAccess.persistTemp file path : m (Except FileError Unit)) with
      | .error e =>
        (FileAccess.discardTemp file : m Unit)
        throw ⟨s!"Failed to write '{path}'",
          ["failed to persist temporary file: " ++ e.message, e.message]⟩
      | .ok () => return

namespace CompileOptions

def program (o : CompileOptions) (settings : CompilerSettings) (rules : Ruleset) :
    Except CompileError Program :=
  rules.program { settings with stripLabels := settings.stripLabels || o.stripLabels }

def perform (lib : SourceReaders) (o : CompileOptions) (verbose : Bool) (settings : Settings) :
    CommandM m Unit := do
  let rules ←
    inContext s!"Failed to load rules from '{o.input}'" SourceError.causes (lib.loadRuleset o.input)
  if o.validateOnly then
    write s!"{o.input}: {rules.length} rules valid\n"
  else
    match o.program settings.compiler rules with
    | .error e => throw ⟨"Compilation failed", [e.message]⟩
    | .ok program =>
      if verbose then write (program.listing o.input)
      storeProgram o.output program
      let size := s!"{program.length} instructions ({program.byteLength} bytes)"
      write s!"Compiled {program.ruleCount} rules into {size} -> {o.output}\n"

end CompileOptions

def Report.summary (r : Report) : String :=
  let fired := if r.firedRules.isEmpty then "none" else ", ".intercalate r.firedRules
  s!"Fired: {fired} ({r.actions} actions, {r.scripts} script calls, {r.instructions} instructions)\n"

def Record.preview (r : Record) : String :=
  let action (a : ActionCall) : String :=
    let rule := a.rule.getD "-"
    s!"would {a.kind} -> {a.target}: {a.value} (rule {rule})\n"
  let call (name argument : String) : String := s!"would call script {name}({argument})\n"
  String.join (r.actions.map action) ++
    String.join (r.scriptCalls.map fun (name, argument) => call name argument)

namespace RunOptions

def assignment? (text : String) : Option (String × Scalar) :=
  let cs := text.toList
  let name := cs.takeWhile (· != '=')
  match name, cs.dropWhile (· != '=') with
  | _ :: _, _ :: value => some (String.ofList name, .ofLiteral (String.ofList value))
  | _, _ => none

/-- Facts with assignments on top, the last of which counts. -/
def assign (facts : Facts) : List String → Except Failure Facts
  | [] => .ok facts
  | text :: rest =>
    match assignment? text with
    | some (name, value) => assign (facts.insert name value) rest
    | none => .error ⟨s!"Invalid fact '{text}', expected NAME=VALUE", []⟩

def loadFacts (lib : SourceReaders) (o : RunOptions) : CommandM m Facts := do
  let facts ← match o.facts with
    | some path =>
      inContext s!"Failed to load facts from '{path}'" SourceError.causes (lib.loadFacts path)
    | none => pure NameTable.empty
  match assign facts o.assignments with
  | .ok facts => return facts
  | .error f => throw f

def settings (o : RunOptions) (settings : RunSettings) : RunSettings :=
  if o.strict then { settings with factPolicy := .strict } else settings

def report : Progress → CommandM m Report
  | .finished report => return report
  | .failed e => throw ⟨"Execution failed", [e.message]⟩
  | .running _ => throw ⟨"Execution failed", []⟩

def perform (lib : SourceReaders) (o : RunOptions) (settings : Settings) : CommandM m Unit := do
  let program ← loadListed o.program
  let facts ← o.loadFacts lib
  let session := (Session.start program (o.settings settings.interpreter)).setFacts facts
  if o.dryRun then
    let (progress, record, _) := session.execute (Host.recording none) {}
    let report ← report progress
    write record.preview
    write report.summary
  else
    let (progress, lines, _) := session.execute (Host.console true) ""
    write lines
    let report ← report progress
    write report.summary
where
  loadListed (path : String) : CommandM m Program :=
    inContext s!"Failed to read program '{path}'" ProgramFileError.causes (loadProgram path)

end RunOptions

def listProgram (path : String) : CommandM m Unit := do
  let program ←
    inContext s!"Failed to read program '{path}'" ProgramFileError.causes (loadProgram path)
  write (program.listing path)

/-- Performs a command; the settings are loaded first. -/
def Invocation.perform (lib : SourceReaders) (i : Invocation) : CommandM m Unit := do
  let settings ← i.loadSettings lib
  match i.command with
  | .compile options => options.perform lib i.verbose settings
  | .run options => options.perform lib settings
  | .list path => listProgram path

def usage : String :=
  String.join <| List.map (· ++ "\n") [
    "Compile rules to bytecode and run them against facts",
    "",
    "Usage: rulebyte [OPTIONS] <COMMAND>",
    "",
    "Commands:",
    "  compile <INPUT> <OUTPUT> [--optimize] [--validate-only]",
    "  run <PROGRAM> [--facts <FACTS>] [--set <NAME=VALUE>]... [--strict] [--dry-run]",
    "  disasm <PROGRAM>",
    "",
    "Options:",
    "  -v, --verbose          Print the listing of what is compiled",
    "      --config <CONFIG>  Settings, instead of those in the current directory",
    "  -h, --help             Print help",
    "  -V, --version          Print version"]

structure Libraries extends SourceReaders where
  arguments : List String → Option Request

def Libraries.standard : Libraries := ⟨.standard, Arguments.read⟩

def Libraries.perform (lib : Libraries) (args : List String) : m Outcome := do
  match lib.arguments args with
  | none => return ⟨"", .misused⟩
  | some .help => return ⟨usage, .done⟩
  | some .version => return ⟨s!"rulebyte {version}\n", .done⟩
  | some (.invoke i) =>
    let (result, output) ← (i.perform (m := m) lib.toSourceReaders).run.run ""
    match result with
    | .ok () => return ⟨output, .done⟩
    | .error f => return ⟨output, .failed f⟩

def performArguments (args : List String) : m Outcome := Libraries.standard.perform args

end RuleMachine
