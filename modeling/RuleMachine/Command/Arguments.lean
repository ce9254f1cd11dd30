/-!
The arguments of the command line. They are read from left to right; the first one that is wrong, or
that asks for help or the version, decides.
-/

set_option autoImplicit false

namespace RuleMachine

structure CompileOptions where
  input : String
  output : String
  stripLabels : Bool
  validateOnly : Bool
  deriving DecidableEq, Repr

structure RunOptions where
  program : String
  facts : Option String
  assignments : List String
  strict : Bool
  dryRun : Bool
  deriving DecidableEq, Repr

inductive Command where
  | compile (options : CompileOptions)
  | run (options : RunOptions)
  | list (program : String)
  deriving DecidableEq, Repr

structure Invocation where
  verbose : Bool
  settings : Option String
  command : Command
  deriving DecidableEq, Repr

inductive Request where
  | help
  | version
  | invoke (invocation : Invocation)
  deriving DecidableEq, Repr

namespace Arguments

inductive Value where
  | nothing
  | path
  | text
  deriving DecidableEq, Repr

structure Switch where
  name : String
  letter : Option Char := none
  value : Value := .nothing
  repeats : Bool := false
  deriving DecidableEq, Repr

def help : Switch := { name := "help", letter := some 'h' }
def version : Switch := { name := "version", letter := some 'V' }
def verbose : Switch := { name := "verbose", letter := some 'v' }
def settings : Switch := { name := "config", value := .path }
def optimize : Switch := { name := "optimize" }
def validateOnly : Switch := { name := "validate-only" }
def facts : Switch := { name := "facts", value := .path }
def assign : Switch := { name := "set", value := .text, repeats := true }
def strict : Switch := { name := "strict" }
def dryRun : Switch := { name := "dry-run" }

inductive Word where
  | separator
  | long (name : String) (value : Option String)
  | letters (cs : List Char)
  | plain (text : String)
  deriving DecidableEq, Repr

def Word.ofText (text : String) : Word :=
  match text.toList with
  | ['-', '-'] => .separator
  | '-' :: '-' :: cs =>
    let name := cs.takeWhile (· != '=')
    match cs.dropWhile (· != '=') with
    | [] => .long (String.ofList name) none
    | _ :: value => .long (String.ofList name) (some (String.ofList value))
  | '-' :: c :: cs => .letters (c :: cs)
  | _ => .plain text

/-- The switches with their values, and the other arguments, as far as they are read, last first. -/
structure Given where
  values : List (Switch × String) := []
  operands : List String := []
  deriving Repr

namespace Given

def add (g : Given) (s : Switch) (value : String) : Option Given :=
  if !s.repeats && g.values.any (·.1 = s) then none
  else if s.value = .path && value = "" then none
  else some { g with values := (s, value) :: g.values }

def has (g : Given) (s : Switch) : Bool := g.values.any (·.1 = s)

def value? (g : Given) (s : Switch) : Option String := g.values.lookup s

def valuesOf (g : Given) (s : Switch) : List String :=
  (g.values.filter (·.1 = s)).reverse.map (·.2)

end Given

inductive Reading where
  | help
  | version
  | read (given : Given) (rest : List String)
  deriving Repr

def takeFlag (g : Given) (s : Switch) (go : Given → Option Reading) : Option Reading :=
  if s.value ≠ .nothing then none
  else if s = help then some .help
  else if s = version then some .version
  else (g.add s "").bind go

def takeLetters (switches : List Switch) (go : Given → Option Reading) :
    Given → List Char → Option Reading
  | g, [] => go g
  | g, c :: cs => do
    let s ← switches.find? (·.letter = some c)
    takeFlag g s fun g => takeLetters switches go g cs

/-- Reads switches and up to `room` other arguments, all of which are paths. Without room the
first other argument is left to be read. -/
def readLevel (switches : List Switch) (room : Nat) : Given → List String → Option Reading
  | g, [] => some (.read g [])
  | g, text :: rest =>
    let operand (text : String) : Option Given :=
      if text = "" || room ≤ g.operands.length then none
      else some { g with operands := text :: g.operands }
    match Word.ofText text with
    | .separator => do
      if room < g.operands.length + rest.length || rest.contains "" then none
      return .read { g with operands := rest.reverse ++ g.operands } []
    | .long name value => do
      let s ← switches.find? (·.name = name)
      match s.value, value with
      | .nothing, none => takeFlag g s fun g => readLevel switches room g rest
      | .nothing, some _ => none
      | _, some v => do readLevel switches room (← g.add s v) rest
      | _, none =>
        match rest with
        | [] => none
        | v :: rest =>
          match Word.ofText v with
          | .plain v => do readLevel switches room (← g.add s v) rest
          | _ => none
    | .letters cs => takeLetters switches (fun g => readLevel switches room g rest) g cs
    | .plain text =>
      if room = 0 then some (.read g (text :: rest))
      else do readLevel switches room (← operand text) rest
termination_by _ args => args.length

def everywhere : List Switch := [help, verbose, settings]

/-- What the arguments of a command ask for; those in front of it are given, too. -/
def ofLevel (outer : Given) (switches : List Switch) (room : Nat) (args : List String)
    (command : Given → List String → Option Command) : Option Request :=
  match readLevel (everywhere ++ switches) room {} args with
  | none => none
  | some .help => some .help
  | some .version => some .version
  | some (.read g _) => do
    return .invoke
      { verbose := g.has verbose || outer.has verbose
        settings := (g.value? settings).or (outer.value? settings)
        command := ← command g g.operands.reverse }

def commandNames : List String := ["compile", "run", "disasm"]

def read (args : List String) : Option Request :=
  match readLevel (version :: everywhere) 0 {} args with
  | none => none
  | some .help => some .help
  | some .version => some .version
  | some (.read _ []) => none
  | some (.read outer (name :: rest)) =>
    match name with
    | "compile" => ofLevel outer [optimize, validateOnly] 2 rest fun g operands =>
      match operands with
      | [input, output] =>
        some (.compile ⟨input, output, g.has optimize, g.has validateOnly⟩)
      | _ => none
    | "run" => ofLevel outer [facts, assign, strict, dryRun] 1 rest fun g operands =>
      match operands with
      | [program] =>
        some (.run ⟨program, g.value? facts, g.valuesOf assign, g.has strict, g.has dryRun⟩)
      | _ => none
    | "disasm" => ofLevel outer [] 1 rest fun _ operands =>
      match operands with
      | [program] => some (.list program)
      | _ => none
    | "help" => if rest.all commandNames.contains then some .help else none
    | _ => none

end Arguments

end RuleMachine
