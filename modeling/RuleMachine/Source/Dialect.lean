import RuleMachine.Ruleset.Draft
/-!
What the source formats have in common. A format reads a text into a tree of its own; a dialect says
how such a tree is seen where a text, a number, a list, a table or a record is expected. Drafts and
facts are then read in one way from all formats.
-/

set_option autoImplicit false

namespace RuleMachine

structure Items (α ε : Type) where
  items : List α
  ending : Except ε Unit

/-- A record gives its fields by name, or without names in the order of their declaration. -/
inductive Fields (τ ε : Type) where
  | named (entries : Items (String × τ) ε)
  | positional (values : Items τ ε)

/-- How trees in `τ` are read, with failures in `ε`. Where a dialect reports what it expected, the
expectation is handed to it as a text. -/
structure Dialect (τ ε : Type) where
  text : τ → Except ε String
  whole : τ → Except ε Int
  scalar : τ → Except ε Scalar
  isAbsent : τ → Except ε Bool
  sequence : τ → Except ε (Items τ ε)
  table : τ → Except ε (Items (String × τ) ε)
  record : String → τ → Except ε (Fields τ ε)
  surplus : Option ε
  unknownField : String → List String → ε
  duplicateField : String → ε
  missingField : String → ε
  shortRecord : Nat → String → ε
  maxDepth : Nat
  tooDeep : ε

namespace Dialect

variable {τ ε α : Type} (d : Dialect τ ε)

def optional (read : τ → Except ε α) (t : τ) : Except ε (Option α) := do
  if ← d.isAbsent t then return none
  return some (← read t)

def readAll {β : Type} (read : β → Except ε α) : List β → Except ε Unit → Except ε (List α)
  | [], ending => ending.map fun _ => []
  | item :: rest, ending => do
    let first ← read item
    let more ← readAll read rest ending
    return first :: more

def list (read : τ → Except ε α) (t : τ) : Except ε (List α) := do
  let items ← d.sequence t
  readAll read items.items items.ending

def entries (read : τ → Except ε α) (t : τ) : Except ε (NameTable α) := do
  let items ← d.table t
  let entries ← readAll (fun (name, value) => (read value).map (name, ·)) items.items items.ending
  return .ofList entries

structure Schema (τ ε α : Type) where
  name : String
  fields : List String
  set : String → τ → α → Except ε α

/-- Reads named fields. A field that is unknown or given twice is reported before its value. -/
def readNamed (s : Schema τ ε α) (seen : List String) (a : α) :
    List (String × τ) → Except ε Unit → Except ε (List String × α)
  | [], ending => ending.map fun _ => (seen, a)
  | (field, value) :: rest, ending =>
    if !s.fields.contains field then .error (d.unknownField field s.fields)
    else if seen.contains field then .error (d.duplicateField field)
    else do
      let a ← s.set field value a
      readNamed s (field :: seen) a rest ending

def readPositional (s : Schema τ ε α) (seen : List String) (a : α) :
    List String → List τ → Except ε Unit → Except ε (List String × α)
  | _, [], ending => ending.map fun _ => (seen, a)
  | [], _ :: _, ending =>
    match d.surplus with
    | some e => .error e
    | none => ending.map fun _ => (seen, a)
  | field :: fields, value :: rest, ending => do
    let a ← s.set field value a
    readPositional s (field :: seen) a fields rest ending

/-- Reads a record over its defaults. Fields in `needed` have no default. -/
def readRecord (s : Schema τ ε α) (needed : List String) (start : α) (t : τ) : Except ε α := do
  match ← d.record s.name t with
  | .named entries =>
    let (seen, a) ← d.readNamed s [] start entries.items entries.ending
    match needed.find? (!seen.contains ·) with
    | some field => .error (d.missingField field)
    | none => return a
  | .positional values =>
    let (seen, a) ← d.readPositional s [] start s.fields values.items values.ending
    match needed.find? (!seen.contains ·) with
    | some field => .error (d.shortRecord (s.fields.idxOf field) s.name)
    | none => return a

def script : τ → Except ε Script :=
  let schema : Schema τ ε Script :=
    { name := "struct Script"
      fields := ["params", "body"]
      set := fun field value s =>
        if field = "params" then do return { s with params := ← d.list d.text value }
        else do return { s with body := ← d.text value } }
  d.readRecord schema ["body"] ⟨[], ""⟩

def action : τ → Except ε ActionDraft :=
  let schema : Schema τ ε ActionDraft :=
    { name := "struct RawAction"
      fields := ["type", "target", "value"]
      set := fun field value a =>
        if field = "type" then do return { a with kind := ← d.optional d.text value }
        else if field = "target" then do return { a with target := ← d.optional d.text value }
        else do return { a with value := ← d.optional d.scalar value } }
  d.readRecord schema [] {}

def condition : Nat → τ → Except ε ConditionDraft
  | 0, _ => .error d.tooDeep
  | depth + 1, t =>
    let schema : Schema τ ε ConditionDraft :=
      { name := "struct RawCondition"
        fields := ["fact", "operator", "value", "all", "any"]
        set := fun field value c =>
          if field = "fact" then do return { c with fact := ← d.optional d.text value }
          else if field = "operator" then do return { c with operator := ← d.optional d.text value }
          else if field = "value" then do return { c with value := ← d.optional d.scalar value }
          else if field = "all" then do
            return { c with all := ← d.optional (d.list (condition depth)) value }
          else do return { c with any := ← d.optional (d.list (condition depth)) value } }
    d.readRecord schema [] {} t

def rule : τ → Except ε RuleDraft :=
  let schema : Schema τ ε RuleDraft :=
    { name := "struct RawRule"
      fields := ["name", "priority", "conditions", "actions", "scripts"]
      set := fun field value r =>
        if field = "name" then do return { r with name := ← d.optional d.text value }
        else if field = "priority" then do return { r with priority := ← d.optional d.whole value }
        else if field = "conditions" then do
          return { r with conditions := ← d.optional (d.condition d.maxDepth) value }
        else if field = "actions" then do return { r with actions := ← d.list d.action value }
        else do return { r with scripts := ← d.entries d.script value } }
  d.readRecord schema [] {}

def ruleset : τ → Except ε RulesetDraft :=
  let schema : Schema τ ε RulesetDraft :=
    { name := "struct RawRuleSet"
      fields := ["rules"]
      set := fun _ value _ => do return { rules := ← d.list d.rule value } }
  d.readRecord schema [] {}

def facts : τ → Except ε (NameTable Scalar) := d.entries d.scalar

end Dialect

inductive Malformed where
  | malformed
  deriving DecidableEq, Repr

end RuleMachine
