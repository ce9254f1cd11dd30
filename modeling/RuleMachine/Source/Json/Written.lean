import RuleMachine.Ruleset.Draft
import RuleMachine.Source.Json.Number
import RuleMachine.Text.Quoted

set_option autoImplicit false

namespace RuleMachine

def jsonChar (c : Char) : List Char :=
  if c = '"' then ['\\', '"']
  else if c = '\\' then ['\\', '\\']
  else if c = '\x08' then ['\\', 'b']
  else if c = '\t' then ['\\', 't']
  else if c = '\n' then ['\\', 'n']
  else if c = '\x0c' then ['\\', 'f']
  else if c = '\r' then ['\\', 'r']
  else if c < ' ' then "\\u00".toList ++ (hexByte (.ofNat c.toNat)).toList
  else [c]

def jsonString (s : String) : String :=
  String.ofList ('"' :: s.toList.flatMap jsonChar ++ ['"'])

def JsonNumbers.scalarText (lib : JsonNumbers) : Scalar → String
  | .int n => toString n.toInt
  | .float x => lib.float x
  | .bool b => if b then "true" else "false"
  | .string s => jsonString s

def Scalar.json (v : Scalar) : String := JsonNumbers.standard.scalarText v

namespace JsonText

def optional {α : Type} (write : α → String) : Option α → String
  | none => "null"
  | some a => write a

def array (elements : List String) : String :=
  String.ofList ['['] ++ ",".intercalate elements ++ String.ofList [']']

def object (entries : List (String × String)) : String :=
  let written := entries.map fun (key, value) => jsonString key ++ ":" ++ value
  String.ofList ['{'] ++ ",".intercalate written ++ String.ofList ['}']

end JsonText

mutual

def ConditionDraft.json : ConditionDraft → String
  | ⟨fact, operator, value, all, any⟩ =>
    JsonText.object
      [("fact", JsonText.optional jsonString fact),
        ("operator", JsonText.optional jsonString operator),
        ("value", JsonText.optional Scalar.json value),
        ("all", conditionsJson? all),
        ("any", conditionsJson? any)]

def conditionsJson? : Option (List ConditionDraft) → String
  | none => "null"
  | some children => JsonText.array (conditionsJson children)

def conditionsJson : List ConditionDraft → List String
  | [] => []
  | c :: rest => c.json :: conditionsJson rest

end

def ActionDraft.json (a : ActionDraft) : String :=
  JsonText.object
    [("type", JsonText.optional jsonString a.kind),
      ("target", JsonText.optional jsonString a.target),
      ("value", JsonText.optional Scalar.json a.value)]

def Script.json (s : Script) : String :=
  JsonText.object
    [("params", JsonText.array (s.params.map jsonString)), ("body", jsonString s.body)]

def RuleDraft.json (r : RuleDraft) : String :=
  JsonText.object
    [("name", JsonText.optional jsonString r.name),
      ("priority", JsonText.optional toString r.priority),
      ("conditions", JsonText.optional ConditionDraft.json r.conditions),
      ("actions", JsonText.array (r.actions.map ActionDraft.json)),
      ("scripts", JsonText.object (r.scripts.entries.map fun (name, s) => (name, s.json)))]

def RulesetDraft.json (d : RulesetDraft) : String :=
  JsonText.object [("rules", JsonText.array (d.rules.map RuleDraft.json))]

end RuleMachine
