import RuleMachine.Source.Dialect
import RuleMachine.Source.Yaml.Tree

set_option autoImplicit false

namespace RuleMachine

namespace Yaml

def commonTag (name : String) : String := "tag:yaml.org,2002:" ++ name

def isNull (text : String) : Bool := ["null", "Null", "NULL", "~"].contains text

def readBool? (text : String) : Option Bool :=
  if ["true", "True", "TRUE"].contains text then some true
  else if ["false", "False", "FALSE"].contains text then some false
  else none

def hasSpareZero (digits : List Char) : Bool :=
  match digits with
  | '0' :: _ :: _ => digits.all isDigit
  | _ => false

def readDigits? (cs : List Char) : Option Nat :=
  let based (base : Nat) (digits : List Char) : Option Nat := do
    if digits = [] then none
    let values ← digits.mapM YamlText.hexDigit?
    if values.all (· < base) then some (values.foldl (fun n d => base * n + d) 0) else none
  match cs with
  | '0' :: 'x' :: digits => based 16 digits
  | '0' :: 'o' :: digits => based 8 digits
  | '0' :: 'b' :: digits => based 2 digits
  | _ => if hasSpareZero cs then none else based 10 cs

/-- What the text of a whole number gives: a number of 64 bits, or one that is too large although
128 bits would hold it. Beyond these a text is no whole number. -/
def readWhole? (cs : List Char) : Option (Option Int) := do
  let (negative, body) := splitSign cs
  let n ← readDigits? body
  if negative then
    if n ≤ Nat.pow 2 63 then some (some (-n)) else if n ≤ Nat.pow 2 127 then some none else none
  else
    if n < Nat.pow 2 64 then some (some n) else if n < Nat.pow 2 128 then some none else none

def readReal? (cs : List Char) : Option Double :=
  let (negative, body) := splitSign cs
  if [".inf", ".Inf", ".INF"].contains (String.ofList body) then
    some (.ofPattern negative BinaryFormat.double.infinity)
  else if [".nan", ".NaN", ".NAN"].contains (String.ofList cs) then
    some (.ofPattern false BinaryFormat.double.quietNaN)
  else do
    let d ← DecimalLiteral.read? cs
    let pattern := d.pattern .double
    if pattern < BinaryFormat.double.infinity then some (.ofPattern d.negative pattern) else none

def wholeScalar (cs : List Char) : Option (Except Malformed Scalar) :=
  (readWhole? cs).map fun
    | some n => .ok (.ofInt n)
    | none => .error .malformed

def plainScalar (text : String) : Except Malformed Scalar :=
  let cs := text.toList
  let float? := if hasSpareZero (splitSign cs).2 then none else readReal? cs
  if text = "" || isNull text then .error .malformed
  else match readBool? text, wholeScalar cs, float? with
    | some b, _, _ => .ok (.bool b)
    | none, some n, _ => n
    | none, none, some x => .ok (.float x.toSingle)
    | none, none, none => .ok (.string text)

/-- A value of any type. The tags of types that all documents know say which one it is; tags of the
document's own have no values. -/
def scalar : Yaml → Except Malformed Scalar
  | .leaf style none text => if style = .plain then plainScalar text else .ok (.string text)
  | .leaf _ (some tag) text =>
    if tag.startsWith "!" then .error .malformed
    else if tag = commonTag "bool" then
      match readBool? text with
      | some b => .ok (.bool b)
      | none => .error .malformed
    else if tag = commonTag "int" then (wholeScalar text.toList).getD (.error .malformed)
    else if tag = commonTag "float" then
      match readReal? text.toList with
      | some x => .ok (.float x.toSingle)
      | none => .error .malformed
    else if tag = commonTag "null" then .error .malformed
    else .ok (.string text)
  | _ => .error .malformed

def text : Yaml → Except Malformed String
  | .leaf _ _ text => .ok text
  | _ => .error .malformed

def whole : Yaml → Except Malformed Int
  | .leaf style tag text =>
    if style = .plain || (style = .literal && tag = some (commonTag "int")) then
      match readWhole? text.toList with
      | some (some n) => if n < 0x8000000000000000 then .ok n else .error .malformed
      | _ => .error .malformed
    else .error .malformed
  | _ => .error .malformed

def isBlank : Yaml → Bool
  | .leaf .plain _ "" => true
  | _ => false

/-- A plain null or nothing at all leaves a value out, unless a tag says otherwise. -/
def isAbsent : Yaml → Except Malformed Bool
  | .leaf .plain none text => .ok (text = "" || isNull text)
  | .leaf .plain (some tag) text =>
    if tag ≠ commonTag "null" then .ok false
    else if isNull text then .ok true
    else .error .malformed
  | _ => .ok false

def sequence : Yaml → Except Malformed (Items Yaml Malformed)
  | .list items => .ok ⟨items, .ok ()⟩
  | node => if node.isBlank then .ok ⟨[], .ok ()⟩ else .error .malformed

def named (entries : List (Yaml × Yaml)) : Except Malformed (Items (String × Yaml) Malformed) := do
  let entries ← entries.mapM fun (key, value) => (key.text).map (·, value)
  return ⟨entries, .ok ()⟩

def table : Yaml → Except Malformed (Items (String × Yaml) Malformed)
  | .map entries => named entries
  | node => if node.isBlank then .ok ⟨[], .ok ()⟩ else .error .malformed

def record (_ : String) : Yaml → Except Malformed (Fields Yaml Malformed)
  | .map entries => (named entries).map .named
  | .list items => .ok (.positional ⟨items, .ok ()⟩)
  | node => if node.isBlank then .ok (.named ⟨[], .ok ()⟩) else .error .malformed

/-- YAML: nothing at all is an empty list, table or record, and nothing may follow the last field.
The height of trees bounds the depth of conditions. -/
def dialect : Dialect Yaml Malformed where
  text := text
  whole := whole
  scalar := scalar
  isAbsent := isAbsent
  sequence := sequence
  table := table
  record := record
  surplus := some .malformed
  unknownField _ _ := .malformed
  duplicateField _ := .malformed
  missingField _ := .malformed
  shortRecord _ _ := .malformed
  maxDepth := Yaml.maxHeight
  tooDeep := .malformed

def readText {α : Type} (read : Yaml → Except Malformed α) (text : String) : Except Malformed α :=
  match Yaml.ofText? text with
  | some tree => read tree
  | none => .error .malformed

end Yaml

end RuleMachine
