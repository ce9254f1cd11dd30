import RuleMachine.Source.Toml.Text
/-!
TOML documents as trees. Statements build up one table; a table remembers how it came about, since
that decides what later statements may add to it.
-/

set_option autoImplicit false

namespace RuleMachine

inductive Toml where
  | string (s : String)
  | integer (n : Int)
  | real (x : Double)
  | bool (b : Bool)
  | array (values : List Toml)
  | table (entries : List (String × Toml))
  deriving Repr, Inhabited

/-- How a table came about: by a header of its own, as a part of a header's path, or as a part of a
dotted key. -/
inductive TableOrigin where
  | header
  | path
  | dotted
  deriving DecidableEq, Repr

inductive TomlItem where
  | value (v : Toml)
  | table (origin : TableOrigin) (entries : List (String × TomlItem))
  | tables (elements : List (List (String × TomlItem)))
  deriving Repr, Inhabited

abbrev TomlEntries := List (String × TomlItem)

namespace TomlEntries

def set (key : String) (item : TomlItem) : TomlEntries → TomlEntries
  | [] => [(key, item)]
  | (k, old) :: rest => if k = key then (k, item) :: rest else (k, old) :: set key item rest

/-- Changes the table that a path leads to. Tables that are missing are made with `origin`; the
last table of an array stands for the array. A dotted key does not lead through a table with a
header of its own. The change is told how the table came about. -/
def change (origin : TableOrigin) (f : TableOrigin → TomlEntries → Option TomlEntries) :
    List String → TableOrigin → TomlEntries → Option TomlEntries
  | [], own, entries => f own entries
  | key :: path, _, entries =>
    match entries.lookup key with
    | none => do
      let inner ← change origin f path origin []
      return entries.set key (.table origin inner)
    | some (.value _) => none
    | some (.table own inner) =>
      if origin = .dotted ∧ own = .header then none
      else do
        let inner ← change origin f path own inner
        return entries.set key (.table own inner)
    | some (.tables []) => none
    | some (.tables (last :: before)) => do
      let last ← change origin f path .header last
      return entries.set key (.tables (last :: before))

/-- Adds a new key to a table. With dots in front of the key, the table has to be one that dotted
keys made. -/
def addValue (key : String) (dotted : Bool) (v : Toml) (own : TableOrigin) (entries : TomlEntries) :
    Option TomlEntries :=
  if dotted ∧ own ≠ .dotted then none
  else if (entries.lookup key).isSome then none
  else some (entries ++ [(key, .value v)])

def addKey (path : List String) (v : Toml) (own : TableOrigin) (entries : TomlEntries) :
    Option TomlEntries :=
  match path.getLast? with
  | none => none
  | some key =>
    let front := path.dropLast
    change .dotted (addValue key (!front.isEmpty) v) front own entries

def addUnder (header path : List String) (v : Toml) (entries : TomlEntries) : Option TomlEntries :=
  change .path (addKey path v) header .header entries

/-- Opens the table of a header. It may be there already only as a part of other headers' paths. -/
def openTable (path : List String) (entries : TomlEntries) : Option TomlEntries := do
  let key ← path.getLast?
  let add (_ : TableOrigin) (entries : TomlEntries) : Option TomlEntries :=
    match entries.lookup key with
    | none => some (entries ++ [(key, .table .header [])])
    | some (.table .path inner) => some (entries.set key (.table .header inner))
    | some _ => none
  change .path add path.dropLast .header entries

def openElement (path : List String) (entries : TomlEntries) : Option TomlEntries := do
  let key ← path.getLast?
  let add (_ : TableOrigin) (entries : TomlEntries) : Option TomlEntries :=
    match entries.lookup key with
    | none => some (entries ++ [(key, .tables [[]])])
    | some (.tables elements) => some (entries.set key (.tables ([] :: elements)))
    | some _ => none
  change .path add path.dropLast .header entries

end TomlEntries

mutual

def TomlItem.finish : TomlItem → Toml
  | .value v => v
  | .table _ entries => .table (finishEntries entries)
  | .tables elements => .array (finishElements elements).reverse

def finishEntries : List (String × TomlItem) → List (String × Toml)
  | [] => []
  | (key, item) :: rest => (key, item.finish) :: finishEntries rest

def finishElements : List (List (String × TomlItem)) → List Toml
  | [] => []
  | entries :: rest => .table (finishEntries entries) :: finishElements rest

end

namespace TomlText

mutual

def value : Nat → Nat → Reader Toml
  | 0, _, _ => none
  | fuel + 1, depth, cs =>
    match cs with
    | [] => none
    | '"' :: _ => (string cs).map fun (s, rest) => (.string s, rest)
    | '\'' :: _ => (string cs).map fun (s, rest) => (.string s, rest)
    | 't' :: 'r' :: 'u' :: 'e' :: rest => some (.bool true, rest)
    | 'f' :: 'a' :: 'l' :: 's' :: 'e' :: rest => some (.bool false, rest)
    | '[' :: rest =>
      match depth with
      | 0 => none
      | depth + 1 => (elements fuel depth rest).map fun (values, rest) => (.array values, rest)
    | '{' :: rest =>
      match depth with
      | 0 => none
      | depth + 1 => do
        match skipBlank rest with
        | '}' :: rest => return (.table [], rest)
        | _ =>
          let (entries, rest) ← inlineEntries fuel depth [] rest
          return (.table (finishEntries entries), rest)
    | _ =>
      (number cs).map fun (n, rest) =>
        match n with
        | .whole n => (.integer n, rest)
        | .real x => (.real x, rest)

def elements : Nat → Nat → Reader (List Toml)
  | 0, _, _ => none
  | fuel + 1, depth, cs =>
    match skipSpace (cs.length + 1) cs with
    | ']' :: rest => some ([], rest)
    | cs => do
      let (first, rest) ← value fuel depth cs
      match skipSpace (rest.length + 1) rest with
      | ',' :: rest => do
        let (more, rest) ← elements fuel depth rest
        return (first :: more, rest)
      | ']' :: rest => return ([first], rest)
      | _ => none

def inlineEntries : Nat → Nat → TomlEntries → Reader TomlEntries
  | 0, _, _, _ => none
  | fuel + 1, depth, done, cs => do
    let (path, rest) ← key cs
    match rest with
    | '=' :: rest => do
      let (v, rest) ← value fuel depth (skipBlank rest)
      let done ← TomlEntries.addKey path v .header done
      match skipBlank rest with
      | ',' :: rest => inlineEntries fuel depth done rest
      | '}' :: rest => return (done, rest)
      | _ => none
    | _ => none

end

def header (cs : List Char) : Option (Bool × List String × List Char) :=
  match cs with
  | '[' :: cs => do
    let (path, rest) ← key cs
    match rest with
    | ']' :: ']' :: rest => return (true, path, ← endLine? rest)
    | _ => none
  | cs => do
    let (path, rest) ← key cs
    match rest with
    | ']' :: rest => return (false, path, ← endLine? rest)
    | _ => none

def statements : Nat → List String → TomlEntries → List Char → Option TomlEntries
  | 0, _, _, _ => none
  | fuel + 1, current, entries, cs =>
    match skipBlank cs with
    | [] => some entries
    | '#' :: rest => do
      let rest ← endLine? ('#' :: rest)
      statements fuel current entries rest
    | '[' :: rest => do
      let (isElement, path, rest) ← header rest
      let entries ←
        if isElement then TomlEntries.openElement path entries
        else TomlEntries.openTable path entries
      statements fuel path entries rest
    | cs =>
      match newline? cs with
      | some rest => statements fuel current entries rest
      | none => do
        let (path, rest) ← key cs
        match rest with
        | '=' :: rest => do
          let (v, rest) ← value (rest.length + 1) maxParts (skipBlank rest)
          let rest ← endLine? rest
          let entries ← TomlEntries.addUnder current path v entries
          statements fuel current entries rest
        | _ => none

end TomlText

def Toml.ofText? (text : String) : Option Toml := do
  let cs := match text.toList with
    | '\uFEFF' :: rest => rest
    | cs => cs
  let entries ← TomlText.statements (cs.length + 1) [] [] cs
  return .table (finishEntries entries)

end RuleMachine
