import RuleMachine.Source.Yaml.Token
/-!
YAML documents as trees. Anchored nodes are put in where they are referred to; how often this may
happen, and how deep the tree may be, is limited.
-/

set_option autoImplicit false

namespace RuleMachine

inductive Yaml where
  | leaf (style : YamlStyle) (tag : Option String) (text : String)
  | list (items : List Yaml)
  | map (entries : List (Yaml × Yaml))
  deriving Repr, Inhabited

def Yaml.blank : Yaml := .leaf .plain none ""

mutual

def Yaml.height : Yaml → Nat
  | .leaf _ _ _ => 0
  | .list items => listHeight items + 1
  | .map entries => mapHeight entries + 1

def listHeight : List Yaml → Nat
  | [] => 0
  | item :: rest => max item.height (listHeight rest)

def mapHeight : List (Yaml × Yaml) → Nat
  | [] => 0
  | (key, value) :: rest => max (max key.height value.height) (mapHeight rest)

end

def Yaml.maxHeight : Nat := 128

structure YamlReading where
  tokens : List YamlToken
  handles : List (String × String) := []
  anchors : List (String × Nat) := []
  owners : List (Nat × Nat) := []
  /-- The finished nodes that have anchors, with the references in each. -/
  nodes : List (Nat × Yaml × Nat) := []
  events : Nat := 0
  references : Nat := 0
  deriving Repr

abbrev YamlReader := StateT YamlReading Option

namespace YamlReader

def peek : YamlReader (Option YamlToken) := return (← get).tokens.head?

def skip : YamlReader Unit := modify fun s => { s with tokens := s.tokens.drop 1 }

def count (events : Nat) : YamlReader Unit := modify fun s => { s with events := s.events + events }

def isNext (tokens : List YamlToken) : YamlReader Bool := return (← peek).any tokens.contains

def expect (token : YamlToken) : YamlReader Unit := do
  if !(← isNext [token]) then failure
  skip

def blank : YamlReader Yaml := do
  count 1
  return .blank

def fullTag (handle suffix : String) : YamlReader String := do
  if handle = "" then return suffix
  match (← get).handles.lookup handle with
  | some expansion => return expansion ++ suffix
  | none => failure

def readTag : YamlReader (Option String) := do
  match ← peek with
  | some (.tag handle suffix) =>
    skip
    return some (← fullTag handle suffix)
  | _ => return none

def readAnchor : YamlReader (Option String) := do
  match ← peek with
  | some (.anchor name) =>
    skip
    return some name
  | _ => return none

def properties : YamlReader (Option String × Option String) := do
  match ← readAnchor with
  | some anchor => return (some anchor, ← readTag)
  | none =>
    let tag ← readTag
    return (← readAnchor, tag)

/-- Gives a name to the node that starts here. A name is known by the number of names before it,
and a number belongs to the node that it was last given to. Gives the node's own number. -/
def register (name : String) : YamlReader Nat := do
  let s ← get
  let number := s.anchors.length
  let node := s.owners.length
  set { s with
    anchors := (name, number) :: s.anchors.filter (·.1 ≠ name)
    owners := (number, node) :: s.owners }
  return node

def resolve (name : String) : YamlReader Yaml := do
  let s ← get
  let (tree, references) ← (do
    let number ← s.anchors.lookup name
    let node ← s.owners.lookup number
    s.nodes.lookup node : Option (Yaml × Nat))
  set { s with events := s.events + 1, references := s.references + references + 1 }
  return tree

def named (anchor : Option String) (read : YamlReader Yaml) : YamlReader Yaml := do
  match anchor with
  | none => read
  | some name =>
    let before := (← get).references
    let node ← register name
    let tree ← read
    modify fun s => { s with nodes := (node, tree, s.references - before) :: s.nodes }
    return tree

mutual

/-- Reads a node; block collections only where `block` says so, and dashes without indentation of
their own where `dashes` says so. -/
def node (block dashes : Bool) : Nat → YamlReader Yaml
  | 0 => failure
  | fuel + 1 => do
    match ← peek with
    | some (.reference name) =>
      skip
      resolve name
    | _ =>
      let (anchor, tag) ← properties
      named anchor do
        match ← peek with
        | some .dash =>
          if dashes then
            count 2
            return .list (← levelItems fuel)
          else if anchor.isSome || tag.isSome then
            count 1
            return .leaf .plain tag ""
          else failure
        | some (.scalar style text) =>
          skip
          count 1
          return .leaf style (tag.filter (· ≠ "!")) text
        | some .flowSequence =>
          skip
          count 2
          return .list (← flowItems true fuel)
        | some .flowMapping =>
          skip
          count 2
          return .map (← flowEntries true fuel)
        | some .blockSequence =>
          if !block then failure
          skip
          count 2
          return .list (← blockItems fuel)
        | some .blockMapping =>
          if !block then failure
          skip
          count 2
          return .map (← blockEntries fuel)
        | _ =>
          if anchor.isNone && tag.isNone then failure
          count 1
          return .leaf .plain tag ""

def blockItems : Nat → YamlReader (List Yaml)
  | 0 => failure
  | fuel + 1 => do
    if ← isNext [.blockEnd] then
      skip
      return []
    expect .dash
    let item ← if ← isNext [.dash, .blockEnd] then blank else node true false fuel
    return item :: (← blockItems fuel)

def levelItems : Nat → YamlReader (List Yaml)
  | 0 => failure
  | fuel + 1 => do
    if !(← isNext [.dash]) then return []
    skip
    let item ←
      if ← isNext [.dash, .key, .value, .blockEnd] then blank else node true false fuel
    return item :: (← levelItems fuel)

def blockEntries : Nat → YamlReader (List (Yaml × Yaml))
  | 0 => failure
  | fuel + 1 => do
    if ← isNext [.blockEnd] then
      skip
      return []
    expect .key
    let key ← if ← isNext [.key, .value, .blockEnd] then blank else node true true fuel
    let value ←
      if ← isNext [.value] then do
        skip
        if ← isNext [.key, .value, .blockEnd] then blank else node true true fuel
      else blank
    return (key, value) :: (← blockEntries fuel)

def flowItems (first : Bool) : Nat → YamlReader (List Yaml)
  | 0 => failure
  | fuel + 1 => do
    if ← isNext [.flowSequenceEnd] then
      skip
      return []
    if !first then expect .comma
    if ← isNext [.flowSequenceEnd] then
      skip
      return []
    let item ←
      if ← isNext [.key] then do
        skip
        count 2
        let key ← node false false fuel
        let value ← flowValue .flowSequenceEnd fuel
        pure (Yaml.map [(key, value)])
      else node false false fuel
    return item :: (← flowItems false fuel)

def flowEntries (first : Bool) : Nat → YamlReader (List (Yaml × Yaml))
  | 0 => failure
  | fuel + 1 => do
    if ← isNext [.flowMappingEnd] then
      skip
      return []
    if !first then expect .comma
    if ← isNext [.flowMappingEnd] then
      skip
      return []
    let (key, value) ←
      if ← isNext [.key] then do
        skip
        let key ←
          if ← isNext [.value, .comma, .flowMappingEnd] then blank else node false false fuel
        pure (key, ← flowValue .flowMappingEnd fuel)
      else do
        let key ← node false false fuel
        pure (key, ← blank)
    return (key, value) :: (← flowEntries false fuel)

def flowValue (closing : YamlToken) : Nat → YamlReader Yaml
  | 0 => failure
  | fuel + 1 => do
    if ← isNext [.value] then
      skip
      if ← isNext [.comma, closing] then blank else node false false fuel
    else blank

end

def directives : Nat → Bool → YamlReader Unit
  | 0, _ => failure
  | fuel + 1, hasVersion => do
    match ← peek with
    | some (.version major minor) =>
      if hasVersion || major ≠ 1 || (minor ≠ 1 && minor ≠ 2) then failure
      skip
      directives fuel true
    | some (.handle name expansion) =>
      let s ← get
      if (s.handles.lookup name).isSome then failure
      set { s with handles := (name, expansion) :: s.handles }
      skip
      directives fuel hasVersion
    | _ =>
      let standard := [("!", "!"), ("!!", "tag:yaml.org,2002:")]
      modify fun s => { s with handles := s.handles ++ standard }

def startsDocument : Option YamlToken → Bool
  | some (.version _ _) => true
  | some (.handle _ _) => true
  | some .documentStart => true
  | _ => false

def document (fuel : Nat) : YamlReader Yaml := do
  if (← peek).isNone then return .blank
  let isExplicit := startsDocument (← peek)
  directives fuel false
  if isExplicit then expect .documentStart
  let next ← peek
  let tree ←
    if isExplicit && (next.isNone || next = some .documentEnd || startsDocument next) then blank
    else node true false fuel
  modify fun s => { s with tokens := s.tokens.dropWhile (· = .documentEnd) }
  if (← peek).isSome then failure
  return tree

end YamlReader

def Yaml.ofText? (text : String) : Option Yaml := do
  let tokens ← YamlToken.ofText? text
  let (tree, s) ← (YamlReader.document (4 * tokens.length + 4)).run { tokens := tokens }
  if 100 * s.events < s.references || Yaml.maxHeight < tree.height then none
  return tree

end RuleMachine
