import RuleMachine.Source.Yaml.Text
/-!
YAML texts as tokens. Indentation is made explicit: block collections open and close with tokens of
their own. What may turn out to be a key is known as one only when its colon comes, so the tokens in
front of it are put in afterwards.
-/

set_option autoImplicit false

namespace RuleMachine

open YamlText

inductive YamlStyle where
  | plain
  | quoted
  | literal
  | folded
  deriving DecidableEq, Repr, Inhabited

inductive YamlToken where
  | version (major minor : Nat)
  | handle (name expansion : String)
  | documentStart
  | documentEnd
  | blockSequence
  | blockMapping
  | blockEnd
  | flowSequence
  | flowSequenceEnd
  | flowMapping
  | flowMappingEnd
  | dash
  | comma
  | key
  | value
  | reference (anchor : String)
  | anchor (name : String)
  | tag (handle suffix : String)
  | scalar (style : YamlStyle) (text : String)
  deriving DecidableEq, Repr, Inhabited

namespace YamlText

/-! ## Tags and directives -/

def isTagChar (verbatim : Bool) (c : Char) : Bool :=
  isNameChar c || ";/?:@&=+$.!~*'()".toList.contains c || (verbatim && ",[]".toList.contains c)

def escapedByte (p : YamlCursor) : Option (UInt8 × YamlCursor) :=
  match p.rest with
  | '%' :: digits => do return (.ofNat (← hexNumber? 2 digits), p.skip 3)
  | _ => none

def charSize? (b : UInt8) : Option Nat :=
  if b < 0x80 then some 1
  else if 0xC0 ≤ b ∧ b < 0xE0 then some 2
  else if 0xE0 ≤ b ∧ b < 0xF0 then some 3
  else if 0xF0 ≤ b ∧ b < 0xF8 then some 4
  else none

def escapedBytes : Nat → YamlCursor → Option (List UInt8 × YamlCursor)
  | 0, p => some ([], p)
  | n + 1, p => do
    let (b, p) ← escapedByte p
    let (more, p) ← escapedBytes n p
    return (b :: more, p)

def escapedTagChar (p : YamlCursor) : Option (List Char × YamlCursor) := do
  let (first, _) ← escapedByte p
  let (bytes, p) ← escapedBytes (← charSize? first) p
  let text ← String.fromUTF8? ⟨bytes.toArray⟩
  return (text.toList, p)

def tagText (verbatim : Bool) : Nat → List Char → YamlCursor → Option (List Char × YamlCursor)
  | 0, _, _ => none
  | fuel + 1, done, p =>
    match p.rest with
    | [] => some (done, p)
    | c :: _ =>
      if c = '%' then do
        let (cs, p) ← escapedTagChar p
        tagText verbatim fuel (cs.reverse ++ done) p
      else if isTagChar verbatim c then tagText verbatim fuel (c :: done) p.next
      else some (done, p)

def tagHandle (p : YamlCursor) : Option (List Char × YamlCursor) :=
  match p.rest with
  | '!' :: _ =>
    let (name, p) := p.next.span isNameChar
    match p.rest with
    | '!' :: _ => some ('!' :: name ++ ['!'], p.next)
    | _ => some ('!' :: name, p)
  | _ => none

def tag (inFlow : Bool) (fuel : Nat) (p : YamlCursor) : Option (YamlToken × YamlCursor) := do
  let (token, p) ← match p.rest with
    | '!' :: '<' :: _ => do
      let (text, p) ← tagText true fuel [] (p.skip 2)
      if text = [] || p.rest.head? ≠ some '>' then none
      pure (YamlToken.tag "" (String.ofList text.reverse), p.next)
    | _ => do
      let (handle, p) ← tagHandle p
      if 1 < handle.length ∧ handle.getLast? = some '!' then
        let (text, p) ← tagText false fuel [] p
        if text = [] then none
        pure (YamlToken.tag (String.ofList handle) (String.ofList text.reverse), p)
      else
        let (text, p) ← tagText false fuel (handle.drop 1).reverse p
        if text = [] then pure (YamlToken.tag "" "!", p)
        else pure (YamlToken.tag "!" (String.ofList text.reverse), p)
  if (inFlow && p.rest.head? = some ',') || endsWord p.rest then some (token, p) else none

def anchorName (p : YamlCursor) : Option (String × YamlCursor) :=
  let (name, p) := p.span isNameChar
  let isEnded := endsWord p.rest || p.rest.head?.any ("?:,]\x7d%@`".toList.contains ·)
  if name ≠ [] ∧ isEnded then some (String.ofList name, p) else none

def versionPart (p : YamlCursor) : Option (Nat × YamlCursor) :=
  let (digits, p) := p.span isDigit
  if digits ≠ [] ∧ digits.length ≤ 9 then some (digitsValue digits, p) else none

def directive (fuel : Nat) (p : YamlCursor) : Option (YamlToken × YamlCursor) := do
  let (name, p) := p.span isNameChar
  if !endsWord p.rest then none
  let p := p.skipWhile isBlank
  if name = "YAML".toList then
    let (major, p) ← versionPart p
    if p.rest.head? ≠ some '.' then none
    let (minor, p) ← versionPart p.next
    return (.version major minor, ← p.endLine?)
  else if name = "TAG".toList then
    let (handle, p) ← tagHandle p
    if handle.getLast? ≠ some '!' then none
    if !p.rest.head?.any isBlank then none
    let (expansion, p) ← tagText true fuel [] (p.skipWhile isBlank)
    if expansion = [] || !endsWord p.rest then none
    return (.handle (String.ofList handle) (String.ofList expansion.reverse), ← p.endLine?)
  else none

end YamlText

/-! ## Layout -/

/-- A token that is a key if a colon comes next. -/
structure KeyCandidate where
  required : Bool
  position : Nat
  index : Nat
  line : Nat
  column : Nat
  deriving Repr

/-- The tokens up to a place in a text, with what the layout of the text so far says about those to
come. -/
structure YamlLayout where
  place : YamlCursor
  tokens : List YamlToken := []
  count : Nat := 0
  columns : List Nat := []
  keyAllowed : Bool := true
  key : Option KeyCandidate := none
  outerKeys : List (Option KeyCandidate) := []
  deriving Repr

namespace YamlLayout

def inFlow (s : YamlLayout) : Bool := !s.outerKeys.isEmpty

def scalarIndent (s : YamlLayout) : Nat := (s.columns.head?.map (· + 1)).getD 0

def emit (token : YamlToken) (s : YamlLayout) : YamlLayout :=
  { s with tokens := token :: s.tokens, count := s.count + 1 }

def emitAt (position : Nat) (token : YamlToken) (s : YamlLayout) : YamlLayout :=
  let (after, before) := s.tokens.splitAt (s.count - position)
  { s with tokens := after ++ token :: before, count := s.count + 1 }

def openBlock (column position : Nat) (token : YamlToken) (s : YamlLayout) : YamlLayout :=
  if s.inFlow || s.columns.head?.any (column ≤ ·) then s
  else { s.emitAt position token with columns := column :: s.columns }

def closeBlocks (test : Nat → Bool) (s : YamlLayout) : YamlLayout :=
  if s.inFlow then s
  else
    let closed := (s.columns.takeWhile test).length
    { s with
      tokens := List.replicate closed .blockEnd ++ s.tokens
      count := s.count + closed
      columns := s.columns.drop closed }

def dropKey (s : YamlLayout) : Option YamlLayout :=
  if s.key.any (·.required) then none else some { s with key := none }

def markKey (s : YamlLayout) : Option YamlLayout :=
  if s.keyAllowed then do
    let s ← s.dropKey
    let p := s.place
    let required := !s.inFlow && s.columns.head? = some p.column
    return { s with key := some ⟨required, s.count, p.index, p.line, p.column⟩ }
  else some s

def isStale (p : YamlCursor) (key : KeyCandidate) : Bool :=
  key.line < p.line || key.index + 1024 < p.index

/-- Gives up the candidates that can no longer be keys. -/
def dropStale (s : YamlLayout) : Option YamlLayout :=
  let lost (key : Option KeyCandidate) : Bool := key.any fun k => k.required && isStale s.place k
  let kept (key : Option KeyCandidate) := key.filter fun k => !isStale s.place k
  if lost s.key || s.outerKeys.any lost then none
  else some { s with key := kept s.key, outerKeys := s.outerKeys.map kept }

/-- Goes to the start of the next token, over blanks, comments and line breaks. A tab is no blank
where a key may stand in a block; a new line in a block may start with a key. -/
def skipToToken : Nat → YamlLayout → YamlLayout
  | 0, s => s
  | fuel + 1, s =>
    let isSkipped (c : Char) : Bool := c = ' ' || (c = '\t' && (s.inFlow || !s.keyAllowed))
    let p := s.place.skipWhile isSkipped
    let p := if p.rest.head? = some '#' then p.skipWhile (!isBreak ·) else p
    if p.rest.head?.any isBreak then
      skipToToken fuel { s with place := p.skipBreak, keyAllowed := s.keyAllowed || !s.inFlow }
    else { s with place := p }

def take (size : Nat) (token : YamlToken) (s : YamlLayout) : YamlLayout :=
  { s.emit token with place := s.place.skip size }

def taken (read : Option (YamlToken × YamlCursor)) (s : YamlLayout) : Option YamlLayout := do
  let (token, p) ← read
  return { s.emit token with place := p }

def outermost (s : YamlLayout) : Option YamlLayout := do
  let s ← (s.closeBlocks fun _ => true).dropKey
  return { s with keyAllowed := false }

def openFlow (token : YamlToken) (s : YamlLayout) : Option YamlLayout := do
  let s ← s.markKey
  return { s.take 1 token with keyAllowed := true, key := none, outerKeys := s.key :: s.outerKeys }

def closeFlow (token : YamlToken) (s : YamlLayout) : Option YamlLayout := do
  let s ← s.dropKey
  let s := { s.take 1 token with keyAllowed := false }
  match s.outerKeys with
  | [] => return s
  | key :: outer => return { s with key := key, outerKeys := outer }

def takeComma (s : YamlLayout) : Option YamlLayout := do
  let s ← s.dropKey
  return { s.take 1 .comma with keyAllowed := true }

def takeDash (s : YamlLayout) : Option YamlLayout := do
  if !s.inFlow && !s.keyAllowed then none
  let s ← (s.openBlock s.place.column s.count .blockSequence).dropKey
  return { s.take 1 .dash with keyAllowed := true }

def takeKey (s : YamlLayout) : Option YamlLayout := do
  if !s.inFlow && !s.keyAllowed then none
  let s ← (s.openBlock s.place.column s.count .blockMapping).dropKey
  return { s.take 1 .key with keyAllowed := !s.inFlow }

/-- A colon makes a key of the candidate. Without one it starts a value on its own. -/
def takeValue (s : YamlLayout) : Option YamlLayout :=
  match s.key with
  | some k =>
    let s := (s.emitAt k.position .key).openBlock k.column k.position .blockMapping
    some { s.take 1 .value with key := none, keyAllowed := false }
  | none => do
    if !s.inFlow && !s.keyAllowed then none
    let s := s.openBlock s.place.column s.count .blockMapping
    return { s.take 1 .value with keyAllowed := !s.inFlow }

def takeWord (read : YamlCursor → Option (YamlToken × YamlCursor)) (s : YamlLayout) :
    Option YamlLayout := do
  let s ← s.markKey
  { s with keyAllowed := false }.taken (read s.place)

def takePlain (fuel : Nat) (s : YamlLayout) : Option YamlLayout := do
  let s ← s.markKey
  let (text, isBroken, p) ← plain s.inFlow s.scalarIndent fuel [] s.place
  return { s.emit (.scalar .plain text) with place := p, keyAllowed := isBroken }

def takeBlock (folded : Bool) (fuel : Nat) (s : YamlLayout) : Option YamlLayout := do
  let s ← s.dropKey
  let (text, p) ← block folded s.scalarIndent fuel s.place.next
  return { s.emit (.scalar (if folded then .folded else .literal) text) with
    place := p, keyAllowed := true }

def startsPlain (inFlow : Bool) (c : Char) (rest : List Char) : Bool :=
  !(isSpace c || "-?:,[]\x7b\x7d#&*!|>'\"%@`".toList.contains c) ||
    (c = '-' && !rest.head?.any isBlank) ||
    (!inFlow && (c = '?' || c = ':') && !endsWord rest)

def takeToken (fuel : Nat) (s : YamlLayout) : Option YamlLayout :=
  let p := s.place
  let scalar (style : YamlStyle) : Option (String × YamlCursor) → Option (YamlToken × YamlCursor) :=
    Option.map fun (text, p) => (.scalar style text, p)
  match p.rest with
  | [] => none
  | c :: rest =>
    if p.column = 0 && c = '%' then do (← s.outermost).taken (directive fuel p.next)
    else if p.atMarker then do
      return (← s.outermost).take 3 (if c = '-' then .documentStart else .documentEnd)
    else if c = '[' then s.openFlow .flowSequence
    else if c = '{' then s.openFlow .flowMapping
    else if c = ']' then s.closeFlow .flowSequenceEnd
    else if c = '}' then s.closeFlow .flowMappingEnd
    else if c = ',' then s.takeComma
    else if c = '-' && endsWord rest then s.takeDash
    else if c = '?' && (s.inFlow || endsWord rest) then s.takeKey
    else if c = ':' && (s.inFlow || endsWord rest) then s.takeValue
    else if c = '*' then s.takeWord fun p =>
      (anchorName p.next).map fun (name, p) => (.reference name, p)
    else if c = '&' then s.takeWord fun p =>
      (anchorName p.next).map fun (name, p) => (.anchor name, p)
    else if c = '!' then s.takeWord (YamlText.tag s.inFlow fuel)
    else if c = '|' && !s.inFlow then s.takeBlock false fuel
    else if c = '>' && !s.inFlow then s.takeBlock true fuel
    else if c = '\'' then s.takeWord fun p => scalar .quoted (singleQuoted fuel [] p.next)
    else if c = '"' then s.takeWord fun p => scalar .quoted (doubleQuoted fuel [] p.next)
    else if startsPlain s.inFlow c rest then s.takePlain fuel
    else none

def takeAll : Nat → YamlLayout → Option YamlLayout
  | 0, _ => none
  | fuel + 1, s => do
    let s ← (s.skipToToken fuel).dropStale
    let s := s.closeBlocks (s.place.column < ·)
    if s.place.rest.isEmpty then s.outermost else takeAll fuel (← s.takeToken fuel)

end YamlLayout

def YamlToken.ofText? (text : String) : Option (List YamlToken) := do
  let cs := match text.toList with
    | '\ufeff' :: rest => rest
    | cs => cs
  if !cs.all isAllowed then none
  let s ← YamlLayout.takeAll (cs.length + 2) { place := { rest := cs } }
  return s.tokens.reverse

end RuleMachine
