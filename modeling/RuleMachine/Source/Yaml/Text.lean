import RuleMachine.Number.Literal
/-!
The words of YAML texts: places in a text, line breaks and how they fold, and the three kinds of
scalars, in quotes, without quotes and in blocks. A reader gives what it has read with the place
behind it, or nothing if it cannot read.
-/

set_option autoImplicit false

namespace RuleMachine

namespace YamlText

def isBreak (c : Char) : Bool :=
  c = '\n' || c = '\r' || c = '\u0085' || c = '\u2028' || c = '\u2029'

def isBlank (c : Char) : Bool := c = ' ' || c = '\t'

def isSpace (c : Char) : Bool := isBlank c || isBreak c

def endsWord : List Char → Bool
  | [] => true
  | c :: _ => isSpace c

def isNameChar (c : Char) : Bool := c.isAlphanum || c = '_' || c = '-'

def isAllowed (c : Char) : Bool :=
  c = '\t' || c = '\n' || c = '\r' || (' ' ≤ c && c ≤ '~') || c = '\u0085' ||
    ('\u00a0' ≤ c && c ≠ '\ufeff' && c ≠ '\ufffe' && c ≠ '\uffff')

def isMarker : List Char → Bool
  | '-' :: '-' :: '-' :: rest => endsWord rest
  | '.' :: '.' :: '.' :: rest => endsWord rest
  | _ => false

end YamlText

open YamlText

structure YamlCursor where
  rest : List Char
  index : Nat := 0
  line : Nat := 0
  column : Nat := 0
  deriving Repr, Inhabited

namespace YamlCursor

def next (p : YamlCursor) : YamlCursor :=
  match p.rest with
  | [] => p
  | c :: rest =>
    if isBreak c && !(c = '\r' && rest.head? = some '\n') then ⟨rest, p.index + 1, p.line + 1, 0⟩
    else ⟨rest, p.index + 1, p.line, p.column + 1⟩

def skip : Nat → YamlCursor → YamlCursor
  | 0, p => p
  | n + 1, p => skip n p.next

def span (test : Char → Bool) (p : YamlCursor) : List Char × YamlCursor :=
  let run := p.rest.takeWhile test
  (run, p.skip run.length)

def skipWhile (test : Char → Bool) (p : YamlCursor) : YamlCursor := (p.span test).2

def skipBreak (p : YamlCursor) : YamlCursor :=
  match p.rest with
  | '\r' :: '\n' :: _ => p.skip 2
  | _ => p.next

def atMarker (p : YamlCursor) : Bool := p.column = 0 && isMarker p.rest

def endLine? (p : YamlCursor) : Option YamlCursor :=
  let p := p.skipWhile isBlank
  let p := if p.rest.head? = some '#' then p.skipWhile (!isBreak ·) else p
  match p.rest with
  | [] => some p
  | c :: _ => if isBreak c then some p.skipBreak else none

end YamlCursor

namespace YamlText

/-- The line breaks among some characters. All kinds count as line feeds, except the separators of
lines and paragraphs. -/
def breaks : List Char → List Char
  | [] => []
  | '\r' :: '\n' :: rest => '\n' :: breaks rest
  | c :: rest =>
    if c = '\u2028' || c = '\u2029' then c :: breaks rest
    else if isBreak c then '\n' :: breaks rest
    else breaks rest

/-- A single line feed becomes a space, of several the first is dropped. -/
def fold : List Char → List Char
  | ['\n'] => [' ']
  | '\n' :: more => more
  | other => other

def joint (gap : List Char) : List Char := if gap.any isBreak then fold (breaks gap) else gap

/-! ## Scalars in quotes -/

def singleQuoted : Nat → List Char → YamlCursor → Option (String × YamlCursor)
  | 0, _, _ => none
  | fuel + 1, done, p =>
    if p.atMarker then none
    else match p.rest with
      | [] => none
      | '\'' :: '\'' :: _ => singleQuoted fuel ('\'' :: done) (p.skip 2)
      | '\'' :: _ => some (String.ofList done.reverse, p.next)
      | c :: _ =>
        if isSpace c then
          let (gap, p) := p.span isSpace
          singleQuoted fuel ((joint gap).reverse ++ done) p
        else singleQuoted fuel (c :: done) p.next

def hexDigit? (c : Char) : Option Nat :=
  if isDigit c then some (digitValue c)
  else if 'a' ≤ c ∧ c ≤ 'f' then some (c.toNat - 'a'.toNat + 10)
  else if 'A' ≤ c ∧ c ≤ 'F' then some (c.toNat - 'A'.toNat + 10)
  else none

def hexNumber? (count : Nat) (cs : List Char) : Option Nat := do
  let digits := cs.take count
  if digits.length ≠ count then none
  let values ← digits.mapM hexDigit?
  return values.foldl (fun n d => 16 * n + d) 0

def codeChar (count : Nat) (cs : List Char) : Option Char := do
  let code ← hexNumber? count cs
  if h : code.isValidChar then some (Char.ofNatAux code h) else none

def escapedChar? : Char → Option Char
  | '0' => some '\x00'
  | 'a' => some '\x07'
  | 'b' => some '\x08'
  | 't' => some '\t'
  | '\t' => some '\t'
  | 'n' => some '\n'
  | 'v' => some '\x0b'
  | 'f' => some '\x0c'
  | 'r' => some '\r'
  | 'e' => some '\x1b'
  | ' ' => some ' '
  | '"' => some '"'
  | '/' => some '/'
  | '\\' => some '\\'
  | 'N' => some '\u0085'
  | '_' => some '\u00a0'
  | 'L' => some '\u2028'
  | 'P' => some '\u2029'
  | _ => none

def escape (p : YamlCursor) : Option (Char × YamlCursor) :=
  match p.rest with
  | [] => none
  | 'x' :: digits => (codeChar 2 digits).map (·, p.skip 3)
  | 'u' :: digits => (codeChar 4 digits).map (·, p.skip 5)
  | 'U' :: digits => (codeChar 8 digits).map (·, p.skip 9)
  | c :: _ => (escapedChar? c).map (·, p.next)

def doubleQuoted : Nat → List Char → YamlCursor → Option (String × YamlCursor)
  | 0, _, _ => none
  | fuel + 1, done, p =>
    if p.atMarker then none
    else match p.rest with
      | [] => none
      | '"' :: _ => some (String.ofList done.reverse, p.next)
      | c :: rest =>
        if isSpace c then
          let (gap, p) := p.span isSpace
          doubleQuoted fuel ((joint gap).reverse ++ done) p
        else if c = '\\' then
          if rest.head?.any isBreak then
            let (gap, p) := p.next.skipBreak.span isSpace
            doubleQuoted fuel ((breaks gap).reverse ++ done) p
          else do
            let (e, p) ← escape p.next
            doubleQuoted fuel (e :: done) p
        else doubleQuoted fuel (c :: done) p.next

/-! ## Scalars without quotes -/

def isFlowIndicator (c : Char) : Bool := c = ',' || c = '[' || c = ']' || c = '{' || c = '}'

def endsPlain (inFlow : Bool) : List Char → Bool
  | [] => true
  | c :: rest => isSpace c || (c = ':' && endsWord rest) || (inFlow && isFlowIndicator c)

def isLostColon (inFlow : Bool) : List Char → Bool
  | ':' :: c :: _ => inFlow && (c = '?' || isFlowIndicator c)
  | _ => false

def plainWord (inFlow : Bool) : Nat → List Char → YamlCursor → Option (List Char × YamlCursor)
  | 0, _, _ => none
  | fuel + 1, done, p =>
    if isLostColon inFlow p.rest then none
    else if endsPlain inFlow p.rest then some (done, p)
    else plainWord inFlow fuel (p.rest.head?.toList ++ done) p.next

def hasTabIndent (indent : Nat) : Option Nat → List Char → Bool
  | _, [] => false
  | none, c :: rest => hasTabIndent indent (if isBreak c then some 0 else none) rest
  | some column, c :: rest =>
    if isBreak c then hasTabIndent indent (some 0) rest
    else (c = '\t' && column < indent) || hasTabIndent indent (some (column + 1)) rest

/-- Reads a plain scalar, and whether line breaks follow it. Its further lines are indented by
`indent` at least, except in flow collections. -/
def plain (inFlow : Bool) (indent : Nat) :
    Nat → List Char → YamlCursor → Option (String × Bool × YamlCursor)
  | 0, _, _ => none
  | fuel + 1, done, p => do
    let (done, p) ← plainWord inFlow fuel done p
    let (gap, after) := p.span isSpace
    if hasTabIndent indent none gap then none
    let ended := gap = [] || after.atMarker || after.rest.head? = some '#' ||
      (!inFlow && after.column < indent)
    if !ended && isLostColon inFlow after.rest then none
    if ended || endsPlain inFlow after.rest then
      return (String.ofList done.reverse, gap.any isBreak, after)
    plain inFlow indent fuel ((joint gap).reverse ++ done) after

/-! ## Scalars in blocks -/

inductive Chomping where
  | clip
  | strip
  | keep
  deriving DecidableEq, Repr

def readChomping (p : YamlCursor) : Option Chomping × YamlCursor :=
  match p.rest with
  | '+' :: _ => (some .keep, p.next)
  | '-' :: _ => (some .strip, p.next)
  | _ => (none, p)

def readWidth (p : YamlCursor) : Option (Option Nat × YamlCursor) :=
  match p.rest with
  | '0' :: _ => none
  | c :: _ => if isDigit c then some (some (digitValue c), p.next) else some (none, p)
  | [] => some (none, p)

def blockHeader (p : YamlCursor) : Option (Chomping × Option Nat × YamlCursor) := do
  let (first, p) := readChomping p
  let (width, p) ← readWidth p
  let (chomping, p) := if first.isSome then (first, p) else readChomping p
  return (chomping.getD .clip, width, ← p.endLine?)

/-- Reads blank lines and the indentation of the next line, up to `indent`; as deep as it goes if
that is zero. Gives the deepest indentation and the line breaks, last first. -/
def blankLines (indent : Nat) :
    Nat → Nat → List Char → YamlCursor → Option (Nat × List Char × YamlCursor)
  | 0, _, _, _ => none
  | fuel + 1, deepest, done, p =>
    let spaces := (p.rest.takeWhile (· = ' ')).length
    let p := p.skip (if indent = 0 then spaces else min spaces (indent - p.column))
    let deepest := max deepest p.column
    if (indent = 0 || p.column < indent) && p.rest.head? = some '\t' then none
    else if p.rest.head?.any isBreak then
      let lineBreak := breaks (p.rest.take 1)
      blankLines indent fuel deepest (lineBreak ++ done) p.skipBreak
    else some (deepest, done, p)

/-- Reads the lines of a block. `last` is the break of the line before and `blank` are those of the
blank lines after it; where lines are folded, `wasBlank` keeps a line that started with a blank. -/
def blockLines (folded : Bool) (indent : Nat) : Nat → List Char → List Char → List Char → Bool →
    YamlCursor → Option (List Char × List Char × List Char × YamlCursor)
  | 0, _, _, _, _, _ => none
  | fuel + 1, done, last, blank, wasBlank, p =>
    if p.column = indent && !p.rest.isEmpty then do
      let isBlankLine := p.rest.head?.any isBlank
      let between :=
        if folded && last = ['\n'] && !wasBlank && !isBlankLine then fold (last ++ blank)
        else last ++ blank
      let (line, p) := p.span (!isBreak ·)
      let last := breaks (p.rest.take 1)
      let p := if last.isEmpty then p else p.skipBreak
      let (_, blank, p) ← blankLines indent fuel 0 [] p
      blockLines folded indent fuel (line.reverse ++ between.reverse ++ done) last blank.reverse
        isBlankLine p
    else some (done, last, blank, p)

def block (folded : Bool) (outer fuel : Nat) (p : YamlCursor) : Option (String × YamlCursor) := do
  let (chomping, width, p) ← blockHeader p
  let given := match width with
    | none => 0
    | some w => if outer = 0 then w else outer - 1 + w
  let (deepest, blank, p) ← blankLines given fuel 0 [] p
  let indent := if given = 0 then max deepest (max outer 1) else given
  let (done, last, blank, p) ← blockLines folded indent fuel [] [] blank.reverse false p
  let text := done.reverse ++ match chomping with
    | .strip => []
    | .clip => last
    | .keep => last ++ blank
  return (String.ofList text, p)

end YamlText

end RuleMachine
