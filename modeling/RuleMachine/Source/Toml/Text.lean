import RuleMachine.Number.Literal
/-!
The words of TOML texts: blanks and comments, strings, keys and numbers. Every reader takes the rest
of a text and gives what it has read with what follows, or nothing if it cannot read.
-/

set_option autoImplicit false

namespace RuleMachine.TomlText

abbrev Reader (α : Type) := List Char → Option (α × List Char)

def isBlank (c : Char) : Bool := c = ' ' || c = '\t'

def skipBlank (cs : List Char) : List Char := cs.dropWhile isBlank

def isCommentChar (c : Char) : Bool := c = '\t' || (' ' ≤ c && c ≠ '\x7f')

def newline? : List Char → Option (List Char)
  | '\n' :: rest => some rest
  | '\r' :: '\n' :: rest => some rest
  | _ => none

def skipComment : List Char → List Char
  | '#' :: rest => rest.dropWhile isCommentChar
  | cs => cs

/-- The rest of a statement's line: blanks, a comment, and a line end or the end of the text. -/
def endLine? (cs : List Char) : Option (List Char) :=
  match skipComment (skipBlank cs) with
  | [] => some []
  | rest => newline? rest

def skipLines : List Char → List Char
  | ' ' :: rest => skipLines rest
  | '\t' :: rest => skipLines rest
  | '\n' :: rest => skipLines rest
  | '\r' :: '\n' :: rest => skipLines rest
  | cs => cs

def skipSpace : Nat → List Char → List Char
  | 0, cs => cs
  | fuel + 1, cs =>
    match skipLines cs with
    | '#' :: rest => skipSpace fuel (rest.dropWhile isCommentChar)
    | rest => rest

/-! ## Strings -/

def isPlain (c : Char) : Bool := c = '\t' || (' ' ≤ c && c ≠ '\x7f')

def hexDigit? (c : Char) : Option Nat :=
  if isDigit c then some (digitValue c)
  else if 'a' ≤ c ∧ c ≤ 'f' then some (c.toNat - 'a'.toNat + 10)
  else if 'A' ≤ c ∧ c ≤ 'F' then some (c.toNat - 'A'.toNat + 10)
  else none

def codeChar (count : Nat) (cs : List Char) : Option Char := do
  let digits := cs.take count
  if digits.length ≠ count then none
  let values ← digits.mapM hexDigit?
  let code := values.foldl (fun n d => 16 * n + d) 0
  if h : code.isValidChar then some (Char.ofNatAux code h) else none

def escape : Reader Char
  | 'b' :: rest => some ('\x08', rest)
  | 't' :: rest => some ('\t', rest)
  | 'n' :: rest => some ('\n', rest)
  | 'f' :: rest => some ('\x0c', rest)
  | 'r' :: rest => some ('\r', rest)
  | '"' :: rest => some ('"', rest)
  | '\\' :: rest => some ('\\', rest)
  | 'u' :: rest => do return (← codeChar 4 rest, rest.drop 4)
  | 'U' :: rest => do return (← codeChar 8 rest, rest.drop 8)
  | _ => none

def basicString : Nat → List Char → Reader String
  | 0, _, _ => none
  | _, _, [] => none
  | fuel + 1, done, c :: rest =>
    if c = '"' then some (String.ofList done.reverse, rest)
    else if c = '\\' then do
      let (e, rest) ← escape rest
      basicString fuel (e :: done) rest
    else if isPlain c then basicString fuel (c :: done) rest
    else none

def literalString (cs : List Char) : Option (String × List Char) :=
  match cs.dropWhile fun c => c ≠ '\'' && isPlain c with
  | '\'' :: rest => some (String.ofList (cs.takeWhile fun c => c ≠ '\'' && isPlain c), rest)
  | _ => none

def foldedLine? (cs : List Char) : Option (List Char) := (newline? (skipBlank cs)).map skipLines

def quoteRun (quote : Char) (cs : List Char) : Nat := (cs.takeWhile (· = quote)).length

/-- Reads a string of several lines after its three quotes. Escapes count where `escapes` says so.
Up to two quotes may stand alone or in front of the closing three. -/
def longString (quote : Char) (escapes : Bool) : Nat → List Char → Reader String
  | 0, _, _ => none
  | _, _, [] => none
  | fuel + 1, done, c :: rest =>
    if c = quote then
      let run := quoteRun quote (c :: rest)
      if run < 3 then
        longString quote escapes fuel (List.replicate run quote ++ done) (rest.drop (run - 1))
      else if run ≤ 5 then
        some (String.ofList (done.reverse ++ List.replicate (run - 3) quote), rest.drop (run - 1))
      else none
    else if c = '\\' ∧ escapes then
      match foldedLine? rest with
      | some rest => longString quote escapes fuel done rest
      | none => do
        let (e, rest) ← escape rest
        longString quote escapes fuel (e :: done) rest
    else
      match newline? (c :: rest) with
      | some rest => longString quote escapes fuel ('\n' :: done) rest
      | none => if isPlain c then longString quote escapes fuel (c :: done) rest else none

def dropFirstNewline (cs : List Char) : List Char := (newline? cs).getD cs

def string (cs : List Char) : Option (String × List Char) :=
  let fuel := cs.length + 1
  match cs with
  | '"' :: '"' :: '"' :: rest => longString '"' true fuel [] (dropFirstNewline rest)
  | '"' :: rest => basicString fuel [] rest
  | '\'' :: '\'' :: '\'' :: rest => longString '\'' false fuel [] (dropFirstNewline rest)
  | '\'' :: rest => literalString rest
  | _ => none

/-! ## Keys -/

def isBareKeyChar (c : Char) : Bool := c.isAlphanum || c = '_' || c = '-'

def simpleKey (cs : List Char) : Option (String × List Char) :=
  match cs with
  | '"' :: rest => basicString (cs.length + 1) [] rest
  | '\'' :: rest => literalString rest
  | _ =>
    let name := cs.takeWhile isBareKeyChar
    if name = [] then none else some (String.ofList name, cs.dropWhile isBareKeyChar)

def keyParts : Nat → Reader (List String)
  | 0, _ => none
  | fuel + 1, cs => do
    let (first, rest) ← simpleKey (skipBlank cs)
    match skipBlank rest with
    | '.' :: rest => do
      let (more, rest) ← keyParts fuel rest
      return (first :: more, rest)
    | rest => return ([first], rest)

def maxParts : Nat := 79

def key (cs : List Char) : Option (List String × List Char) := do
  let (parts, rest) ← keyParts (cs.length + 1) cs
  if parts.length ≤ maxParts then some (parts, rest) else none

/-! ## Numbers -/

def digitsOf (valid : Char → Bool) : Nat → Reader (List Char)
  | 0, _ => none
  | fuel + 1, c :: rest =>
    if valid c then
      let next := match rest with
        | '_' :: d :: _ => if valid d then some (rest.drop 1) else none
        | '_' :: [] => none
        | d :: _ => if valid d then some rest else some []
        | [] => some []
      match next with
      | none => none
      | some [] => some ([c], rest)
      | some rest => (digitsOf valid fuel rest).map fun (digits, rest) => (c :: digits, rest)
    else none
  | _, [] => none

def wholePart (cs : List Char) : Option (List Char × List Char) :=
  match cs with
  | '0' :: rest => some (['0'], rest)
  | _ => digitsOf isDigit (cs.length + 1) cs

inductive Number where
  | whole (n : Int)
  | real (x : Double)
  deriving DecidableEq, Repr

def inRange? (n : Int) : Option Number :=
  if -0x8000000000000000 ≤ n ∧ n < 0x8000000000000000 then some (.whole n) else none

def basedInteger (base : Nat) (cs : List Char) : Option (Number × List Char) := do
  let valid (c : Char) : Bool := (hexDigit? c).any (· < base)
  let (digits, rest) ← digitsOf valid (cs.length + 1) cs
  let values ← digits.mapM hexDigit?
  let n := values.foldl (fun n d => base * n + d) 0
  return (← inRange? n, rest)

def fraction : Reader (List Char)
  | '.' :: rest => (digitsOf isDigit (rest.length + 1) rest).map fun (ds, rest) => ('.' :: ds, rest)
  | _ => none

def exponent : Reader (List Char)
  | c :: rest =>
    if c = 'e' ∨ c = 'E' then
      let (sign, body) := match rest with
        | '-' :: body => (['-'], body)
        | '+' :: body => (['+'], body)
        | body => ([], body)
      (digitsOf isDigit (body.length + 1) body).map fun (ds, rest) => ('e' :: sign ++ ds, rest)
    else none
  | [] => none

/-- A float has to stay below positive infinity. -/
def realOf? (negative : Bool) (text : List Char) : Option Number := do
  let d ← DecimalLiteral.read? text
  let pattern := d.pattern .double
  if pattern = BinaryFormat.double.infinity ∧ !negative then none
  return .real (.ofPattern negative pattern)

def decimal (negative : Bool) (cs : List Char) : Option (Number × List Char) := do
  let (whole, rest) ← wholePart cs
  match rest with
  | '.' :: _ => do
    let (fraction, rest) ← fraction rest
    match exponent rest with
    | some (exponent, rest) =>
      return (← realOf? negative (whole ++ fraction ++ exponent), rest)
    | none => return (← realOf? negative (whole ++ fraction), rest)
  | _ =>
    match exponent rest with
    | some (exponent, rest) => return (← realOf? negative (whole ++ exponent), rest)
    | none =>
      let n : Int := digitsValue whole
      return (← inRange? (if negative then -n else n), rest)

def number (cs : List Char) : Option (Number × List Char) :=
  match cs with
  | '0' :: 'x' :: rest => basedInteger 16 rest
  | '0' :: 'o' :: rest => basedInteger 8 rest
  | '0' :: 'b' :: rest => basedInteger 2 rest
  | _ =>
    let (negative, body) := splitSign cs
    match body with
    | 'i' :: 'n' :: 'f' :: rest =>
      some (.real (.ofPattern negative BinaryFormat.double.infinity), rest)
    | 'n' :: 'a' :: 'n' :: rest =>
      some (.real (.ofPattern negative BinaryFormat.double.quietNaN), rest)
    | _ => decimal negative body

end RuleMachine.TomlText
