import RuleMachine.Source.Json.Number
/-!
JSON texts as trees.

A text that is not JSON has a tree as well: reading goes on as far as the text makes sense and puts
a fault where it stops. What looks at the tree from left to right meets a fault exactly when it
would have met it in the text.
-/

set_option autoImplicit false

namespace RuleMachine

inductive Json where
  | null
  | bool (b : Bool)
  | number (n : JsonNumber)
  | string (s : String)
  | array (elements : List Json) (fault : Option JsonFault)
  | object (entries : List (String × Json)) (fault : Option JsonFault)
  | fault (f : JsonFault)
  deriving Repr, Inhabited

def Json.maxDepth : Nat := 127

namespace JsonText

def isBlank (c : Char) : Bool := c = ' ' || c = '\n' || c = '\t' || c = '\r'

def skipBlank (cs : List Char) : List Char := cs.dropWhile isBlank

def hexValue? (c : Char) : Option Nat :=
  if isDigit c then some (digitValue c)
  else if 'a' ≤ c ∧ c ≤ 'f' then some (c.toNat - 'a'.toNat + 10)
  else if 'A' ≤ c ∧ c ≤ 'F' then some (c.toNat - 'A'.toNat + 10)
  else none

def hexValue4? (a b c d : Char) : Option Nat := do
  return (((← hexValue? a) * 16 + (← hexValue? b)) * 16 + (← hexValue? c)) * 16 + (← hexValue? d)

def shortEscape (cs : List Char) : JsonFault :=
  if cs.foldr (fun c size => c.utf8Size + size) 0 < 4 then .endOfText else .syntaxError

def escapedChar? : Char → Option Char
  | '"' => some '"'
  | '\\' => some '\\'
  | '/' => some '/'
  | 'b' => some '\x08'
  | 'f' => some '\x0c'
  | 'n' => some '\n'
  | 'r' => some '\r'
  | 't' => some '\t'
  | _ => none

/-- Reads a string after its opening quote; `done` are its characters so far, last first. Two
escapes of a surrogate pair are one character, and a surrogate alone is none. -/
def readString (done : List Char) : List Char → Except JsonFault (String × List Char)
  | [] => .error .endOfText
  | '"' :: rest => .ok (String.ofList done.reverse, rest)
  | '\\' :: [] => .error .endOfText
  | '\\' :: 'u' :: a :: b :: c :: d :: rest =>
    match hexValue4? a b c d with
    | none => .error .syntaxError
    | some n =>
      if 0xDC00 ≤ n ∧ n ≤ 0xDFFF then .error .syntaxError
      else if 0xD800 ≤ n ∧ n ≤ 0xDBFF then
        match rest with
        | '\\' :: 'u' :: e :: f :: g :: h :: rest =>
          match hexValue4? e f g h with
          | none => .error .syntaxError
          | some m =>
            if 0xDC00 ≤ m ∧ m ≤ 0xDFFF then
              let code := 0x10000 + (n - 0xD800) * 0x400 + (m - 0xDC00)
              readString (Char.ofNat code :: done) rest
            else .error .syntaxError
        | '\\' :: 'u' :: few => .error (shortEscape few)
        | [] => .error .endOfText
        | '\\' :: [] => .error .endOfText
        | _ => .error .syntaxError
      else readString (Char.ofNat n :: done) rest
  | '\\' :: 'u' :: few => .error (shortEscape few)
  | '\\' :: c :: rest =>
    match escapedChar? c with
    | some e => readString (e :: done) rest
    | none => .error .syntaxError
  | c :: rest => if c < ' ' then .error .syntaxError else readString (c :: done) rest

def readWord (value : Json) : List Char → List Char → Json × Option (List Char)
  | [], rest => (value, some rest)
  | _ :: _, [] => (.fault .endOfText, none)
  | w :: word, c :: rest => if c = w then readWord value word rest else (.fault .syntaxError, none)

end JsonText

namespace JsonNumbers

open JsonText

variable (lib : JsonNumbers)

mutual

/-- Reads a value. The rest of the text is given only if there is no fault. `depth` is how much
deeper arrays and objects may go. -/
def readValue : Nat → Nat → List Char → Json × Option (List Char)
  | 0, _, _ => (.fault .syntaxError, none)
  | fuel + 1, depth, cs =>
    match skipBlank cs with
    | [] => (.fault .endOfText, none)
    | 'n' :: rest => readWord .null "ull".toList rest
    | 't' :: rest => readWord (.bool true) "rue".toList rest
    | 'f' :: rest => readWord (.bool false) "alse".toList rest
    | '"' :: rest =>
      match readString [] rest with
      | .ok (s, rest) => (.string s, some rest)
      | .error f => (.fault f, none)
    | '[' :: rest =>
      match depth with
      | 0 => (.array [] (some .syntaxError), none)
      | depth + 1 =>
        let (elements, fault, rest) := readElements fuel depth true rest
        (.array elements fault, rest)
    | '{' :: rest =>
      match depth with
      | 0 => (.object [] (some .syntaxError), none)
      | depth + 1 =>
        let (entries, fault, rest) := readEntries fuel depth true rest
        (.object entries fault, rest)
    | c :: rest =>
      if c = '-' ∨ isDigit c then
        match lib.readNumber (c :: rest) with
        | .ok (n, rest) => (.number n, some rest)
        | .error f => (.fault f, none)
      else (.fault .syntaxError, none)

def readElements : Nat → Nat → Bool → List Char →
    List Json × Option JsonFault × Option (List Char)
  | 0, _, _, _ => ([], some .syntaxError, none)
  | fuel + 1, depth, first, cs =>
    let element (cs : List Char) :=
      match readValue fuel depth cs with
      | (value, none) => ([value], none, none)
      | (value, some rest) =>
        let (values, fault, rest) := readElements fuel depth false rest
        (value :: values, fault, rest)
    match skipBlank cs with
    | [] => ([], some .endOfText, none)
    | ']' :: rest => ([], none, some rest)
    | ',' :: rest =>
      if first then ([.fault .syntaxError], none, none)
      else match skipBlank rest with
        | ']' :: _ => ([.fault .syntaxError], none, none)
        | rest => element rest
    | c :: rest => if first then element (c :: rest) else ([], some .syntaxError, none)

def readEntries : Nat → Nat → Bool → List Char →
    List (String × Json) × Option JsonFault × Option (List Char)
  | 0, _, _, _ => ([], some .syntaxError, none)
  | fuel + 1, depth, first, cs =>
    let entry (cs : List Char) :=
      match readString [] cs with
      | .error f => ([], some f, none)
      | .ok (key, rest) =>
        match skipBlank rest with
        | ':' :: rest =>
          match readValue fuel depth rest with
          | (value, none) => ([(key, value)], none, none)
          | (value, some rest) =>
            let (entries, fault, rest) := readEntries fuel depth false rest
            ((key, value) :: entries, fault, rest)
        | [] => ([(key, .fault .endOfText)], none, none)
        | _ :: _ => ([(key, .fault .syntaxError)], none, none)
    match skipBlank cs with
    | [] => ([], some .endOfText, none)
    | '}' :: rest => ([], none, some rest)
    | '"' :: rest => if first then entry rest else ([], some .syntaxError, none)
    | ',' :: rest =>
      if first then ([], some .syntaxError, none)
      else match skipBlank rest with
        | [] => ([], some .endOfText, none)
        | '"' :: rest => entry rest
        | _ :: _ => ([], some .syntaxError, none)
    | _ :: _ => ([], some .syntaxError, none)

end

/-- The tree of a text, and whether anything but blanks follows the value. -/
def ofText (text : String) : Json × Bool :=
  let cs := text.toList
  match lib.readValue (2 * cs.length + 2) Json.maxDepth cs with
  | (value, some rest) => (value, !(skipBlank rest).isEmpty)
  | (value, none) => (value, false)

end JsonNumbers

def JsonText.readValue : Nat → Nat → List Char → Json × Option (List Char) :=
  JsonNumbers.standard.readValue

end RuleMachine
