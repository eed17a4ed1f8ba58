import Peano.Json.Basic
import Peano.Text.Ranges
namespace Peano.Json

variable (cs : List Char)

/-- How deep arrays and objects may nest. -/
def maxDepth : Nat := 10000

def isBlank (c : Char) : Bool := c == ' ' || c == '\t' || c == '\n' || c == '\r'

def skipBlank : List Char := cs.dropWhile isBlank

/-- The number of four hexadecimal digits at the front, and what follows. -/
def hex4? : Option (Nat × List Char) :=
  let digits := cs.take 4
  if digits.length = 4 ∧ digits.all Text.isHexDigit then some (Text.natIn 16 digits, cs.drop 4) else none

def isHighSurrogate (n : Nat) : Bool := 0xD800 ≤ n && n ≤ 0xDBFF

def isLowSurrogate (n : Nat) : Bool := 0xDC00 ≤ n && n ≤ 0xDFFF

def unitChar (n : Nat) : Char :=
  if isHighSurrogate n || isLowSurrogate n then '�' else Char.ofNat n

def simpleEscape? : Char → Option Char
  | '"' => some '"'
  | '\\' => some '\\'
  | '/' => some '/'
  | 'b' => some '\x08'
  | 'f' => some '\x0c'
  | 'n' => some '\n'
  | 'r' => some '\r'
  | 't' => some '\t'
  | _ => none

/-- The low surrogate that an escape at the front stands for, and the text after it. -/
def lowEscape? : List Char → Option (Nat × List Char)
  | '\\' :: 'u' :: rest => (hex4? rest).filter fun (n, _) => isLowSurrogate n
  | _ => none

/-- The rest of a string after its opening quote; `acc` holds what was read, latest first. -/
def readString : Nat → List Char → List Char → Option (String × List Char)
  | 0, _, _ => none
  | fuel + 1, acc, cs =>
    match cs with
    | '"' :: rest => some (String.ofList acc.reverse, rest)
    | '\\' :: 'u' :: rest => do
      let (n, rest) ← hex4? rest
      match (if isHighSurrogate n then lowEscape? rest else none) with
      | some (low, after) =>
        readString fuel (Char.ofNat (0x10000 + (n - 0xD800) * 0x400 + (low - 0xDC00)) :: acc) after
      | none => readString fuel (unitChar n :: acc) rest
    | '\\' :: c :: rest => do readString fuel ((← simpleEscape? c) :: acc) rest
    | c :: rest => if c.toNat < 0x20 ∨ c == '\\' then none else readString fuel (c :: acc) rest
    | [] => none

/-- One or more digits at the front, after what was read of the number, and what follows. -/
def digits? (before : List Char) (cs : List Char) : Option (List Char × List Char) :=
  let (digits, after) := cs.span Char.isDigit
  if digits.isEmpty then none else some (before ++ digits, after)

def fractionOf : Option (List Char × List Char) :=
  match cs with
  | '.' :: rest => digits? ['.'] rest
  | _ => some ([], cs)

def exponentOf : Option (List Char × List Char) :=
  match cs with
  | c :: rest =>
    if c == 'e' || c == 'E' then
      match rest with
      | '+' :: rest => digits? [c, '+'] rest
      | '-' :: rest => digits? [c, '-'] rest
      | _ => digits? [c] rest
    else some ([], cs)
  | [] => some ([], [])

def integerOf : Option (List Char × List Char) :=
  match cs with
  | '0' :: rest => some (['0'], rest)
  | _ => digits? [] cs

def readNumber : Option (Json × List Char) := do
  let (sign, rest) := match cs with
    | '-' :: r => (['-'], r)
    | _ => ([], cs)
  let (whole, rest) ← integerOf rest
  let (fraction, rest) ← fractionOf rest
  let (exponent, rest) ← exponentOf rest
  return (.num (String.ofList (sign ++ whole ++ fraction ++ exponent)), rest)

def expect (word : String) (value : Json) (cs : List Char) : Option (Json × List Char) :=
  if word.toList.isPrefixOf cs then some (value, cs.drop word.length) else none

mutual

def readValue (depth : Nat) : Nat → List Char → Option (Json × List Char)
  | 0, _ => none
  | fuel + 1, cs =>
    match skipBlank cs with
    | '{' :: rest =>
      if depth = 0 then none else
      match skipBlank rest with
      | '}' :: after => some (.obj [], after)
      | rest => readMembers (depth - 1) fuel [] rest
    | '[' :: rest =>
      if depth = 0 then none else
      match skipBlank rest with
      | ']' :: after => some (.arr [], after)
      | rest => readItems (depth - 1) fuel [] rest
    | '"' :: rest => (readString (rest.length + 1) [] rest).map fun (s, after) => (.str s, after)
    | 't' :: rest => expect "rue" (.bool true) rest
    | 'f' :: rest => expect "alse" (.bool false) rest
    | 'n' :: rest => expect "ull" .null rest
    | rest => readNumber rest

def readItems (depth : Nat) : Nat → List Json → List Char → Option (Json × List Char)
  | 0, _, _ => none
  | fuel + 1, acc, cs => do
    let (item, rest) ← readValue depth fuel cs
    match skipBlank rest with
    | ',' :: rest => readItems depth fuel (item :: acc) rest
    | ']' :: rest => some (.arr (item :: acc).reverse, rest)
    | _ => none

def readMembers (depth : Nat) : Nat → List (String × Json) → List Char → Option (Json × List Char)
  | 0, _, _ => none
  | fuel + 1, acc, cs =>
    match skipBlank cs with
    | '"' :: rest => do
      let (key, rest) ← readString (rest.length + 1) [] rest
      let (value, rest) ← match skipBlank rest with
        | ':' :: rest => readValue depth fuel rest
        | _ => none
      match skipBlank rest with
      | ',' :: rest => readMembers depth fuel ((key, value) :: acc) rest
      | '}' :: rest => some (.obj ((key, value) :: acc).reverse, rest)
      | _ => none
    | _ => none

end

def read? (bs : Bytes) : Option Json := do
  let cs := (Text.runes bs).map Text.Rune.shown
  let (value, rest) ← readValue maxDepth (2 * cs.length + 2) cs
  if (skipBlank rest).isEmpty then some value else none

end Peano.Json
