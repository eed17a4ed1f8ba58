import Peano.Text.Quoted
namespace Peano.Json

inductive Fault where
  | character (b : UInt8) (context : String)
  | ended
  | tooDeep
  deriving DecidableEq, Repr

def quoteByte (b : UInt8) : String :=
  if b == 39 then "'\\''" else if b == 34 then "'\"'" else "'" ++ Text.escapeChar (Char.ofNat b.toNat) ++ "'"

def Fault.message : Fault → String
  | character b context => "invalid character " ++ quoteByte b ++ " " ++ context
  | ended => "unexpected end of JSON input"
  | tooDeep => "exceeded max depth"

/-- What surrounds the place where the reader is. -/
inductive Container where
  | array
  | objectKey
  | objectValue
  deriving DecidableEq, Repr

/-- What the reader is in the middle of. -/
inductive Expectation where
  | value
  | valueOrEnd
  | key
  | keyOrEnd
  | afterValue
  | string
  | escape
  | hex (left : Nat)
  /-- The word, and the letters of it that are still to come. -/
  | word (name : String) (left : List Char)
  | sign
  | zero
  | digits
  | point
  | fraction
  | exponent
  | exponentSign
  | exponentDigits
  deriving DecidableEq, Repr

structure Reader where
  inside : List Container := []
  expecting : Expectation := .value
  deriving DecidableEq, Repr

namespace Reader

def isSpace (b : UInt8) : Bool := b == 32 || b == 9 || b == 10 || b == 13

def isDigit (b : UInt8) : Bool := 48 ≤ b && b ≤ 57

def isHex (b : UInt8) : Bool := isDigit b || (97 ≤ b && b ≤ 102) || (65 ≤ b && b ≤ 70)

def be (r : Reader) (e : Expectation) : Except Fault Reader := .ok { r with expecting := e }

def enter (r : Reader) (c : Container) (e : Expectation) : Except Fault Reader :=
  if 10000 ≤ r.inside.length then .error .tooDeep else .ok ⟨c :: r.inside, e⟩

def leave (r : Reader) : Except Fault Reader := .ok ⟨r.inside.drop 1, .afterValue⟩

def afterValue (r : Reader) (b : UInt8) : Except Fault Reader :=
  if isSpace b then r.be .afterValue
  else
    match r.inside, b with
    | [], _ => .error (.character b "after top-level value")
    | .objectKey :: outer, 58 => .ok ⟨.objectValue :: outer, .value⟩
    | .objectKey :: _, _ => .error (.character b "after object key")
    | .objectValue :: outer, 44 => .ok ⟨.objectKey :: outer, .key⟩
    | .objectValue :: _, 125 => r.leave
    | .objectValue :: _, _ => .error (.character b "after object key:value pair")
    | .array :: _, 44 => r.be .value
    | .array :: _, 93 => r.leave
    | .array :: _, _ => .error (.character b "after array element")

def beginValue (r : Reader) (b : UInt8) : Except Fault Reader :=
  match b with
  | 123 => r.enter .objectKey .keyOrEnd
  | 91 => r.enter .array .valueOrEnd
  | 34 => r.be .string
  | 45 => r.be .sign
  | 48 => r.be .zero
  | 116 => r.be (.word "true" ['r', 'u', 'e'])
  | 102 => r.be (.word "false" ['a', 'l', 's', 'e'])
  | 110 => r.be (.word "null" ['u', 'l', 'l'])
  | _ => if isDigit b then r.be .digits else .error (.character b "looking for beginning of value")

def beginKey (r : Reader) (b : UInt8) : Except Fault Reader :=
  if b == 34 then r.be .string else .error (.character b "looking for beginning of object key string")

def afterWhole (r : Reader) (b : UInt8) : Except Fault Reader :=
  if b == 46 then r.be .point else if b == 101 || b == 69 then r.be .exponent else r.afterValue b

def step (r : Reader) (b : UInt8) : Except Fault Reader :=
  match r.expecting with
  | .value => if isSpace b then .ok r else r.beginValue b
  | .valueOrEnd => if isSpace b then .ok r else if b == 93 then r.leave else r.beginValue b
  | .key => if isSpace b then .ok r else r.beginKey b
  | .keyOrEnd => if isSpace b then .ok r else if b == 125 then r.leave else r.beginKey b
  | .afterValue => r.afterValue b
  | .string =>
    if b == 34 then r.be .afterValue else if b == 92 then r.be .escape
    else if b < 32 then .error (.character b "in string literal") else .ok r
  | .escape =>
    if b == 117 then r.be (.hex 4)
    else if [98, 102, 110, 114, 116, 92, 47, 34].contains b then r.be .string
    else .error (.character b "in string escape code")
  | .hex left =>
    if isHex b then r.be (if left ≤ 1 then .string else .hex (left - 1))
    else .error (.character b "in \\u hexadecimal character escape")
  | .word _ [] => r.afterValue b
  | .word name (c :: left) =>
    if b.toNat == c.toNat then r.be (if left.isEmpty then .afterValue else .word name left)
    else .error (.character b ("in literal " ++ name ++ " (expecting " ++ quoteByte c.toNat.toUInt8 ++ ")"))
  | .sign =>
    if b == 48 then r.be .zero else if isDigit b then r.be .digits
    else .error (.character b "in numeric literal")
  | .zero => r.afterWhole b
  | .digits => if isDigit b then .ok r else r.afterWhole b
  | .point =>
    if isDigit b then r.be .fraction else .error (.character b "after decimal point in numeric literal")
  | .fraction =>
    if isDigit b then .ok r else if b == 101 || b == 69 then r.be .exponent else r.afterValue b
  | .exponent =>
    if b == 43 || b == 45 then r.be .exponentSign else if isDigit b then r.be .exponentDigits
    else .error (.character b "in exponent of numeric literal")
  | .exponentSign =>
    if isDigit b then r.be .exponentDigits else .error (.character b "in exponent of numeric literal")
  | .exponentDigits => if isDigit b then .ok r else r.afterValue b

def isDone (r : Reader) : Bool := r.inside.isEmpty && r.expecting = .afterValue

/-- The first fault of a text, if there is one. The end of a text reads like a space. -/
def fault? (r : Reader) : Bytes → Option Fault
  | [] =>
    match r.step 32 with
    | .ok r => if r.isDone then none else some .ended
    | .error e => some e
  | b :: rest =>
    match r.step b with
    | .ok r => r.fault? rest
    | .error e => some e

end Reader

def fault? (bs : Bytes) : Option Fault := ({} : Reader).fault? bs

end Peano.Json
