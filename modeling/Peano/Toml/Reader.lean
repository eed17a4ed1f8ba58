import Peano.Number.Decimal
import Peano.Text.Bytes
import Peano.Text.Ranges
import Peano.Toml.Basic
namespace Peano.Toml
open Text (isHexDigit natIn)

variable (c : Char)

abbrev Chars := List Char

def isBlank : Bool := c == ' ' || c == '\t'

def isBreak : Bool := c == '\n' || c == '\r'

variable (cs : Chars)

def skipBlanks : Chars := cs.dropWhile isBlank

def after? (c : Char) (cs : Chars) : Option Chars := if cs.head? = some c then some (cs.drop 1) else none

def isBareChar : Bool := c.isAlphanum || c == '_' || c == '-'

def codeEscape? (count : Nat) (cs : Chars) : Option (Char × Chars) :=
  let digits := cs.take count
  let code := natIn 16 digits
  if digits.length = count ∧ digits.all isHexDigit ∧ code.isValidChar then
    some (Char.ofNat code, cs.drop count)
  else none

/-- The character of an escape after its backslash, and what follows. -/
def escape? : Chars → Option (Char × Chars)
  | 'b' :: rest => some ('\x08', rest)
  | 't' :: rest => some ('\t', rest)
  | 'n' :: rest => some ('\n', rest)
  | 'f' :: rest => some ('\x0c', rest)
  | 'r' :: rest => some ('\r', rest)
  | '"' :: rest => some ('"', rest)
  | '\\' :: rest => some ('\\', rest)
  | 'u' :: rest => codeEscape? 4 rest
  | 'U' :: rest => codeEscape? 8 rest
  | _ => none

/-- The rest of a string on one line, after its opening quote. -/
def lineString? : Nat → List Char → Chars → Option (String × Chars)
  | 0, _, _ => none
  | fuel + 1, acc, cs =>
    match cs with
    | '"' :: rest => some (String.ofList acc.reverse, rest)
    | '\\' :: rest => do
      let (c, rest) ← escape? rest
      lineString? fuel (c :: acc) rest
    | c :: rest => if isBreak c then none else lineString? fuel (c :: acc) rest
    | [] => none

def rawString? : Option (String × Chars) :=
  let inside := cs.takeWhile fun c => c != '\'' && !isBreak c
  match cs.drop inside.length with
  | '\'' :: rest => some (String.ofList inside, rest)
  | _ => none

def dropFirstBreak : Chars → Chars
  | '\n' :: rest => rest
  | '\r' :: '\n' :: rest => rest
  | cs => cs

/-- A string of several lines; a backslash at the end of a line joins it to the next word. Three quotes end
it, and up to two before them belong to it. -/
def blockString? (raw : Bool) (quote : Char) : Nat → List Char → Chars → Option (String × Chars)
  | 0, _, _ => none
  | fuel + 1, acc, cs =>
    match cs with
    | [] => none
    | c :: rest =>
      if c == quote then
        let count := (cs.takeWhile (· == quote)).length
        if count < 3 then blockString? raw quote fuel (List.replicate count quote ++ acc) (cs.drop count)
        else if 5 < count then none
        else some (String.ofList (List.replicate (count - 3) quote ++ acc).reverse, cs.drop count)
      else if c == '\\' && !raw then
        let blank := rest.takeWhile fun d => isBlank d || isBreak d
        if blank.contains '\n' then blockString? raw quote fuel acc (rest.drop blank.length)
        else do
          let (e, rest) ← escape? rest
          blockString? raw quote fuel (e :: acc) rest
      else blockString? raw quote fuel (c :: acc) rest

/-- A string on one line, or nothing where none begins. -/
def quoted? : Option (String × Chars) :=
  match cs with
  | '"' :: rest => lineString? (rest.length + 1) [] rest
  | '\'' :: rest => rawString? rest
  | _ => none

def name? : Option (String × Chars) :=
  match cs with
  | '"' :: _ | '\'' :: _ => quoted? cs
  | _ =>
    let bare := cs.takeWhile isBareChar
    if bare.isEmpty then none else some (String.ofList bare, cs.drop bare.length)

/-- A string on one line or on several. -/
def string? : Option (String × Chars) :=
  match cs with
  | '"' :: '"' :: '"' :: rest => blockString? false '"' (rest.length + 1) [] (dropFirstBreak rest)
  | '\'' :: '\'' :: '\'' :: rest => blockString? true '\'' (rest.length + 1) [] (dropFirstBreak rest)
  | _ => quoted? cs

/-- Names with dots between them. -/
def names? : Nat → Chars → Option (Key × Chars)
  | 0, _ => none
  | fuel + 1, cs => do
    let (first, rest) ← name? (skipBlanks cs)
    match skipBlanks rest with
    | '.' :: rest =>
      let (more, rest) ← names? fuel rest
      return (first :: more, rest)
    | rest => return ([first], rest)

/-- Whether every underscore stands between digits, and a digit at the end. -/
def underscoresOk : Bool :=
  let rec go (digit : Bool) : Chars → Bool
    | [] => digit
    | '_' :: rest => digit && go false rest
    | c :: rest => go (isHexDigit c) rest
  go false cs

def plainDigits : Chars := cs.filter (· != '_')

def hasLeadingZero : Chars → Bool
  | '0' :: _ :: _ => true
  | _ => false

def unsignedDigits : Chars :=
  match cs with
  | '+' :: rest | '-' :: rest => rest
  | _ => cs

/-- The number of digits in some base, as far as it fits into 64 bits. -/
def based? (base : Nat) (isDigit : Char → Bool) (digits : Chars) : Option Value :=
  let plain := plainDigits digits
  let n := natIn base plain
  if underscoresOk digits ∧ plain.all isDigit ∧ n < Number.int64Bound then some (.integer n) else none

def integer? : Option Value :=
  match cs with
  | '0' :: 'x' :: digits => based? 16 isHexDigit digits
  | '0' :: 'o' :: digits => based? 8 (fun c => '0' ≤ c && c ≤ '7') digits
  | '0' :: 'b' :: digits => based? 2 (fun c => c == '0' || c == '1') digits
  | _ =>
    if underscoresOk (unsignedDigits cs) ∧ ¬ hasLeadingZero (unsignedDigits cs) then
      (Number.int64Of (String.ofList (plainDigits cs))).toOption.map .integer
    else none

/-- The least number that is rounded to infinity. -/
def overflowBound : Nat := 0x3FFFFFFFFFFFFF <<< 970

/-- Whether digits with a decimal exponent are too large for a number of 64 bits. -/
def overflows (digits : Chars) (exponent : Int) : Bool :=
  let n := Number.digitsNat digits
  if n = 0 ∨ exponent + digits.length < 300 then false
  else if 400 < exponent then true
  else if exponent < 0 then overflowBound * Nat.pow 10 exponent.natAbs ≤ n
  else overflowBound ≤ n * Nat.pow 10 exponent.natAbs

def exponentOf : Int :=
  match plainDigits cs with
  | '-' :: digits => -(Number.digitsNat digits : Int)
  | digits => Number.digitsNat (unsignedDigits digits)

def isFloat : Bool :=
  let body := unsignedDigits cs
  if body == "inf".toList || body == "nan".toList then true
  else
    let digits (ds : Chars) : Bool := underscoresOk ds && (plainDigits ds).all Char.isDigit
    let mantissa := body.takeWhile fun c => c != 'e' && c != 'E'
    let exponent := body.drop mantissa.length
    let whole := mantissa.takeWhile (· != '.')
    let fraction := mantissa.drop whole.length
    let places := plainDigits (fraction.drop 1)
    digits whole && !hasLeadingZero whole && (fraction.isEmpty || digits (fraction.drop 1)) &&
      (exponent.isEmpty || digits (unsignedDigits (exponent.drop 1))) &&
      !(fraction.isEmpty && exponent.isEmpty) &&
      !overflows (plainDigits whole ++ places) (exponentOf (exponent.drop 1) - places.length)

def fixedNat? (count : Nat) (cs : Chars) : Option (Nat × Chars) :=
  let digits := cs.take count
  if digits.length = count ∧ digits.all Char.isDigit then some (Number.digitsNat digits, cs.drop count)
  else none

def daysIn (year month : Nat) : Nat :=
  if month = 2 then if year % 4 = 0 ∧ (year % 100 ≠ 0 ∨ year % 400 = 0) then 29 else 28
  else if month = 4 ∨ month = 6 ∨ month = 9 ∨ month = 11 then 30 else 31

def afterDate? : Option Chars := do
  let (year, rest) ← fixedNat? 4 cs
  let (month, rest) ← fixedNat? 2 (← after? '-' rest)
  let (day, rest) ← fixedNat? 2 (← after? '-' rest)
  if 1 ≤ month ∧ month ≤ 12 ∧ 1 ≤ day ∧ day ≤ daysIn year month then some rest else none

def afterTime? : Option Chars := do
  let (hour, rest) ← (fixedNat? 2 cs).or (fixedNat? 1 cs)
  let (minute, rest) ← fixedNat? 2 (← after? ':' rest)
  let (second, rest) ← fixedNat? 2 (← after? ':' rest)
  if 24 ≤ hour ∨ 60 ≤ minute ∨ 60 ≤ second then none
  match rest with
  | '.' :: rest =>
    let digits := rest.takeWhile Char.isDigit
    if digits.isEmpty then none else some (rest.drop digits.length)
  | _ => some rest

/-- The offset of a zone goes up to a full day and a full hour. -/
def isOffset : Bool :=
  let isOffset? : Option Bool := do
    let (hour, rest) ← fixedNat? 2 cs
    let (minute, rest) ← fixedNat? 2 (← after? ':' rest)
    return hour ≤ 24 && minute ≤ 60 && rest.isEmpty
  isOffset?.getD false

def isZone : Chars → Bool
  | [] => true
  | [c] => c == 'Z' || c == 'z'
  | c :: rest => (c == '+' || c == '-') && isOffset rest

/-- A time by itself does not start with a lone zero. -/
def isMoment : Bool :=
  (afterTime? cs == some [] && !(cs.take 2 == ['0', ':'])) ||
    match afterDate? cs with
    | some [] => true
    | some (c :: rest) => (c == 'T' || c == 't' || c == ' ') && (afterTime? rest).any isZone
    | none => false

def scalar? : Option Value :=
  match String.ofList cs with
  | "true" => some (.boolean true)
  | "false" => some (.boolean false)
  | _ => (integer? cs).or (if isFloat cs || isMoment cs then some .other else none)

def isWordChar : Bool := c.isAlphanum || c == '_' || c == '+' || c == '-' || c == '.' || c == ':'

/-- The characters of a number, a date or a truth value. A blank may stand between date and time. -/
def word : Chars × Chars :=
  let first := cs.takeWhile isWordChar
  let rest := cs.drop first.length
  match rest with
  | ' ' :: d :: more =>
    if d.isDigit && afterDate? first == some [] then
      let second := (d :: more).takeWhile isWordChar
      (first ++ ' ' :: second, (d :: more).drop second.length)
    else (first, rest)
  | _ => (first, rest)

def skipSpace : Nat → Chars → Chars
  | 0, cs => cs
  | fuel + 1, cs =>
    match cs with
    | '#' :: rest => skipSpace fuel (rest.dropWhile (· != '\n'))
    | c :: rest => if isBlank c || isBreak c then skipSpace fuel rest else cs
    | [] => []

mutual

def value? (isItem : Bool) (path : Key) (name : String) : Nat → Draft → Chars → Option (Value × Draft × Chars)
  | 0, _, _ => none
  | fuel + 1, d, cs =>
    match cs with
    | '"' :: _ | '\'' :: _ => (string? cs).map fun (s, rest) => (.text s, d, rest)
    | '[' :: rest => items? path name fuel (d.markArray (path ++ [name])) [] rest
    | '{' :: rest => do
      let here := path ++ [name]
      let d ← (if isItem then Draft.startItem else Draft.startTable) (d.pass here) here
      match skipBlanks rest with
      | '}' :: rest => some (.table [], d, rest)
      | rest => fields? here fuel d rest
    | _ =>
      let (text, rest) := word cs
      (scalar? text).map fun v => (v, d, rest)

/-- The items of an array after its opening bracket. -/
def items? (path : Key) (name : String) : Nat → Draft → List Value → Chars → Option (Value × Draft × Chars)
  | 0, _, _, _ => none
  | fuel + 1, d, acc, cs =>
    match skipSpace (cs.length + 1) cs with
    | ']' :: rest => some (.array acc.reverse, d, rest)
    | cs => do
      let (v, d, rest) ← value? true path name fuel d cs
      match skipSpace (rest.length + 1) rest with
      | ',' :: rest => items? path name fuel d (v :: acc) rest
      | ']' :: rest => some (.array (v :: acc).reverse, d, rest)
      | _ => none

/-- The entries of a table on one line, after its opening brace. -/
def fields? (here : Key) : Nat → Draft → Chars → Option (Value × Draft × Chars)
  | 0, _, _ => none
  | fuel + 1, d, cs => do
    let (d, rest) ← entry? here fuel d cs
    match skipBlanks rest with
    | ',' :: rest => fields? here fuel d rest
    | '}' :: rest => some (.table [], d, rest)
    | _ => none

def entry? (path : Key) : Nat → Draft → Chars → Option (Draft × Chars)
  | 0, _, _ => none
  | fuel + 1, d, cs => do
    let (key, rest) ← names? (cs.length + 1) cs
    let name ← key.getLast?
    let rest ← after? '=' rest
    let (d, here) ← d.passThrough path key.dropLast
    let full := here ++ [name]
    let (v, d, rest) ← value? false here name fuel (d.note full) (skipBlanks rest)
    let d ← d.set here name v
    match v with
    | .array _ => some (d, rest)
    | _ => some (d.unmarkArray full, rest)

end

def lineEnd? : Option Chars :=
  match skipBlanks cs with
  | [] => some []
  | '#' :: rest => some (rest.dropWhile (· != '\n'))
  | c :: rest => if isBreak c then some rest else none

/-- The heading of a table after its first bracket: whether it starts one of several, its key, and what
follows it. -/
def heading? : Option (Bool × Key × Chars) := do
  let (many, cs) := match cs with
    | '[' :: rest => (true, rest)
    | _ => (false, cs)
  let (key, rest) ← names? (cs.length + 1) cs
  let rest ← after? ']' rest
  return (many, key, ← if many then after? ']' rest else some rest)

/-- The rest of a document whose current table is at a path. -/
def lines? : Nat → Key → Draft → Chars → Option Draft
  | 0, _, _, _ => none
  | fuel + 1, path, d, cs =>
    match skipSpace (cs.length + 1) cs with
    | [] => some d
    | '[' :: rest => do
      let (many, key, rest) ← heading? rest
      let d ← if many then d.startItem key else d.startTable key
      let rest ← lineEnd? rest
      lines? fuel key (d.note key) rest
    | cs => do
      let (d, rest) ← entry? path (cs.length + 2) d cs
      let rest ← lineEnd? rest
      lines? fuel path d rest

/-- Characters that may stand nowhere, and a carriage return without a line feed. -/
def hasForbidden : Chars → Bool
  | [] => false
  | '\r' :: rest => rest.head? != some '\n' || hasForbidden rest
  | c :: rest =>
    ((c.toNat < 0x20 && c != '\t' && c != '\n') || c.toNat == 0x7F || c.toNat == 0xFFFD) || hasForbidden rest

/-- A byte order mark at the front does not count. -/
def dropByteOrderMark : Bytes → Bytes
  | 0xFF :: 0xFE :: rest => rest
  | 0xFE :: 0xFF :: rest => rest
  | 0xEF :: 0xBB :: 0xBF :: rest => rest
  | bs => bs

/-- The document that a text stands for, and its keys in order. -/
def read? (bs : Bytes) : Option Draft :=
  let cs := (Text.runes (dropByteOrderMark bs)).map Text.Rune.shown
  if hasForbidden cs then none else lines? (cs.length + 1) [] {} cs

end Peano.Toml
