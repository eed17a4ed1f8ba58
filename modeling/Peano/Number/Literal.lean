import Peano.Number.Decimal
namespace Peano.Number

def digitIn? (base : Nat) (c : Char) : Option Nat :=
  let d := if c.isDigit then c.toNat - 48
    else if 'a' ≤ c.toLower && c.toLower ≤ 'z' then c.toLower.toNat - 87 else base
  if d < base then some d else none

/-- The base of a numeral, and its digits. -/
def baseOf (cs : List Char) : Nat × List Char :=
  match cs with
  | '0' :: b :: d :: rest =>
    match b.toLower with
    | 'b' => (2, d :: rest)
    | 'o' => (8, d :: rest)
    | 'x' => (16, d :: rest)
    | _ => (8, b :: d :: rest)
  | '0' :: rest => (8, rest)
  | _ => (10, cs)

/-- Whether every underscore stands between digits; a mark of the base counts as one. -/
def underscoresOk (cs : List Char) : Bool :=
  let isMark (b : Char) := b.toLower == 'b' || b.toLower == 'o' || b.toLower == 'x'
  let rec go (afterDigit : Bool) (afterScore : Bool) : List Char → Bool
    | [] => !afterScore
    | '_' :: rest => afterDigit && go false true rest
    | c :: rest => if c.isAlphanum then go true false rest else !afterScore && go false false rest
  match cs with
  | '0' :: b :: rest => if isMark b then go true false rest else go false false cs
  | _ => go false false cs

/-- The value of digits, as soon as it is known to be too large or no value at all. -/
def digitsOf? (base : Nat) : Nat → List Char → Except NumeralFault Nat
  | n, [] => .ok n
  | n, '_' :: rest => digitsOf? base n rest
  | n, c :: rest =>
    match digitIn? base c with
    | none => .error .malformed
    | some d => if 2 * int64Bound ≤ base * n + d then .error .outOfRange else digitsOf? base (base * n + d) rest

/-- The integer of 64 bits that a text in any base stands for. -/
def int64OfLiteral (text : String) : Except NumeralFault Int := do
  let (negative, cs) := signed text
  let (base, digits) := baseOf cs
  if cs.isEmpty then throw .malformed
  let n ← digitsOf? base 0 digits
  if cs.contains '_' && !underscoresOk cs then throw .malformed
  int64 negative n

def boolOf? : String → Option Bool
  | "1" | "t" | "T" | "true" | "TRUE" | "True" => some true
  | "0" | "f" | "F" | "false" | "FALSE" | "False" => some false
  | _ => none

end Peano.Number
