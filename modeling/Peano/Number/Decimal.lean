namespace Peano.Number

inductive NumeralFault where
  | malformed
  | outOfRange
  deriving DecidableEq, Repr

def NumeralFault.message : NumeralFault → String
  | malformed => "invalid syntax"
  | outOfRange => "value out of range"

def digitsNat (digits : List Char) : Nat := digits.foldl (fun n c => 10 * n + (c.toNat - 48)) 0

/-- Where the signed integers of 64 bits end. -/
def int64Bound : Nat := 0x8000000000000000

/-- Whether a text begins with a minus sign, and what follows its sign. -/
def signed (text : String) : Bool × List Char :=
  match text.toList with
  | '-' :: rest => (true, rest)
  | '+' :: rest => (false, rest)
  | cs => (false, cs)

def int64 (negative : Bool) (n : Nat) : Except NumeralFault Int :=
  if negative then if int64Bound < n then .error .outOfRange else .ok (-n)
  else if int64Bound ≤ n then .error .outOfRange else .ok n

def int64Of (text : String) : Except NumeralFault Int :=
  let (negative, digits) := signed text
  if digits.isEmpty ∨ ¬ digits.all Char.isDigit then .error .malformed else int64 negative (digitsNat digits)

/-- The floating-point number next to a numeral such as `-1.5e3`. -/
def floatOf (text : String) : Float :=
  let cs := text.toList
  let negative := cs.head? == some '-'
  let cs := if negative then cs.drop 1 else cs
  let whole := cs.takeWhile Char.isDigit
  let rest := cs.drop whole.length
  let fraction := if rest.head? == some '.' then (rest.drop 1).takeWhile Char.isDigit else []
  let rest := if rest.head? == some '.' then rest.drop (fraction.length + 1) else rest
  let exponent := (int64Of (String.ofList (rest.drop 1))).toOption.getD 0
  let power := exponent - fraction.length
  let x := Float.ofScientific (digitsNat (whole ++ fraction)) (power < 0) power.natAbs
  if negative then -x else x

end Peano.Number
