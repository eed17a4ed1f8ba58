import Peano.Text.Quoted
namespace Peano

abbrev Limbs := List UInt32

namespace Limbs

def base : Nat := 0x100000000

def value : Limbs → Nat
  | [] => 0
  | x :: rest => x.toNat + base * value rest

def trim : Limbs → Limbs
  | [] => []
  | x :: rest =>
    match trim rest with
    | [] => if x = 0 then [] else [x]
    | high => x :: high

def isZero (a : Limbs) : Bool := (trim a).isEmpty

def ofUInt64 (v : UInt64) : Limbs := trim [v.toUInt32, (v >>> 32).toUInt32]

/-- The low limb and the carry of a sum of words. -/
def split (sum : UInt64) : UInt32 × UInt64 := (sum.toUInt32, sum >>> 32)

def carryInto : Limbs → UInt64 → Limbs
  | [], carry => if carry = 0 then [] else [carry.toUInt32]
  | x :: rest, carry =>
    if carry = 0 then x :: rest
    else
      let (low, high) := split (x.toUInt64 + carry)
      low :: carryInto rest high

def addCarry : Limbs → Limbs → UInt64 → Limbs
  | [], b, carry => carryInto b carry
  | a, [], carry => carryInto a carry
  | x :: a, y :: b, carry =>
    let (low, high) := split (x.toUInt64 + y.toUInt64 + carry)
    low :: addCarry a b high

def add (a b : Limbs) : Limbs := trim (addCarry a b 0)

def addSmall (a : Limbs) (x : UInt32) : Limbs := add a [x]

/-- Compares limbs of the same length; the last difference decides. -/
def compareLimbs : Limbs → Limbs → Ordering
  | x :: a, y :: b => (compareLimbs a b).then (compare x y)
  | _, _ => .eq

def cmp (a b : Limbs) : Ordering :=
  let a := trim a
  let b := trim b
  (compare a.length b.length).then (compareLimbs a b)

def subBorrow : Limbs → Limbs → UInt64 → Limbs
  | [], _, _ => []
  | x :: a, b, borrow =>
    let y := (b.headD 0).toUInt64
    let low := (x.toUInt64 - y - borrow).toUInt32
    low :: subBorrow a b.tail (if x.toUInt64 < y + borrow then 1 else 0)

inductive Fault where
  | underflow
  | notANumeral (text : String)
  deriving DecidableEq, Repr

def Fault.message : Fault → String
  | .underflow => "natural number underflow"
  | .notANumeral text =>
    if text == "" then "invalid numeral" else "invalid numeral: " ++ Text.quote text

def sub (a b : Limbs) : Except Fault Limbs :=
  if cmp a b = .lt then .error .underflow else .ok (trim (subBorrow (trim a) (trim b) 0))

def mulAdd (x : UInt32) : Limbs → Limbs → UInt64 → Limbs
  | [], acc, carry => carryInto acc carry
  | y :: b, acc, carry =>
    let (low, high) := split ((acc.headD 0).toUInt64 + x.toUInt64 * y.toUInt64 + carry)
    low :: mulAdd x b acc.tail high

/-- Adds the product of two numbers to the accumulated limbs, row by row. -/
def mulInto : Limbs → Limbs → Limbs → Limbs
  | [], _, acc => acc
  | x :: a, b, acc =>
    match mulAdd x b acc 0 with
    | [] => 0 :: mulInto a b []
    | low :: acc => low :: mulInto a b acc

def mul (a b : Limbs) : Limbs := trim (mulInto (trim a) (trim b) [])

def divMod (d : UInt32) : Limbs → Limbs × UInt32
  | [] => ([], 0)
  | x :: a =>
    let (quotient, remainder) := divMod d a
    let current := (remainder.toUInt64 <<< 32) ||| x.toUInt64
    ((current / d.toUInt64).toUInt32 :: quotient, (current % d.toUInt64).toUInt32)

def toUInt64? (a : Limbs) : Option UInt64 :=
  match trim a with
  | [] => some 0
  | [x] => some x.toUInt64
  | [x, y] => some (x.toUInt64 ||| (y.toUInt64 <<< 32))
  | _ => none

def bitLength (a : Limbs) : Nat :=
  match (trim a).getLast? with
  | none => 0
  | some top => ((trim a).length - 1) * 32 + (Nat.log2 top.toNat + 1)

/-- Nine decimal digits fit into a limb. -/
def chunk : UInt32 := 1000000000

/-- The chunks of nine digits, the least significant one first. Every division takes away more
than 29 bits, so fuel of twice the number of limbs is enough. -/
def chunks : Nat → Limbs → List UInt32
  | 0, _ => []
  | fuel + 1, a =>
    if isZero a then []
    else
      let (quotient, remainder) := divMod chunk a
      remainder :: chunks fuel (trim quotient)

def padChunk (x : UInt32) : String :=
  let digits := Nat.toDigits 10 x.toNat
  String.ofList (List.replicate (9 - digits.length) '0' ++ digits)

def decimal (a : Limbs) : String :=
  match (chunks (2 * a.length) (trim a)).reverse with
  | [] => "0"
  | top :: rest => toString top.toNat ++ String.join (rest.map padChunk)

def digitLimbs (acc : Limbs) (c : Char) : Limbs :=
  addSmall (mul acc [10]) (c.toNat - '0'.toNat).toUInt32

def ofDecimal (text : String) : Except Fault Limbs :=
  let digits := text.toList
  if digits.isEmpty || !digits.all Char.isDigit then .error (.notANumeral text)
  else .ok (digits.foldl digitLimbs [])

end Limbs
end Peano
