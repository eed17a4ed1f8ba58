import Peano.Number.Decimal
import Peano.Number.Fixed
import Peano.Text.Quoted
namespace Peano.Duration
open Number (digitsNat int64Bound)

inductive Fault where
  | malformed
  | noUnit
  | unknownUnit (unit : Bytes)
  deriving DecidableEq, Repr

def quotePlain (bs : Bytes) : String :=
  let piece (b : UInt8) : String :=
    if b < 0x20 || 0x80 ≤ b then "\\x" ++ Text.hexDigits 2 b.toNat
    else if b == 34 || b == 92 then "\\" ++ String.singleton (Char.ofNat b.toNat)
    else String.singleton (Char.ofNat b.toNat)
  "\"" ++ String.join (bs.map piece) ++ "\""

def Fault.message (text : String) : Fault → String
  | malformed => "time: invalid duration " ++ quotePlain (Bytes.ofString text)
  | noUnit => "time: missing unit in duration " ++ quotePlain (Bytes.ofString text)
  | unknownUnit unit =>
    "time: unknown unit " ++ quotePlain unit ++ " in duration " ++ quotePlain (Bytes.ofString text)

def unit? : String → Option Nat
  | "ns" => some 1
  | "us" | "µs" | "μs" => some 1000
  | "ms" => some 1000000
  | "s" => some 1000000000
  | "m" => some 60000000000
  | "h" => some 3600000000000
  | _ => none

/-- The digits after the point as a numerator and a denominator; digits that would make the numerator too
large are left out. -/
def fraction (digits : List Char) : Nat × Nat :=
  let step (state : Nat × Nat × Bool) (c : Char) : Nat × Nat × Bool :=
    let (n, scale, full) := state
    let next := 10 * n + (c.toNat - 48)
    if full || (int64Bound - 1) / 10 < n || int64Bound < next then (n, scale, true) else (next, 10 * scale, false)
  let (n, scale, _) := digits.foldl step (0, 1, false)
  (n, scale)

/-- The sum of numbers with units. -/
def amounts : Nat → Nat → List Char → Except Fault Nat
  | 0, total, _ => .ok total
  | _ + 1, total, [] => .ok total
  | fuel + 1, total, cs => do
    let whole := cs.takeWhile Char.isDigit
    let rest := cs.drop whole.length
    let (part, rest) := match rest with
      | '.' :: rest => (rest.takeWhile Char.isDigit, rest.dropWhile Char.isDigit)
      | _ => ([], rest)
    let name := rest.takeWhile fun c => !c.isDigit && c != '.'
    let (n, scale) := fraction part
    if (whole.isEmpty && part.isEmpty) || int64Bound < digitsNat whole then throw .malformed
    if name.isEmpty then throw .noUnit
    let some unit := unit? (String.ofList name) | throw (.unknownUnit (Bytes.ofString (String.ofList name)))
    let small := (Float.ofNat n * (Float.ofNat unit / Float.ofNat scale)).toUInt64.toNat
    let amount := digitsNat whole * unit + small
    if int64Bound / unit < digitsNat whole || int64Bound < amount || int64Bound < total + amount then throw .malformed
    amounts fuel (total + amount) (rest.drop name.length)

def ofText (text : String) : Except Fault Int := do
  let (negative, cs) := Number.signed text
  if cs == ['0'] then return 0
  if cs.isEmpty then throw .malformed
  (Number.int64 negative (← amounts cs.length 0 cs)).mapError fun _ => .malformed

/-- A number with `places` digits after the point, as few as it takes. -/
def decimal (n places : Nat) : String :=
  let digits := Nat.toDigits 10 (n % Nat.pow 10 places)
  let padded := List.replicate (places - digits.length) '0' ++ digits
  let kept := (padded.reverse.dropWhile (· == '0')).reverse
  let kept := if places = 0 then [] else kept
  toString (n / Nat.pow 10 places) ++ if kept.isEmpty then "" else "." ++ String.ofList kept

def magnitude (n : Nat) : String :=
  if n = 0 then "0s"
  else if n < 1000 then toString n ++ "ns"
  else if n < 1000000 then decimal n 3 ++ "µs"
  else if n < 1000000000 then decimal n 6 ++ "ms"
  else
    let minutes := n / 60000000000
    let seconds := decimal (n % 60000000000) 9 ++ "s"
    if minutes = 0 then seconds
    else
      let below := toString (minutes % 60) ++ "m" ++ seconds
      if minutes < 60 then below else toString (minutes / 60) ++ "h" ++ below

def text (d : Int) : String := (if d < 0 then "-" else "") ++ magnitude d.natAbs

def brief (d : Nat) : String :=
  if d < 1000000 then "<1ms"
  else if d < 1000000000 then toString (d / 1000000) ++ "ms"
  else Number.fixed 1 (Float.ofNat d / 1000000000.0) ++ "s"

end Peano.Duration
