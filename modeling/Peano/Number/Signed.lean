import Peano.Number.Limbs
namespace Peano

structure Signed where
  negative : Bool
  limbs : Limbs
  deriving DecidableEq, Repr

namespace Signed

variable (a : Signed)

def zero : Signed := ⟨false, []⟩

def value : Int := if a.negative then -(a.limbs.value : Int) else a.limbs.value

def ofInt64 (v : Int64) : Signed :=
  if v < 0 then ⟨true, Limbs.ofUInt64 ((-(v + 1)).toUInt64 + 1)⟩
  else ⟨false, Limbs.ofUInt64 v.toUInt64⟩

def ofLimbs (a : Limbs) : Signed := ⟨false, a.trim⟩

def isZero : Bool := a.limbs.isZero

def abs : Limbs := a.limbs.trim

def negated : Signed := if a.isZero then zero else ⟨!a.negative, a.limbs.trim⟩

def cmp (a b : Signed) : Ordering :=
  match a.isZero, b.isZero with
  | true, true => .eq
  | true, false => if b.negative then .gt else .lt
  | false, true => if a.negative then .lt else .gt
  | false, false =>
    match a.negative, b.negative with
    | true, false => .lt
    | false, true => .gt
    | false, false => a.limbs.cmp b.limbs
    | true, true => (a.limbs.cmp b.limbs).swap

def equal (a b : Signed) : Bool := a.cmp b == .eq

def signed (negative : Bool) (limbs : Limbs) : Signed :=
  if limbs.isZero then zero else ⟨negative, limbs⟩

/-- The difference of two numbers, and no limbs if the first is the smaller one. -/
def difference (a b : Limbs) : Limbs := (a.sub b).toOption.getD []

def add (a b : Signed) : Signed :=
  if a.negative = b.negative then signed a.negative (a.limbs.add b.limbs)
  else
    match a.limbs.cmp b.limbs with
    | .eq => zero
    | .gt => ⟨a.negative, difference a.limbs b.limbs⟩
    | .lt => ⟨b.negative, difference b.limbs a.limbs⟩

def sub (a b : Signed) : Signed := add a b.negated

def mul (a b : Signed) : Signed := signed (a.negative != b.negative) (a.limbs.mul b.limbs)

def decimal : String :=
  if a.negative && !a.isZero then "-" ++ a.limbs.decimal else a.limbs.decimal

/-- Reads an integer with an optional minus sign. -/
def ofDecimal (text : String) : Except Limbs.Fault Signed :=
  match text.toList with
  | '-' :: digits => (Limbs.ofDecimal (String.ofList digits)).map fun a => (ofLimbs a).negated
  | _ => (Limbs.ofDecimal text).map ofLimbs

end Signed
end Peano
