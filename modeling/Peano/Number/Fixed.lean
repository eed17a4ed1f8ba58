namespace Peano.Number

/-- The natural number nearest to a quotient; of two equally near ones the even one. -/
def roundDiv (numerator denominator : Nat) : Nat :=
  let q := numerator / denominator
  let r := numerator % denominator
  if 2 * r < denominator then q
  else if denominator < 2 * r then q + 1
  else q + q % 2

/-- The weight of the implicit leading bit of a mantissa. -/
def hiddenBit : Nat := 0x10000000000000

/-- A finite number without its sign: `mantissa * 2 ^ exponent / 2 ^ 1074`. -/
structure Magnitude where
  mantissa : Nat
  exponent : Nat

def Magnitude.ofFloat (x : Float) : Magnitude :=
  let bits := x.toBits.toNat
  let fraction := bits % hiddenBit
  match bits / hiddenBit % 2048 with
  | 0 => ⟨fraction, 0⟩
  | e + 1 => ⟨hiddenBit + fraction, e⟩

/-- How many units of `10 ^ -places` a number has, rounded. -/
def Magnitude.units (m : Magnitude) (places : Nat) : Nat :=
  roundDiv (m.mantissa * Nat.pow 2 m.exponent * Nat.pow 10 places) (Nat.pow 2 1074)

def pointed (places units : Nat) : String :=
  let whole := toString (units / Nat.pow 10 places)
  if places = 0 then whole
  else
    let fraction := toString (units % Nat.pow 10 places)
    whole ++ "." ++ String.ofList (List.replicate (places - fraction.length) '0') ++ fraction

/-- The decimal text of a finite number, rounded to this many places. -/
def fixed (places : Nat) (x : Float) : String :=
  (if x.toBits < 0x8000000000000000 then "" else "-") ++ pointed places ((Magnitude.ofFloat x).units places)

end Peano.Number
