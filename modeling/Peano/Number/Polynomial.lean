namespace Peano

/-- The variables stand in order of their names, each once. -/
structure Monomial where
  coefficient : Int
  powers : List (String × UInt64)
  deriving DecidableEq, Repr

namespace Monomial

def signature (m : Monomial) : String :=
  String.intercalate "*" (m.powers.map fun (name, exponent) => s!"{name}^{exponent}")

/-- Multiplies by a power of one variable; exponents are words. -/
def insertPower (name : String) (exponent : UInt64) : List (String × UInt64) → List (String × UInt64)
  | [] => [(name, exponent)]
  | (other, e) :: rest =>
    if name = other then (other, e + exponent) :: rest
    else if name < other then (name, exponent) :: (other, e) :: rest
    else (other, e) :: insertPower name exponent rest

def mulPowers (a b : List (String × UInt64)) : List (String × UInt64) :=
  b.foldl (fun acc (name, exponent) => insertPower name exponent acc) a

def mul (a b : Monomial) : Monomial :=
  ⟨a.coefficient * b.coefficient, mulPowers a.powers b.powers⟩

def neg (m : Monomial) : Monomial := { m with coefficient := -m.coefficient }

def text (m : Monomial) : String :=
  if m.signature == "" then toString m.coefficient else s!"{m.coefficient}*{m.signature}"

end Monomial

abbrev Polynomial := List Monomial

namespace Polynomial

variable (p : Polynomial)

/-- Adds a monomial to the first one with its signature, or at the end. -/
def collect (key : String) (m : Monomial) : List (String × Monomial) → List (String × Monomial)
  | [] => [(key, m)]
  | (k, n) :: rest =>
    if k == key then (k, { n with coefficient := n.coefficient + m.coefficient }) :: rest
    else (k, n) :: collect key m rest

def simplify : Polynomial :=
  let merged := p.foldl (fun acc m => collect m.signature m acc) []
  (merged.map (·.2)).filter (·.coefficient != 0)

def const (n : Int) : Polynomial := simplify [⟨n, []⟩]

def ofName (name : String) : Polynomial := [⟨1, [(name, 1)]⟩]

def one : Polynomial := [⟨1, []⟩]

def add (p q : Polynomial) : Polynomial := simplify (p ++ q)

def neg : Polynomial := p.map Monomial.neg

def sub (p q : Polynomial) : Polynomial := add p (neg q)

def mul (p q : Polynomial) : Polynomial := simplify (p.flatMap fun m => q.map m.mul)

/-- Whether the simplified forms have the same monomials. -/
def equal (p q : Polynomial) : Bool :=
  let p := simplify p
  let q := simplify q
  p.length == q.length && p.all (q.contains ·)

def isZero : Bool := (simplify p).isEmpty

def text : String :=
  match simplify p with
  | [] => "0"
  | terms =>
    let sorted := terms.mergeSort fun a b => a.signature ≤ b.signature
    String.intercalate " + " (sorted.map Monomial.text)

end Polynomial
end Peano
