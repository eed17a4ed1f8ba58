import Peano.Realizer.Value
import Peano.Scope
namespace Peano

/-- An alias is another name of an axiom and is not listed. -/
structure Axiom where
  name : String
  signature : String
  statement : Formula
  realizer : Primitive
  isAlias : Bool

namespace Axiom
open Formula

def forAll (x : String) (t : Formula) : Formula := .arrow x .nat t

def symmetry : Formula :=
  forAll "x" (forAll "y" (.arrow "eqXY" (.eq (.var "x") (.var "y")) (.eq (.var "y") (.var "x"))))

def list : List Axiom :=
  let x := var "x"
  let y := var "y"
  let z := var "z"
  [⟨"eqRefl", "(x: N) => x == x", forAll "x" (.eq x x), .equality 1, false⟩,
    ⟨"eqSym", "(x: N) => (y: N) => (eqXY : x == y) => y == x", symmetry, .argument 3 2, false⟩,
    ⟨"eqSymm", "(x: N) => (y: N) => (eqXY : x == y) => y == x", symmetry, .argument 3 2, true⟩,
    ⟨"eqTrans", "(x: N) => (y: N) => (z: N) => (eqXY : x == y) => (eqYZ : y == z) => x == z",
      forAll "x" (forAll "y" (forAll "z"
        (.arrow "eqXY" (.eq x y) (.arrow "eqYZ" (.eq y z) (.eq x z))))), .argument 5 3, false⟩,
    ⟨"succInj", "(x: N) => (y: N) => (eqSuccXY : succ(x) == succ(y)) => x == y",
      forAll "x" (forAll "y" (.arrow "eqSuccXY" (.eq (.succ x) (.succ y)) (.eq x y))),
      .argument 3 2, false⟩,
    ⟨"succNotZero", "(x: N) => (p: succ(x) == 0) => never",
      forAll "x" (.arrow "p" (.eq (.succ x) .zero) .never), .succNotZero, false⟩,
    ⟨"addZero", "(x: N) => x + 0 == x", forAll "x" (.eq (.add x .zero) x), .equality 1, false⟩,
    ⟨"addSucc", "(x: N) => (y: N) => x + succ(y) == succ(x + y)",
      forAll "x" (forAll "y" (.eq (.add x (.succ y)) (.succ (.add x y)))), .equality 2, false⟩,
    ⟨"mulZero", "(x: N) => x * 0 == 0", forAll "x" (.eq (.mul x .zero) .zero), .equality 1, false⟩,
    ⟨"mulSucc", "(x: N) => (y: N) => x * succ(y) == x * y + x",
      forAll "x" (forAll "y" (.eq (.mul x (.succ y)) (.add (.mul x y) x))), .equality 2, false⟩]

def find? (name : String) : Option Axiom := list.find? (·.name == name)

def names : List String := (list.filter (!·.isAlias)).map (·.name)

def scope : Scope :=
  Scope.ofEntries (("any", .typedef .any) :: list.map fun a => (a.name, .proof a.statement))

def env : Env :=
  ((list.map fun a => (a.name, Value.partialApp a.realizer [])).mergeSort fun a b => a.1 ≤ b.1).reverse

end Axiom
end Peano
