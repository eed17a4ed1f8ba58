import Peano.Judgement.Record
namespace Peano.Judgement.Shortcut
open Formula

/-- Every number is zero or not. -/
def isZero : Formula :=
  .arrow "x" .nat (.or (.eq (.var "x") .zero) (.not (.eq (.var "x") .zero)))

/-- Zero is a number or not. -/
def zeroIs : Formula :=
  .arrow "x" .nat (.or (.eq .zero (.var "x")) (.not (.eq .zero (.var "x"))))

/-- Any two numbers are equal or not. -/
def areEqual : Formula :=
  .arrow "x" .nat (.arrow "y" .nat
    (.or (.eq (.var "x") (.var "y")) (.not (.eq (.var "x") (.var "y")))))

/-- A number that is not zero has a predecessor. -/
def predecessor : Formula :=
  .arrow "n" .nat (.arrow "nonZero" (.not (.eq (.var "n") .zero))
    (.struct "prevN" "isPrev" (.eq (.succ (.var "prevN")) (.var "n"))))

def lemmas : List (Formula × Primitive) :=
  [(isZero, .isZero), (zeroIs, .zeroIs), (areEqual, .areEqual), (predecessor, .predecessor)]

def lemma? (t : Formula) : List (Formula × Primitive) → Noting (Option Primitive)
  | [] => pure none
  | (statement, p) :: rest => do
    if ← same t statement then return some p
    lemma? t rest

/-- How many arguments a chain of arrows takes, and what it ends in. -/
def arrows : Formula → Nat × Formula
  | .arrow _ _ c =>
    let (n, last) := arrows c
    (n + 1, last)
  | t => (0, t)

/-- The realizer of a function of type `t` whose proof has realizer `fallback`. A chain of arrows
that ends in an equation has nothing to compute. -/
def realizer (t : Formula) (fallback : Realizer) : Noting Realizer := do
  match ← lemma? t lemmas with
  | some p => return .primitive p
  | none =>
    match arrows t with
    | (n, .eq ..) => return .primitive (.equality n)
    | _ => return fallback

end Peano.Judgement.Shortcut
