import Peano.Formula.Substitution
import Peano.Number.Polynomial
namespace Peano.Formula

def polynomial? : Formula → Option Polynomial
  | .zero => some []
  | .var x => some (.ofName x)
  | .succ t =>
    match numeral? (.succ t) with
    | some n => some (.const n)
    | none => (polynomial? t).map (Polynomial.add · .one)
  | .add l r =>
    match polynomial? l, polynomial? r with
    | some p, some q => some (p.add q)
    | _, _ => none
  | .mul l r =>
    match polynomial? l, polynomial? r with
    | some p, some q => some (p.mul q)
    | _, _ => none
  | _ => none

def difference? (l r : Formula) : Option Polynomial :=
  match polynomial? l, polynomial? r with
  | some p, some q => some (p.sub q)
  | _, _ => none

/-- Whether the differences of two equations agree up to sign. -/
def sameIdentity (l r l' r' : Formula) : Bool :=
  match difference? l r, difference? l' r' with
  | some d, some d' => d.equal d' || d.equal d'.neg
  | _, _ => false

/-- What must not be compared. -/
inductive Incomparable where
  | typeVariable
  | hole
  deriving DecidableEq, Repr

def Incomparable.message : Incomparable → String
  | .typeVariable => "types: typevar should not be compared"
  | .hole => "types: Equal of <nil>"

/-- The sides of an equation, be it up to the laws of rings or not. -/
def sides? : Formula → Option (Formula × Formula)
  | .eq l r | .rung l r => some (l, r)
  | _ => none

def equalRung (l r : Formula) (b : Formula) : Bool :=
  match sides? b with
  | some (l', r') => sameIdentity l r l' r'
  | none => false

/-- Both, the second one only if the first holds. -/
def bothEqual (first : Except Incomparable Bool) (second : Unit → Except Incomparable Bool) :
    Except Incomparable Bool :=
  match first with
  | .ok true => second ()
  | other => other

/-- The body `b` under the name `x` instead of `y`, unless `x` means something else there. -/
def alignBody? (x y : String) (b : Formula) : Option Formula :=
  if x = y then some b else if isFree x b then none else some (rewrite b y (.var x))

/-- What decides before the shapes are compared. -/
def equalEarly? (a b : Formula) : Option (Except Incomparable Bool) :=
  match a, b with
  | .any, _ | _, .any => some (.ok true)
  | .rung l r, b => some (.ok (equalRung l r b))
  | a, .rung l r => some (.ok (equalRung l r a))
  | .var x, .var y => some (.ok (x == y))
  | .var _, _ => some (.ok false)
  | .typeVar _, _ | _, .typeVar _ => some (.error .typeVariable)
  | _, _ => none

def equal (a b : Formula) : Except Incomparable Bool :=
  match equalEarly? a b with
  | some verdict => verdict
  | none =>
    match a with
    | .zero => .ok (b == .zero)
    | .nat => .ok (b == .nat)
    | .never => .ok (b == .never)
    | .succ t =>
      match b with
      | .succ t' => equal t t'
      | _ => .ok false
    | .add l r =>
      match b with
      | .add l' r' => bothEqual (equal l l') fun _ => equal r r'
      | _ => .ok false
    | .mul l r =>
      match b with
      | .mul l' r' => bothEqual (equal l l') fun _ => equal r r'
      | _ => .ok false
    | .eq l r =>
      match b with
      | .eq l' r' => bothEqual (equal l l') fun _ => equal r r'
      | _ => .ok false
    | .and l r =>
      match b with
      | .and l' r' => bothEqual (equal l l') fun _ => equal r r'
      | _ => .ok false
    | .or l r =>
      match b with
      | .or l' r' => bothEqual (equal l l') fun _ => equal r r'
      | _ => .ok false
    | .arrow x d c =>
      match b with
      | .arrow y d' c' =>
        bothEqual (equal d d') fun _ =>
          match alignBody? x y c' with
          | some c' => equal c c'
          | none => .ok false
      | _ => .ok false
    | .struct n _ s =>
      match b with
      | .struct n' _ s' =>
        match alignBody? n n' s' with
        | some s' => equal s s'
        | none => .ok false
      | _ => .ok false
    | _ => .error .hole

inductive Misapplied where
  | notAFunction (fn : Formula)
  | notArithmetic (arg : Formula)
  | mismatch (wanted got : Formula)
  deriving DecidableEq, Repr

def Misapplied.message : Misapplied → String
  | .notAFunction fn => fn.text ++ " is not a function"
  | .notArithmetic arg => "expected arithmetic, got " ++ arg.text
  | .mismatch wanted got => "type mismatch\nrequested: " ++ wanted.text ++ "\nreceived: " ++ got.text

def apply (fn arg : Formula) : Except Incomparable (Except Misapplied Formula) :=
  match fn with
  | .arrow x .nat c =>
    if arg.isArithmetic then .ok (.ok (rewrite c x arg)) else .ok (.error (.notArithmetic arg))
  | .arrow _ d c =>
    match equal d arg with
    | .ok true => .ok (.ok c)
    | .ok false => .ok (.error (.mismatch d arg))
    | .error e => .error e
  | _ => .ok (.error (.notAFunction fn))

end Peano.Formula
