import Peano.Realizer.Basic
namespace Peano

/-- A function is a closure or a primitive with the arguments it has so far. `undefined` is no value
of any realizer. -/
inductive Value where
  | number (n : Nat)
  | witness (w : Witness)
  | pair (left right : Value)
  | left (of : Value)
  | right (of : Value)
  | exist (number : Nat) (property : Value)
  | closure (param : String) (body : Realizer) (env : List (String × Value))
  | partialApp (p : Primitive) (args : List Value)
  | undefined
  deriving Inhabited

/-- The latest binding stands first. -/
abbrev Env := List (String × Value)

namespace Value

/-- The types of the two sides of a conjunction or disjunction. -/
def sideTypes : Option Formula → Option Formula × Option Formula
  | some (.and l r) | some (.or l r) => (some l, some r)
  | _ => (none, none)

def text (type : Option Formula) : Value → String
  | number n => toString n
  | witness w => w.text
  | closure .. | partialApp .. => "(func)"
  | pair l r =>
    let (lt, rt) := sideTypes type
    "\x7bleft: " ++ l.text lt ++ ", right: " ++ r.text rt ++ "\x7d"
  | left v => "\x7bleft: " ++ v.text (sideTypes type).1 ++ "\x7d"
  | right v => "\x7bright: " ++ v.text (sideTypes type).2 ++ "\x7d"
  | exist n v =>
    let (x, p, t) : String × String × Option Formula :=
      match type with
      | some (.struct x p t) => (x, p, some t)
      | _ => ("@num", "@prop", none)
    "\x7b" ++ x ++ ": " ++ toString n ++ ", " ++ p ++ ": " ++ v.text t ++ "\x7d"
  | undefined => "undefined"

end Value

/-- A number among the arguments of a primitive. -/
def numberArg : Value → Except Failure Nat
  | .number n => .ok n
  | v => .error (.expectedNumber (v.text none))

def Primitive.run (p : Primitive) (args : List Value) : Except Failure Value :=
  let arg (i : Nat) : Value := args.getD i .undefined
  match p with
  | equality _ => .ok (.witness .equality)
  | argument _ i => .ok (arg i)
  | succNotZero => .error .succNotZero
  | injectLeft => .ok (.left (arg 0))
  | injectRight => .ok (.right (arg 0))
  | refutation => .ok (.witness .falsity)
  | failing message => .error (.given message)
  | isZero => do
    if (← numberArg (arg 0)) = 0 then return .left (.witness .equality)
    else return .right (.partialApp .refutation [])
  | zeroIs => do
    let n ← numberArg (arg 0)
    return if n = 0 then .left (.number n) else .right (.number n)
  | areEqual => do
    let x ← numberArg (arg 0)
    let y ← numberArg (arg 1)
    return if x = y then .left (.witness .equality) else .right (.partialApp .refutation [])
  | predecessor => do
    match ← numberArg (arg 0) with
    | 0 => .error .neverElimInstance
    | n + 1 => .ok (.exist n (.witness .equality))

def Primitive.feed (p : Primitive) (args : List Value) (v : Value) : Except Failure Value :=
  let args := args ++ [v]
  if args.length = p.arity then p.run args else .ok (.partialApp p args)

end Peano
