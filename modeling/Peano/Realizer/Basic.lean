import Peano.Formula.Basic
namespace Peano

inductive Failure where
  | noRealizer
  | notInContext (name : String)
  | arithmeticOnNonNumber
  | succOfNonNumber
  | callOfNonFunction
  | callOfAny
  | neverElim
  | neverElimInstance
  | excludedMiddle
  | succNotZero
  | boundNotNumber
  | switchOnAny
  | neitherSide
  | notAnObject
  | numberFieldNotNumber
  | propertyFieldIsNumber
  | notAPair
  | expectedNumber (shown : String)
  | misplacedLog
  | given (message : String)
  deriving DecidableEq, Repr

def Failure.message : Failure → String
  | noRealizer => "couldn't create implementation: type error"
  | notInContext name => "runtime error: variable " ++ name ++ " not in context"
  | arithmeticOnNonNumber => "arithmetic impl got non-integer"
  | succOfNonNumber => "runtime error: succ impl got non-integer"
  | callOfNonFunction => "left of call must be a function"
  | callOfAny => "can't call any"
  | neverElim => "runtime error: neverElim should never be called"
  | neverElimInstance => "neverElim should never be called"
  | excludedMiddle => "excludedMiddle is not constructively valid"
  | succNotZero => "runtimeError: succNotZero called"
  | boundNotNumber => "runtime error: bound must be bigint"
  | switchOnAny => "got any in switch"
  | neitherSide => "switch impl got neither left nor right"
  | notAnObject => "runtime error: multi const didnt get object"
  | numberFieldNotNumber => "runtime error: struct number field must be bigint"
  | propertyFieldIsNumber => "runtime error: struct prop field must be prop"
  | notAPair => "runtime error: . operator on non-&& object"
  | expectedNumber shown => "runtime error: expected a number, got " ++ shown
  | misplacedLog => "console.log only works at the top level of code"
  | given message => message

/-- Proofs without content. -/
inductive Witness where
  | equality
  | falsity
  | sorried
  | named (text : String)
  deriving DecidableEq, Repr

def Witness.text : Witness → String
  | equality => "(eq)"
  | falsity => "(never)"
  | sorried => "(sorry)"
  | named t => t

/-- Functions that are given, not written. Each takes its arguments one by one. -/
inductive Primitive where
  /-- Proves an equation from `arity` arguments. -/
  | equality (arity : Nat)
  /-- Returns one of `arity` arguments. -/
  | argument (arity index : Nat)
  | succNotZero
  | injectLeft
  | injectRight
  | isZero
  | zeroIs
  | areEqual
  | predecessor
  /-- Refutes whatever it is given. -/
  | refutation
  | failing (message : String)
  deriving DecidableEq, Repr

/-- One more argument than this is never waited for. -/
def Primitive.arity : Primitive → Nat
  | equality n | argument n _ => n
  | succNotZero | areEqual | predecessor => 2
  | injectLeft | injectRight | isZero | zeroIs | refutation | failing _ => 1

inductive Realizer where
  | lookup (name : String)
  | number (n : Nat)
  | witness (w : Witness)
  | primitive (p : Primitive)
  | fail (why : Failure)
  | add (left right : Realizer)
  | mul (left right : Realizer)
  | succ (of : Realizer)
  | lambda (param : String) (body : Realizer)
  | apply (fn arg : Realizer)
  | injectLeft (of : Realizer)
  | injectRight (of : Realizer)
  | exist (number property : Realizer)
  | pair (left right : Realizer)
  | left (of : Realizer)
  | right (of : Realizer)
  | switch (subject : Realizer) (leftName : String) (left : Realizer) (rightName : String)
    (right : Realizer)
  /-- Iterates `body` from `base`, `bound` times. -/
  | loop (bound base : Realizer) (counter proof : String) (body : Realizer)
  | define (name : String) (value rest : Realizer)
  | unpack (number property : String) (value rest : Realizer)
  deriving DecidableEq, Repr, Inhabited

inductive Binding where
  | define (name : String) (value : Realizer)
  | unpack (number property : String) (value : Realizer)
  deriving Repr

def Realizer.after (rest : Realizer) : List Binding → Realizer
  | [] => rest
  | .define x v :: bs => .define x v (rest.after bs)
  | .unpack n p v :: bs => .unpack n p v (rest.after bs)

end Peano
