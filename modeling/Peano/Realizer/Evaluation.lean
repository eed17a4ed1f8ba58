import Peano.Realizer.Value
namespace Peano

/-- Who ends a running evaluation. -/
inductive Stop where
  | killed
  | canceled
  | deadline
  deriving DecidableEq, Repr

def Stop.message : Stop → String
  | killed => "runtimer error: interpreter execution was killed"
  | canceled => "runtimer error: interpreter execution was killed: context canceled"
  | deadline => "runtimer error: interpreter execution was killed: context deadline exceeded"

inductive RunError where
  | stopped (by_ : Stop)
  | failed (why : Failure)
  deriving DecidableEq, Repr

def RunError.message : RunError → String
  | stopped s => s.message
  | failed f => f.message

/-- How many more rounds loops may make, and who stops them then. Without a number they may go on
for ever. -/
structure Limit where
  rounds : Option Nat
  stop : Stop
  deriving DecidableEq, Repr

namespace Limit

def unlimited : Limit := ⟨none, .killed⟩

def exhausted (stop : Stop) : Limit := ⟨some 0, stop⟩

/-- Uses up one round. -/
def spend (l : Limit) : Except RunError Limit :=
  match l.rounds with
  | none => .ok l
  | some 0 => .error (.stopped l.stop)
  | some (n + 1) => .ok { l with rounds := some n }

end Limit

/-- Evaluation of something: nothing when the fuel does not suffice; else an error, or a result and
the limit that is left. -/
abbrev Run (α : Type) := StateT Limit (ExceptT RunError Option) α

namespace Run

def fail {α : Type} (why : Failure) : Run α := throw (.failed why)

def outOfFuel {α : Type} : Run α := fun _ => ExceptT.mk none

def ofExcept {α : Type} : Except Failure α → Run α
  | .ok a => pure a
  | .error why => fail why

/-- Asks whether a loop may go on. -/
def round : Run Unit := fun l =>
  match l.spend with
  | .ok l => pure ((), l)
  | .error e => throw e

end Run

/-- Rounds `i`, `i + 1`, ..., as many as are left, each from the value of the one before. -/
def iterate (step : Nat → Value → Run Value) : Nat → Nat → Value → Run Value
  | 0, _, acc => pure acc
  | left + 1, i, acc => do
    Run.round
    let acc ← step i acc
    iterate step left (i + 1) acc

def Value.call (enter : Env → Realizer → Run Value) (f arg : Value) : Run Value :=
  match f with
  | .closure x body env => enter ((x, arg) :: env) body
  | .partialApp p args => Run.ofExcept (p.feed args arg)
  | _ => Run.fail .callOfNonFunction

/-- The value of a realizer whose parts `ev` evaluates. The definitions of a block are gone through one
after the other. -/
def Realizer.enter (ev : Env → Realizer → Run Value) (env : Env) : Realizer → Run Value
  | .lookup x =>
    match env.lookup x with
    | some v => pure v
    | none => Run.fail (.notInContext x)
  | .number n => pure (.number n)
  | .witness w => pure (.witness w)
  | .primitive p => pure (.partialApp p [])
  | .fail why => Run.fail why
  | .add l r => do
    let lv ← ev env l
    let rv ← ev env r
    match lv, rv with
    | .number m, .number n => pure (.number (m + n))
    | _, _ => Run.fail .arithmeticOnNonNumber
  | .mul l r => do
    let lv ← ev env l
    let rv ← ev env r
    match lv, rv with
    | .number m, .number n => pure (.number (m * n))
    | _, _ => Run.fail .arithmeticOnNonNumber
  | .succ r => do
    match ← ev env r with
    | .number n => pure (.number (n + 1))
    | _ => Run.fail .succOfNonNumber
  | .lambda x body => pure (.closure x body env)
  | .apply f a => do
    let fv ← ev env f
    let av ← ev env a
    fv.call ev av
  | .injectLeft r => do return .left (← ev env r)
  | .injectRight r => do return .right (← ev env r)
  | .exist n p => do
    match ← ev env n with
    | .number k =>
      match ← ev env p with
      | .number _ => Run.fail .propertyFieldIsNumber
      | v => pure (.exist k v)
    | _ => Run.fail .numberFieldNotNumber
  | .pair l r => do
    let lv ← ev env l
    let rv ← ev env r
    pure (.pair lv rv)
  | .left r => do
    match ← ev env r with
    | .pair v _ => pure v
    | _ => Run.fail .notAPair
  | .right r => do
    match ← ev env r with
    | .pair _ v => pure v
    | _ => Run.fail .notAPair
  | .switch s x l y r => do
    match ← ev env s with
    | .left v => ev ((x, v) :: env) l
    | .right v => ev ((y, v) :: env) r
    | _ => Run.fail .neitherSide
  | .loop bound base i p body => do
    match ← ev env bound with
    | .number n =>
      let start ← ev env base
      iterate (fun k acc => ev ((p, acc) :: (i, .number k) :: env) body) n 0 start
    | _ => Run.fail .boundNotNumber
  | .define x v rest => do
    let value ← ev env v
    rest.enter ev ((x, value) :: env)
  | .unpack n p v rest => do
    match ← ev env v with
    | .exist k w => rest.enter ev ((p, w) :: (n, .number k) :: env)
    | _ => Run.fail .notAnObject

def Realizer.eval : Nat → Env → Realizer → Run Value
  | 0, _, _ => Run.outOfFuel
  | fuel + 1, env, r => r.enter (eval fuel) env

def Binding.bind (ev : Env → Realizer → Run Value) (env : Env) : Binding → Run Env
  | .define x v => do return (x, ← ev env v) :: env
  | .unpack n p v => do
    match ← ev env v with
    | .exist k w => pure ((p, w) :: (n, .number k) :: env)
    | _ => Run.fail .notAnObject

end Peano
