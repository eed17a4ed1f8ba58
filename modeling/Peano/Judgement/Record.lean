import Peano.Judgement.Error
import Peano.Realizer.Basic
namespace Peano.Judgement
open Syntax (Place)

/-- A value to be logged. It needs the first `ready` definitions of the program. -/
inductive Log where
  | misplaced
  | pending (ready : Nat) (realizer : Realizer) (type : Formula)
  deriving Repr

inductive Record where
  | error (place : Place) (error : Error) (fix : Option String)
  | defined (place : Place) (name : String) (type : Formula)
  | hover (place : Place) (type : Formula)
  | required (place : Place) (type : Option Formula) (ending : Ending)
  | log (place : Place) (log : Log)
  deriving Repr

namespace Record

def kindName : Record → String
  | error .. => "error"
  | defined .. => "var defined"
  | hover .. => "var hover"
  | required .. => "required"
  | log .. => "log"

def place : Record → Place
  | error p .. | defined p .. | hover p _ | required p .. | log p _ => p

def isError : Record → Bool
  | error .. => true
  | _ => false

end Record

/-- The text of a requirement; without one anything goes. -/
def requirementText : Option Formula → String
  | some t => t.text
  | none => Formula.hole.text

/-- A statement that a program is to prove under a given name. -/
structure Exercise where
  name : String
  statement : Formula
  deriving DecidableEq, Repr

structure Progress where
  sorryUsed : Bool := false
  isDefined : Bool := false
  isTyped : Bool := false
  deriving DecidableEq, Repr

/-- The notes of a check: its records, the definitions of the program itself, and its exercise. -/
structure Notes where
  records : Array Record := #[]
  setup : Array Binding := #[]
  progress : Progress := {}

/-- How to check. With shortcuts some well-known lemmas are not computed by their proofs. -/
structure Settings where
  shortcuts : Bool := false
  exercise : Option Exercise := none

structure Typed where
  type : Formula
  realizer : Realizer
  deriving Repr

/-- Checking that records its errors. It breaks off only when formulas cannot be compared. -/
abbrev Noting (α : Type) := StateT Notes (Except Formula.Incomparable) α

abbrev Checking (α : Type) := ExceptT Error (StateT Notes (Except Formula.Incomparable)) α

def note (r : Record) : Noting Unit := modify fun n => { n with records := n.records.push r }

def report (place : Place) (e : Error) : Noting Unit := note (.error place e none)

def compared {α : Type} (outcome : Except Formula.Incomparable α) : Noting α :=
  fun n => outcome.map (·, n)

/-- Whether one type may stand for another. -/
def same (a b : Formula) : Noting Bool := compared (Formula.equal a b)

def meets (t : Formula) : Option Formula → Noting Bool
  | some required => same t required
  | none => pure true

def resolveType (scope : Scope) (t : Syntax.TypeExpr) : Noting Formula := do
  let (f, reports) := Resolve.resolve scope t
  reports.forM fun r => report r.place (.type r.error)
  return f

def resolveType? (scope : Scope) : Option Syntax.TypeExpr → Noting (Option Formula)
  | some t => some <$> resolveType scope t
  | none => pure none

def tagged (t : Formula) : Checking Scope.Entry :=
  match Scope.tag t with
  | .ok e => pure e
  | .error why => throw (.untaggable why)

def applied (fn arg : Formula) : Checking Formula := do
  let result ← (compared (Formula.apply fn arg) : Noting (Except Formula.Misapplied Formula))
  match result with
  | .ok t => pure t
  | .error why => throw (.misapplied why)

end Peano.Judgement
