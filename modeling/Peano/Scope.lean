import Peano.Formula.Basic
namespace Peano

namespace Scope

/-- What the parameter of a generic type ranges over. -/
inductive Constraint where
  | number
  | statement
  deriving DecidableEq, Repr

def Constraint.text : Constraint → String
  | .number => "N"
  | .statement => "Prop"

structure Param where
  name : String
  constraint : Constraint
  deriving DecidableEq, Repr

/-- A number and its term, a proof and what it proves, a named type, or a type with parameters. -/
inductive Entry where
  | arithmetic (term : Formula)
  | proof (statement : Formula)
  | typedef (type : Formula)
  | generic (params : List Param) (body : Formula)
  deriving DecidableEq, Repr

namespace Entry

def kindName : Entry → String
  | arithmetic _ => "arithmetic"
  | proof _ => "proof"
  | typedef _ => "typedef"
  | generic .. => "generic typedef"

def type : Entry → Formula
  | arithmetic t | proof t | typedef t | generic _ t => t

def params : Entry → List Param
  | generic ps _ => ps
  | _ => []

end Entry

inductive Untaggable where
  | nat
  | typeVariable
  | hole
  deriving DecidableEq, Repr

def Untaggable.message : Untaggable → String
  | .nat => "Only use N as a function parameter type or in a struct"
  | .typeVariable => "typevar should not be tagged"
  | .hole => "cannot tag <nil>"

def tag (t : Formula) : Except Untaggable Entry :=
  match t with
  | .nat => .error .nat
  | .typeVar _ => .error .typeVariable
  | .hole => .error .hole
  | .var _ | .zero | .succ _ | .add .. | .mul .. => .ok (.arithmetic t)
  | _ => .ok (.proof t)

end Scope

/-- The latest binding stands first. -/
abbrev Scope := List (String × Scope.Entry)

namespace Scope

def insert (s : Scope) (name : String) (e : Entry) : Scope := (name, e) :: s

def find? (s : Scope) (name : String) : Option Entry := s.lookup name

/-- The scope of some entries; of several with one name the last one counts, and they are bound in
order of their names. -/
def ofEntries (entries : List (String × Entry)) : Scope :=
  let distinct := entries.foldl (fun acc e => (acc.filter (·.1 != e.1)) ++ [e]) []
  (distinct.mergeSort fun a b => a.1 ≤ b.1).reverse

def names (s : Scope) : List String := (s.map (·.1)).eraseDups

end Scope
end Peano
