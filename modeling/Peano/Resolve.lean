import Peano.Formula.Substitution
import Peano.Scope
import Peano.Source.File
import Peano.Syntax.Reading
namespace Peano.Resolve
open Syntax (TypeExpr TypeOp Place)

inductive Error where
  | unknownVariable (name : String)
  | wrongKind (kind name : String)
  | unknownCall (name : String)
  | succOfNonArithmetic (t : Formula)
  | untaggable (why : Scope.Untaggable)
  | notArithmetic (side : String) (op : TypeOp) (t : Formula)
  | reservedNames
  | malformedStruct
  | unknownGeneric (name : String)
  | notGeneric (name : String)
  | argumentCount (name : String) (wanted got : Nat)
  | argumentKind (name : String) (index : Nat) (constraint : Scope.Constraint) (kind : String)
  deriving DecidableEq, Repr

namespace Error

def message : Error → String
  | unknownVariable name => "unknown variable " ++ name
  | wrongKind kind name =>
    "can't use " ++ Text.quote kind ++ " kind in type context (name " ++ name ++ ")"
  | unknownCall name => "unhandled call " ++ name
  | succOfNonArithmetic t => "succ argument must be arithmetic, got " ++ t.text
  | untaggable why => why.message
  | notArithmetic side op t =>
    side ++ " of " ++ op.text ++ " must be arithmetic, got " ++ t.text
  | reservedNames =>
    "The names \"left\" and \"right\" are reserved for And types. To declare an And type, use the && operator"
  | malformedStruct => "structs must be of the form \x7bname : N, name2: phi<name> \x7d"
  | unknownGeneric name => "unknown generic " ++ Text.quote name
  | notGeneric name => Text.quote name ++ " is not a generic"
  | argumentCount name wanted got =>
    "generic " ++ Text.quote name ++ s!" requires {wanted} arguments, got {got}"
  | argumentKind name index constraint kind =>
    "generic " ++ Text.quote name ++ s!" argument {index} must be " ++ constraint.text ++ ", got " ++ kind

def code : Error → Diagnostic.Code
  | unknownVariable _ => .unknownVariable
  | unknownGeneric _ | notGeneric _ => .unknownGeneric
  | _ => .badTypeExpression

end Error

structure Report where
  place : Place
  error : Error
  deriving DecidableEq, Repr

/-- What a binder's name stands for in its body. -/
def binderEntry (name : String) (domain : Formula) : Scope.Entry :=
  if domain.isNat then .arithmetic (.var name) else .proof domain

def resolveName (scope : Scope) (name : String) : Except Error Formula :=
  if name == "N" then .ok .nat
  else if name == "never" then .ok .never
  else
    match scope.find? name with
    | none => .error (.unknownVariable name)
    | some (.arithmetic t) | some (.typedef t) => .ok t
    | some e => .error (.wrongKind e.kindName name)

/-- Checks that one side of an operator is an arithmetic term. -/
def arithmeticSide (side : String) (op : TypeOp) (t : Formula) : Except Error Unit :=
  match Scope.tag t with
  | .error why => .error (.untaggable why)
  | .ok (.arithmetic _) => .ok ()
  | .ok _ => .error (.notArithmetic side op t)

def resolveBinary (op : TypeOp) (l r : Formula) : Except Error Formula :=
  match op with
  | .and => .ok (.and l r)
  | .or => .ok (.or l r)
  | _ => do
    arithmeticSide "left" op l
    arithmeticSide "right" op r
    match op with
    | .unequal => return .not (.eq l r)
    | .add => return .add l r
    | .mul => return .mul l r
    | _ => return .eq l r

def resolveStruct (number property : String) (first statement : Formula) : Except Error Formula :=
  if (number == "left" && property == "right") || (number == "right" && property == "left") then
    .error .reservedNames
  else if first.isNat then .ok (.struct number property statement)
  else .error .malformedStruct

/-- A parameter that waits for its argument, and the name it has in the body by now. -/
structure Slot where
  param : Scope.Param
  current : String

/-- Renames in the body the later parameters whose names are free in an argument. -/
def avoid (provided : Formula) : Formula → List Slot → Formula × List Slot
  | body, [] => (body, [])
  | body, slot :: rest =>
    if provided.isFree slot.param.name then
      let fresh := Formula.freshName slot.param.name [provided, body]
      let (body, rest) := avoid provided (body.rewrite slot.param.name (.typeVar fresh)) rest
      (body, { slot with current := fresh } :: rest)
    else
      let (body, rest) := avoid provided body rest
      (body, slot :: rest)

/-- Whether an argument is of the kind its parameter ranges over. -/
def checkArgument (generic : String) (index : Nat) (param : Scope.Param) (provided : Formula) :
    Except Error Unit :=
  match Scope.tag provided, param.constraint with
  | .error why, _ => .error (.untaggable why)
  | .ok (.arithmetic _), .number | .ok (.proof _), .statement => .ok ()
  | .ok e, c => .error (.argumentKind generic index c e.kindName)

/-- What stands for nothing is reported after its parts and becomes `any`. -/
def settle (place : Place) : Except Error Formula × List Report → Formula × List Report
  | (.ok f, reports) => (f, reports)
  | (.error e, reports) => (.any, reports ++ [⟨place, e⟩])

mutual

/-- The formula of a written type or why it has none, and what was wrong with its parts. -/
def resolveNode (scope : Scope) : TypeExpr → Except Error Formula × List Report
  | .name n => (resolveName scope n.text, [])
  | .numeral digits _ => (.ok (.numeral (Syntax.digitsValue digits)), [])
  | .arrow x d c _ =>
    let (domain, before) := settle d.place (resolveNode scope d)
    let inner := scope.insert x.text (binderEntry x.text domain)
    let (codomain, after) := settle c.place (resolveNode inner c)
    (.ok (.arrow x.text domain codomain), before ++ after)
  | .binary op l r _ =>
    let (left, before) := settle l.place (resolveNode scope l)
    let (right, after) := settle r.place (resolveNode scope r)
    (resolveBinary op left right, before ++ after)
  | .call f a _ =>
    if f.text != "succ" then (.error (.unknownCall f.text), [])
    else
      let (inside, reports) := settle a.place (resolveNode scope a)
      (if inside.isArithmetic then .ok (.succ inside) else .error (.succOfNonArithmetic inside), reports)
  | .record x t y u _ =>
    let (first, before) := settle t.place (resolveNode scope t)
    let inner := if first.isNat then scope.insert x.text (binderEntry x.text first) else scope
    let (statement, after) := settle u.place (resolveNode inner u)
    (resolveStruct x.text y.text first statement, before ++ after)
  | .not t _ =>
    let (negated, reports) := settle t.place (resolveNode scope t)
    (.ok (.not negated), reports)
  | .generic f args _ =>
    match scope.find? f.text with
    | none => (.error (.unknownGeneric f.text), [])
    | some (.generic params body) =>
      if params.length = args.length then
        instantiate scope f.text 0 body (params.map fun p => ⟨p, p.name⟩) args
      else (.error (.argumentCount f.text params.length args.length), [])
    | some _ => (.error (.notGeneric f.text), [])

/-- Puts the arguments in place of the parameters, one after the other. -/
def instantiate (scope : Scope) (generic : String) (index : Nat) (body : Formula)
    (slots : List Slot) : List TypeExpr → Except Error Formula × List Report
  | [] => (.ok body, [])
  | arg :: args =>
    match slots with
    | [] => (.ok body, [])
    | slot :: slots =>
      let (provided, before) := settle arg.place (resolveNode scope arg)
      match checkArgument generic index slot.param provided with
      | .error e => (.error e, before)
      | .ok _ =>
        let (body, slots) := avoid provided body slots
        let (result, after) :=
          instantiate scope generic (index + 1) (body.rewrite slot.current provided) slots args
        (result, before ++ after)

end

def resolve (scope : Scope) (t : TypeExpr) : Formula × List Report :=
  settle t.place (resolveNode scope t)

inductive TextError where
  | unreadable (e : Syntax.SyntaxError)
  | unresolved (e : Error)
  deriving Repr

def TextError.message : TextError → String
  | .unreadable e => e.message
  | .unresolved e => e.message

def TextError.code : TextError → Diagnostic.Code
  | .unreadable _ => .unknown
  | .unresolved e => e.code

def ofText (content : Bytes) : Except TextError Formula :=
  match Syntax.readType (Source.normalize content) with
  | .error e => .error (.unreadable e)
  | .ok t =>
    match resolve [] t with
    | (f, []) => .ok f
    | (_, report :: _) => .error (.unresolved report.error)

end Peano.Resolve
