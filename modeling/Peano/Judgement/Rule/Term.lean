import Peano.Judgement.Record
namespace Peano.Judgement
open Syntax (Name ArithOp Place)

/-- A name. `sorry` proves everything. -/
def nameRule (scope : Scope) (require : Option Formula) (x : Name) : Checking Typed := do
  if x.text == "sorry" then
    note (.hover x.place (require.getD .any))
    modify fun n => { n with progress := { n.progress with sorryUsed := true } }
    return ⟨.any, .witness .sorried⟩
  else
    match scope.find? x.text with
    | none => throw (.unknownVariable x.text)
    | some (.proof t) | some (.arithmetic t) =>
      note (.hover x.place t)
      return ⟨t, .lookup x.text⟩
    | some _ => throw .typeAsTerm

def numeralRule (digits : String) : Typed :=
  let n := Syntax.digitsValue digits
  ⟨.numeral n, .number n⟩

def arithRule (op : ArithOp) (left right : Noting Typed) : Checking Typed := do
  let l ← left
  let r ← right
  unless l.type.isArithmetic do throw (.operandNotArithmetic "left" op l.type)
  unless r.type.isArithmetic do throw (.operandNotArithmetic "right" op r.type)
  match op with
  | .add => return ⟨.add l.type r.type, .add l.realizer r.realizer⟩
  | .mul => return ⟨.mul l.type r.type, .mul l.realizer r.realizer⟩

def pairRule (require : Option Formula) (left right : Option Formula → Noting Typed) : Checking Typed := do
  let (leftRequire, rightRequire) ← match require with
    | none => pure (none, none)
    | some (.and l r) => pure (some l, some r)
    | some _ => throw .unwantedPair
  let l ← left leftRequire
  let r ← right rightRequire
  return ⟨.and l.type r.type, .pair l.realizer r.realizer⟩

def memberRule (require : Option Formula) (field : String) (subject : Noting Typed) : Checking Typed := do
  let x ← subject
  match x.type with
  | .and l r =>
    let side ← match field with
      | "left" => pure (⟨l, .left x.realizer⟩ : Typed)
      | "right" => pure ⟨r, .right x.realizer⟩
      | _ => throw .unknownMember
    match require with
    | none => return side
    | some required =>
      if ← same required side.type then return side
      throw (.memberMismatch required side.type)
  | other => throw (.memberOfNonPair other)

def ascriptionRule (scope : Scope) (require : Option Formula) (t : Syntax.TypeExpr)
    (subject : Option Formula → Noting Typed) : Checking Typed := do
  let asserted ← resolveType scope t
  match require with
  | none => pure ()
  | some required =>
    unless ← same required asserted do throw (.ascriptionMismatch required asserted)
  let x ← subject (some asserted)
  unless ← same x.type asserted do throw .ascriptionOfOther
  return ⟨asserted, x.realizer⟩

/-- What a witness must prove: what is required of it, unless a type is ascribed to the proof. -/
def witnessStatement (scope : Scope) (number property : String) (want : Option (String × String × Formula))
    (ascribed : Option Syntax.TypeExpr) : Checking Formula := do
  let required ← match want with
    | none => pure none
    | some (n, p, t) =>
      if n == number && p == property then pure (some t)
      else throw (.fieldsMismatch number property n p)
  match ascribed with
  | some t =>
    let asserted ← resolveType (scope.insert number (.arithmetic (.var number))) t
    unless ← meets asserted required do throw .ascriptionInStruct
    return asserted
  | none =>
    match required with
    | some t => return t
    | none => throw .structUnconstrained

def witnessRule (scope : Scope) (require : Option Formula) (number property : String)
    (ascribed : Option Syntax.TypeExpr) (value proof : Option Formula → Noting Typed) : Checking Typed := do
  let want ← match require with
    | none => pure none
    | some (.struct n p t) => pure (some (n, p, t))
    | some other => throw (.unwantedStruct other)
  let v ← value none
  let statement ← witnessStatement scope number property want ascribed
  let required := statement.rewrite number v.type
  let p ← proof (some required)
  unless ← same p.type required do throw (.proofMismatch p.type required)
  return ⟨.struct number property statement, .exist v.realizer p.realizer⟩

end Peano.Judgement
