import Peano.Judgement.Record
namespace Peano.Judgement
open Syntax (TypeExpr)

/-- A name that is free in none of the formulas: the given one if possible. -/
def unusedName (name : String) (ts : List Formula) : String :=
  if ts.any (Formula.isFree name) then Formula.freshName name ts else name

def injectionInstance (scope : Scope) (isRight : Bool) (name : String) (t : TypeExpr) : Checking Typed := do
  match t with
  | .binary .or l r _ =>
    let side ← resolveType scope (if isRight then r else l)
    let whole ← resolveType scope t
    return ⟨.arrow "_" side whole, .primitive (if isRight then .injectRight else .injectLeft)⟩
  | _ => throw (.instanceNeedsOr name)

/-- The law that equal numbers share a property with parameter `param`. -/
def leibniz (param : String) (property : Formula) : Formula :=
  let l := unusedName "L" [property]
  let r := unusedName "R" [property, .var l]
  .arrow l .nat (.arrow r .nat (.arrow "eqLR" (.eq (.var l) (.var r))
    (.arrow "propOfL" (property.rewrite param (.var l)) (property.rewrite param (.var r)))))

def replaceInstance (scope : Scope) (t : TypeExpr) : Checking Typed := do
  match t with
  | .name x =>
    match scope.find? x.text with
    | none => throw (.unknownVariable x.text)
    | some (.generic [⟨param, .number⟩] body) =>
      return ⟨leibniz param body, .primitive (.argument 4 3)⟩
    | some (.generic [_] _) => throw (.replaceConstraint x.text)
    | some (.generic ..) => throw (.replaceArity x.text)
    | some _ => throw (.replaceOfNonGeneric x.text)
  | _ => throw .replaceNeedsGeneric

def genericRule (scope : Scope) (name : String) (t : TypeExpr) : Checking Typed := do
  match name with
  | "makeLeft" => injectionInstance scope false name t
  | "makeRight" => injectionInstance scope true name t
  | "neverElim" => return ⟨.arrow "_" .never (← resolveType scope t), .fail .neverElimInstance⟩
  | "replace" => replaceInstance scope t
  | "excludedMiddle" =>
    let p ← resolveType scope t
    return ⟨.or p (.not p), .fail .excludedMiddle⟩
  | _ => throw (.unknownGeneric name)

variable (require : Option Formula)

def symmRule (subject : Option Formula → Noting Typed) : Checking Typed := do
  let flipped := match require with
    | some (.eq l r) => some (Formula.eq r l)
    | _ => none
  let x ← subject flipped
  match x.type with
  | .eq l r => return ⟨.eq r l, .witness .equality⟩
  | other => throw (.symmOfNonEquation other)

/-- What the second of two chained equations must be, if the first one fits the requirement. -/
def transRequirement (l r : Formula) : Noting (Option Formula) := do
  match require with
  | some (.eq l' r') => if ← same l' l then return some (.eq r r') else return none
  | _ => return none

def transRule (subject : Noting Typed) (argument : Option (Option Formula → Noting Typed)) :
    Checking Typed := do
  let x ← subject
  match x.type with
  | .eq l r =>
    match argument with
    | none => throw .transWithoutArgument
    | some argument =>
      let y ← argument (← transRequirement require l r)
      match y.type with
      | .eq l' r' =>
        unless ← same r l' do throw (.transMismatch (.eq l r) (.eq l' r'))
        return ⟨.eq l r', .witness .equality⟩
      | .rung l' r' =>
        match require with
        | none => throw .transRungUnconstrained
        | some (.eq a b) =>
          unless ← same (.eq r b) (.rung l' r') do
            throw (.transRungMismatch (.eq r b) (.rung l' r'))
          return ⟨.eq a b, .witness .equality⟩
        | some other => throw (.transRequiresEquation other)
      | other => throw (.transWithNonEquation other)
  | other => throw (.transOfNonEquation other)

def succArrow : Formula := .arrow "x" .nat (.succ (.var "x"))

/-- The type of a function to apply to both sides of an equation. Without a function it is the
successor. -/
def mapFunction : Option (Noting Typed) → Checking Formula
  | none => pure succArrow
  | some fn => do
    match (← fn).type with
    | .arrow x d c => if c.isArithmetic then return .arrow x d c else throw .mapNeedsNumberFunction
    | _ => throw .mapNeedsNumberFunction

def mapRule (fn : Option (Noting Typed)) (equation : Noting Typed) : Checking Typed := do
  let f ← mapFunction fn
  match (← equation).type with
  | .eq l r => return ⟨.eq (← applied f l) (← applied f r), .witness .equality⟩
  | _ => throw .mapOfNonEquation

/-- One side of an equation in place of the variable on its other side. -/
def replaceAllRule (proof equation : Noting Typed) : Checking Typed := do
  match (← equation).type with
  | .eq (.var x) r =>
    let p ← proof
    return ⟨p.type.rewrite x r, p.realizer⟩
  | .eq .. => throw .replaceAllOfNonVariable
  | _ => throw .replaceAllOfNonEquation

def succRule (argument : Noting Typed) : Checking Typed := do
  let x ← argument
  unless x.type.isArithmetic do throw (.succOfNonArithmetic x.type)
  return ⟨.succ x.type, .succ x.realizer⟩

def ringRule (argument : Noting Typed) : Checking Typed := do
  let x ← argument
  match x.type with
  | .any => return ⟨.any, x.realizer⟩
  | .eq l r => return ⟨.rung l r, x.realizer⟩
  | other => throw (.ringOfNonEquation other)

/-- What holds by the laws of rings alone. -/
def ringAlone : Typed := ⟨.rung .zero .zero, .witness .equality⟩

/-- Anything from a contradiction. -/
def neverElimRule (argument : Option Formula → Noting Typed) : Checking Typed := do
  match require with
  | none => throw .neverElimUnconstrained
  | some required =>
    let x ← argument (some .never)
    unless ← same x.type .never do throw .neverElimNeedsNever
    return ⟨required, .fail .neverElim⟩

/-- A side of a disjunction. -/
def injectionRule (name : String) (require : Option Formula)
    (argument : Option Formula → Noting Typed) : Checking Typed := do
  match require with
  | none => throw (.injectionUnconstrained name)
  | some (.or l r) =>
    let isRight := name == "makeRight"
    let side := if isRight then r else l
    let x ← argument (some side)
    unless ← same x.type side do throw (.injectionMismatch name)
    return ⟨.or l r, if isRight then .injectRight x.realizer else .injectLeft x.realizer⟩
  | some other => throw (.injectionNeedsOr name other)

def applicationRule (fn : Noting Typed) (argument : Option Formula → Noting Typed) : Checking Typed := do
  let f ← fn
  match f.type with
  | .any => return ⟨.any, .fail .callOfAny⟩
  | .arrow x d c =>
    let a ← argument (if d.isNat then none else some d)
    let t ← applied (.arrow x d c) a.type
    return ⟨t, .apply f.realizer a.realizer⟩
  | other => throw (.notAFunction other)

end Peano.Judgement
