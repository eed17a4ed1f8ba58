import Peano.Judgement.Record
namespace Peano.Judgement
open Syntax (Name Place TypeExpr)

variable (scope : Scope)

def functionRequirement (param : String) (declared : Option Formula) :
    Option Formula → Checking (Option Formula × Option Formula)
  | none => pure (declared, none)
  | some (.arrow x d c) => do
    match declared with
    | some t => unless ← same t d do throw (.inputMismatch d t)
    | none => pure ()
    let body := if d.isNat && x != param then c.rewrite x (.var param) else c
    return (some (declared.getD d), some body)
  | some other => throw (.requiredNonFunction other)

/-- What is required of the body of a function with a written result type. -/
def resultRequirement (required : Option Formula) : Option TypeExpr → Checking (Option Formula)
  | none => pure required
  | some t => do
    let asserted ← resolveType scope t
    match required with
    | some expected => unless ← same asserted expected do throw (.resultMismatch asserted expected)
    | none => pure ()
    return some asserted

/-- A function. A parameter that ranges over numbers is a variable in the body. -/
def lambdaRule (require : Option Formula) (param : Name) (domain result : Option TypeExpr)
    (bodyPlace : Place) (body : Scope → Option Formula → Noting Typed) : Checking Typed := do
  let declared ← resolveType? scope domain
  let (domain, bodyRequire) ← functionRequirement param.text declared require
  match domain with
  | none => throw .unconstrainedArgument
  | some domain =>
    let paramType := if domain.isNat then .var param.text else domain
    let inner := scope.insert param.text (← tagged paramType)
    let bodyRequire ← resultRequirement inner bodyRequire result
    note (.defined bodyPlace param.text paramType)
    note (.hover param.place paramType)
    let b ← body inner bodyRequire
    match bodyRequire with
    | some required => unless ← same b.type required do throw (.bodyMismatch b.type required)
    | none => pure ()
    return ⟨.arrow param.text domain b.type, .lambda param.text b.realizer⟩

/-- Whether the type of a counter may be written so. -/
def isCounterType : Option TypeExpr → Bool
  | none => true
  | some (.name x) => x.text == "N"
  | some _ => false

/-- What a loop proves of its counter: what is written, and what is required if the bound is a
variable. -/
def loopStatement (counter proof : String) (declared require : Option Formula) (bound : Formula) :
    Checking Formula := do
  match bound, require with
  | .var x, some required =>
    let outer := required.rewrite x (.var counter)
    match declared with
    | some t => unless ← same t outer do throw (.loopMismatch t outer)
    | none => pure ()
    return outer
  | _, _ =>
    match declared with
    | some t => return t
    | none => throw (.loopUnconstrained proof)

structure LoopNames where
  counter : Name
  proof : Name
  compared : Name
  stepped : Name
  bodyPlace : Place

def loopRule (require : Option Formula) (names : LoopNames) (counterType proofType : Option TypeExpr)
    (start bound base : Option Formula → Noting Typed) (body : Scope → Option Formula → Noting Typed) :
    Checking Typed := do
  let i := names.counter.text
  let p := names.proof.text
  unless isCounterType counterType do throw .counterNotNumber
  let first ← start (some .zero)
  unless ← same first.type .zero do throw .counterNotZero
  let bound ← bound none
  let withCounter := scope.insert i (.arithmetic (.var i))
  let declared ← resolveType? withCounter proofType
  let statement ← loopStatement i p declared require bound.type
  let baseType := statement.rewrite i .zero
  let base ← base (some baseType)
  unless ← same base.type baseType do throw (.baseMismatch p baseType base.type)
  unless names.compared.text == i do throw (.wrongComparison i names.compared.text)
  unless names.stepped.text == i do throw (.wrongStep i names.stepped.text)
  let stepType := statement.rewrite i (.succ (.var i))
  let entry ← tagged statement
  note (.defined names.bodyPlace i (.var i))
  note (.defined names.bodyPlace p statement)
  note (.hover names.counter.place (.var i))
  note (.hover names.proof.place statement)
  note (.hover names.compared.place (.var i))
  note (.hover names.stepped.place (.var i))
  let step ← body (withCounter.insert p entry) (some stepType)
  unless ← same step.type stepType do throw .stepMismatch
  return ⟨statement.rewrite i bound.type, .loop bound.realizer base.realizer i p step.realizer⟩

structure Arm where
  tag : String
  binding : Name
  bodyPlace : Place
  check : Scope → Option Formula → Noting Typed

def armRule (arm : Arm) (side : Formula) (require : Option Formula) : Checking Typed := do
  let entry ← tagged side
  note (.defined arm.bodyPlace arm.binding.text side)
  note (.hover arm.binding.place side)
  arm.check (scope.insert arm.binding.text entry) require

def switchRule (require : Option Formula) (subject : Noting Typed) (arms : List Arm) : Checking Typed := do
  let s ← subject
  match s.type with
  | .any => return ⟨.any, .fail .switchOnAny⟩
  | .or l r =>
    unless arms.length = 2 do throw .caseCount
    match arms.find? (·.tag == "left"), arms.find? (·.tag == "right") with
    | none, _ => throw (.missingCase "left")
    | _, none => throw (.missingCase "right")
    | some leftArm, some rightArm =>
      let left ← armRule scope leftArm l require
      let right ← armRule scope rightArm r (some (require.getD left.type))
      unless ← same left.type right.type do throw .casesDiffer
      unless ← meets left.type require do throw .casesDiffer
      return ⟨left.type, .switch s.realizer leftArm.binding.text left.realizer
        rightArm.binding.text right.realizer⟩
  | other => throw (.switchOfNonOr other)

end Peano.Judgement
