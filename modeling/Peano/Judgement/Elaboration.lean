import Peano.Axiom
import Peano.Judgement.Rule.Binder
import Peano.Judgement.Rule.Call
import Peano.Judgement.Rule.Statement
import Peano.Judgement.Rule.Term
import Peano.Judgement.Shortcut
namespace Peano.Judgement
open Syntax (Expr Definition Loop Block Switch Case Statement Place Jump)

def recover (settings : Settings) (place : Place) (isName : Bool) (require : Option Formula)
    (inferred : Checking Typed) : Noting Typed := do
  let result : Typed ← do
    match ← inferred.run with
    | .error e =>
      report place e
      pure (⟨.any, .fail .noRealizer⟩ : Typed)
    | .ok t =>
      match require with
      | some required =>
        unless ← same t.type required do report place (.notAssignable t.type required)
      | none => pure ()
      pure t
  let type := require.getD result.type
  match settings.shortcuts && !isName, type with
  | true, .arrow .. => return ⟨type, ← Shortcut.realizer type result.realizer⟩
  | _, _ => return ⟨type, result.realizer⟩

def judge (cfg : Settings) (place : Place) (isName : Bool) (require : Option Formula)
    (rule : Checking Typed) : Noting Typed :=
  recover cfg place isName require do
    note (.required place require .value)
    rule

def isSucc : Expr → Bool
  | .name x => x.text == "succ"
  | _ => false

def reportAt (place : Place) : Option Error → Noting Unit
  | some e => report place e
  | none => pure ()

mutual

def check (cfg : Settings) (scope : Scope) (e : Expr) (require : Option Formula) : Noting Typed :=
  match e with
  | .name x => judge cfg x.place true require (nameRule scope require x)
  | .numeral digits p => judge cfg p false require (pure (numeralRule digits))
  | .generic f t p => judge cfg p false require (genericRule scope f.text t)
  | .block b => checkBlock cfg scope false .ret b require
  | .lambda x d r b p =>
    judge cfg p false require <|
      lambdaRule scope require x d r b.place fun inner required => check cfg inner b required
  | .emptyCall f p =>
    judge cfg p false require <|
      match f with
      | .member x field _ =>
        if field.text == "symm" || field.text == "sym" then symmRule require (check cfg scope x)
        else if field.text == "trans" then transRule require (check cfg scope x none) none
        else if field.text == "map" || field.text == "congr" then throw .mapWithoutArgument
        else throw .emptyCall
      | .name x => if x.text == "ring" then pure ringAlone else throw .emptyCall
      | _ => throw .emptyCall
  | .call f a p =>
    let application := applicationRule (check cfg scope f none) (check cfg scope a)
    judge cfg p false require <|
      match f with
      | .member x field _ =>
        if field.text == "symm" || field.text == "sym" then throw .symmWithArgument
        else if field.text == "trans" then
          transRule require (check cfg scope x none) (some (check cfg scope a))
        else if field.text == "map" || field.text == "congr" then
          mapRule (if isSucc a then none else some (check cfg scope a none)) (check cfg scope x none)
        else application
      | .name x =>
        match x.text with
        | "succ" => succRule (check cfg scope a none)
        | "makeLeft" | "makeRight" => injectionRule x.text require (check cfg scope a)
        | "ring" => ringRule (check cfg scope a none)
        | "neverElim" => neverElimRule require (check cfg scope a)
        | _ => application
      | .call (.name x) b _ =>
        if x.text == "eqMap" then
          mapRule (if isSucc b then none else some (check cfg scope b none)) (check cfg scope a none)
        else if x.text == "replaceAll" then
          replaceAllRule (check cfg scope b none) (check cfg scope a none)
        else application
      | _ => application
  | .record x v y w p =>
    let plain := witnessRule scope require x.text y.text none (check cfg scope v) (check cfg scope w)
    judge cfg p false require <|
      match w with
      | .ascribe proof t _ =>
        witnessRule scope require x.text y.text (some t) (check cfg scope v) (check cfg scope proof)
      | _ => plain
  | .pair l r p =>
    judge cfg p false require (pairRule require (check cfg scope l) (check cfg scope r))
  | .ascribe x t p =>
    judge cfg p false require (ascriptionRule scope require t (check cfg scope x))
  | .member x field p =>
    judge cfg p false require (memberRule require field.text (check cfg scope x none))
  | .loop ⟨⟨i, iType, iValue, _⟩, ⟨q, qType, qValue, _⟩, compared, bound, _, stepped, _, body, p⟩ =>
    judge cfg p false require <|
      loopRule scope require ⟨i, q, compared, stepped, body.place⟩ iType qType
        (check cfg scope iValue) (check cfg scope bound) (check cfg scope qValue)
        fun inner required => checkBlock cfg inner false .next body required
  | .switch s => judge cfg s.place false require (inferSwitch cfg scope .stop s require)
  | .arith op l r p =>
    judge cfg p false require (arithRule op (check cfg scope l none) (check cfg scope r none))

/-- Checks a block that ends with a given kind of statement. -/
def checkBlock (cfg : Settings) (scope : Scope) (isProgram : Bool) (ending : Jump) (b : Block)
    (require : Option Formula) : Noting Typed :=
  match b with
  | ⟨statements, place⟩ =>
    recover cfg place false require do
      note (.required place require (.jump ending))
      ExceptT.mk (inferStatements cfg isProgram place ending require ⟨scope, []⟩ statements)

/-- Case analysis whose cases end with a given kind of statement. -/
def inferSwitch (cfg : Settings) (scope : Scope) (ending : Jump) (s : Switch)
    (require : Option Formula) : Checking Typed :=
  match s with
  | ⟨subject, cases, _⟩ =>
    switchRule scope require (check cfg scope subject none) (arms cfg ending cases)

def arms (cfg : Settings) (ending : Jump) : List Case → List Arm
  | [] => []
  | ⟨tag, x, _, body, _⟩ :: rest =>
    ⟨tag.text, x, body.place, fun inner require => checkBlock cfg inner false ending body require⟩ ::
      arms cfg ending rest

/-- Goes through the statements of a block until one hands over its value. -/
def inferStatements (cfg : Settings) (isProgram : Bool) (block : Place) (ending : Jump)
    (require : Option Formula) (before : Progressed) : List Statement → Noting (Except Error Typed)
  | [] =>
    pure (if isProgram then .ok ⟨.any, .number 1337⟩ else .error (.missingEnding (.jump ending)))
  | s :: rest => do
    let visible := visibleAfter s.place block
    let go (after : Progressed) : Noting (Except Error Typed) := do
      if isProgram then exerciseRule cfg.exercise after.scope
      inferStatements cfg isProgram block ending require after rest
    match s with
    | .empty _ => inferStatements cfg isProgram block ending require before rest
    | .define ⟨x, t, v, place⟩ =>
      let (after, failed) ← defineRule isProgram visible x t (check cfg before.scope v) before
      reportAt place failed
      go after
    | .destructure x y v place =>
      let (after, failed) ←
        destructureRule isProgram visible x y (check cfg before.scope v none) before
      reportAt place failed
      go after
    | .leave jump jumpPlace v _ =>
      if jump ≠ ending then
        note (.error jumpPlace (.wrongEnding (.jump ending) (.jump jump)) (some ending.text))
      let r ← check cfg before.scope v require
      return .ok ⟨r.type, r.realizer.after before.bindings⟩
    | .switch sw =>
      match ← (inferSwitch cfg before.scope ending sw require).run with
      | .ok r => return .ok ⟨r.type, r.realizer.after before.bindings⟩
      | .error e =>
        report sw.place e
        go before
    | .typedef x t _ =>
      let type ← resolveType before.scope t
      go { before with scope := before.scope.insert x.text (.typedef type) }
    | .generic x ps t place =>
      let (scope, failed) ← genericRuleFor x ps t before.scope
      reportAt place failed
      go { before with scope }
    | .log args _ =>
      logArguments cfg isProgram before args
      go before

def logArguments (cfg : Settings) (isProgram : Bool) (before : Progressed) : List Expr → Noting Unit
  | [] => pure ()
  | e :: rest => do
    if isProgram then
      let r ← check cfg before.scope e none
      note (.log e.place (.pending before.bindings.length r.realizer r.type))
    else note (.log e.place .misplaced)
    logArguments cfg isProgram before rest

end

structure Elaborated where
  typed : Typed
  notes : Notes

namespace Elaborated

def records (e : Elaborated) : List Record := e.notes.records.toList

def hasErrors (e : Elaborated) : Bool := e.records.any Record.isError

def logs (e : Elaborated) : List (Place × Log) :=
  e.records.filterMap fun
    | .log place l => some (place, l)
    | _ => none

end Elaborated

def elaborateProgram (cfg : Settings) (scope : Scope) (program : Block) :
    Except Formula.Incomparable Elaborated :=
  ((checkBlock cfg scope true .ret program none).run {}).map fun (t, notes) => ⟨t, notes⟩

def elaborateTerm (cfg : Settings) (scope : Scope) (term : Expr) (require : Option Formula) :
    Except Formula.Incomparable Elaborated :=
  ((check cfg scope term require).run {}).map fun (t, notes) => ⟨t, notes⟩

end Peano.Judgement
