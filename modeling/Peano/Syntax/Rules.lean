import Peano.Grammar.Derivation
import Peano.Syntax.Basic
import Peano.Token.Lexeme
namespace Peano.Syntax
open Source (Extent)

inductive Nonterminal where
  | code | statements | statement | statementBody? | statementBody
  | constWord | const | assertion? | assertion | leaveWord | leave | rename | destructure
  | typedef | genericTypedef | typeParams | typeParam | log | args
  | loop | comparison | increment | switchWord | switch | cases | case | caseGuard | block
  | logic | implication | typedParams | typedParam | disjunction | conjunction | equation
  | typeSum | typeProduct | negation | typeAtom | fieldEnd | logicList
  | expr | arith | ascription | abstraction | lambdaBody | param | params | head | function
  | lambda | conjunct | sum | product | application | inst | atom | record | tagged
  deriving DecidableEq, Ord, Repr

/-- What a token of a rule has to be: of some kind, or a word with a meaning only there. -/
inductive Terminal where
  | kind (k : Token.Kind)
  | word (w : String)
  deriving DecidableEq, Repr

def Terminal.label : Terminal → String
  | kind .ident => "identifier"
  | kind k => k.name
  | word w => w

def Terminal.accepts : Terminal → Token → Bool
  | kind k, t => t.kind = k
  | word w, t => t.isWord w

abbrev Part := Grammar.Part Nonterminal Terminal

structure Param where
  name : Name
  type : Option TypeExpr

def Param.place (p : Param) : Place := Extent.join p.name.place (p.type.bind TypeExpr.place)

/-- The parameters and the result type of a lambda that waits for its body. -/
structure Head where
  first : Param
  others : List Param
  result : Option TypeExpr
  place : Place

/-- A list with at least one entry. -/
structure Several (α : Type) where
  first : α
  others : List α

namespace Several

variable {α : Type}

def toList (xs : Several α) : List α := xs.first :: xs.others

def push (xs : Several α) (x : α) : Several α := { xs with others := xs.others ++ [x] }

def cover (place : α → Place) (xs : Several α) : Place :=
  xs.others.foldl (fun p x => Extent.join p (place x)) (place xs.first)

end Several

structure Comparison where
  left : Name
  right : Expr
  place : Place

structure Increment where
  name : Name
  place : Place

structure Guard where
  tag : Name
  binding : Name
  place : Place

open Nonterminal in
@[reducible] def Meaning : Nonterminal → Type
  | code | statements | block => Block
  | statement | statementBody | leave | destructure | typedef | genericTypedef | log
  | function => Statement
  | statementBody? => Option Statement
  | constWord | leaveWord | switchWord | fieldEnd => Token
  | const => Definition
  | assertion? => Option TypeExpr
  | assertion | logic | implication | disjunction | conjunction | equation | typeSum | typeProduct
  | negation | typeAtom => TypeExpr
  | rename => Rename
  | typeParams => Several TypeParam
  | typeParam => TypeParam
  | args => Several Expr
  | loop => Loop
  | comparison => Comparison
  | increment => Increment
  | switch => Switch
  | cases => List Case
  | case => Case
  | caseGuard => Guard
  | typedParams | params => Several Param
  | typedParam | param => Param
  | logicList => Several TypeExpr
  | expr | arith | ascription | abstraction | lambdaBody | lambda | conjunct | sum | product
  | application | inst | atom | record | tagged => Expr
  | head => Head

open Nonterminal in
def Meaning.place : (n : Nonterminal) → Meaning n → Place
  | code, b | statements, b | block, b => Block.place b
  | statement, s | statementBody, s | leave, s | destructure, s | typedef, s | genericTypedef, s
  | log, s | function, s => Statement.place s
  | statementBody?, s => Option.bind s Statement.place
  | constWord, t | leaveWord, t | switchWord, t | fieldEnd, t => some (Token.extent t)
  | const, d => Definition.place d
  | assertion?, t => Option.bind t TypeExpr.place
  | assertion, t | logic, t | implication, t | disjunction, t | conjunction, t | equation, t
  | typeSum, t | typeProduct, t | negation, t | typeAtom, t => TypeExpr.place t
  | rename, (r : Rename) => Extent.join r.field.place (r.new.bind (·.place))
  | typeParams, ps =>
    Several.cover (fun (p : TypeParam) => Extent.join p.name.place p.constraint.place) ps
  | typeParam, (p : TypeParam) => Extent.join p.name.place p.constraint.place
  | args, es => Several.cover Expr.place es
  | loop, l => Loop.place l
  | comparison, c => Comparison.place c
  | increment, i => Increment.place i
  | switch, s => Switch.place s
  | cases, cs => List.foldl (fun p (c : Case) => Extent.join p c.place) none cs
  | case, c => Case.place c
  | caseGuard, g => Guard.place g
  | typedParams, ps | params, ps => Several.cover Param.place ps
  | typedParam, p | param, p => Param.place p
  | logicList, ts => Several.cover TypeExpr.place ts
  | expr, e | arith, e | ascription, e | abstraction, e | lambdaBody, e | lambda, e | conjunct, e
  | sum, e | product, e | application, e | inst, e | atom, e | record, e | tagged, e => Expr.place e
  | head, h => Head.place h

def PartMeaning : Part → Type
  | .phrase n => Meaning n
  | .token _ => Token

def Builder : List Part → Type → Type
  | [], α => α
  | s :: rest, α => PartMeaning s → Builder rest α

/-- A tag other than `left` and `right`, at its place. -/
structure BadTag where
  extent : Extent
  deriving DecidableEq, Repr

/-- A rule and what it builds. -/
structure Production where
  lhs : Nonterminal
  rhs : List Part
  build : Builder rhs (Place → Except BadTag (Meaning lhs))

abbrev a (n : Nonterminal) : Part := .phrase n

abbrev tok (k : Token.Kind) : Part := .token (.kind k)

abbrev ident : Part := tok .ident

abbrev numeral : Part := tok .num

abbrev word (w : String) : Part := .token (.word w)

def nameOf (t : Token) : Name := ⟨t.name, some t.extent⟩

def Block.push (b : Block) (s : Statement) : Block :=
  ⟨b.statements ++ [s], Extent.join b.place s.place⟩

/-- Curries a function with some parameters; the result type goes to the innermost one. -/
def curry (result : Option TypeExpr) (body : Expr) : Param → List Param → Expr
  | p, [] => .lambda p.name p.type result body (Extent.join p.place body.place)
  | p, q :: rest =>
    let inner := curry result body q rest
    .lambda p.name p.type none inner (Extent.join p.place inner.place)

def Head.apply (h : Head) (body : Expr) : Expr :=
  (curry h.result body h.first h.others).withPlace (Extent.join h.place body.place)

def arrows (codomain : TypeExpr) (place : Place) : Param → List Param → TypeExpr
  | p, [] => .arrow p.name (p.type.getD codomain) codomain place
  | p, q :: rest =>
    let inner := arrows codomain place q rest
    .arrow p.name (p.type.getD codomain) inner (Extent.join p.place inner.place)

/-- One call after the other. All but the last end at their argument. -/
def calls (closing : Place) : Expr → Expr → List Expr → Expr
  | f, x, [] => .call f x (Extent.join (Extent.join f.place x.place) closing)
  | f, x, y :: rest => calls closing (.call f x (Extent.join f.place x.place)) y rest

def jumpOf (t : Token) : Jump :=
  match t.kind with
  | .continueWord => .next
  | .breakWord => .stop
  | _ => .ret

/-- Two fields: both sides of a conjunction, in either order, or a witness and a proof. -/
def recordOf (x : Token) (v : Expr) (y : Token) (w : Expr) (p : Place) : Expr :=
  if x.name == "left" && y.name == "right" then .pair v w p
  else if x.name == "right" && y.name == "left" then .pair w v p
  else .record (nameOf x) v (nameOf y) w p

/-- One field: a side of a disjunction. -/
def taggedOf (tag : Token) (v : Expr) (p : Place) : Except BadTag Expr :=
  let inject (fn : String) : Expr := .call (.name ⟨fn, some tag.extent⟩) v p
  if tag.name == "left" then .ok (inject "makeLeft")
  else if tag.name == "right" then .ok (inject "makeRight")
  else .error ⟨tag.extent⟩

open Nonterminal in
def statementProductions : List Production :=
  [⟨code, [a statements], fun b _ => .ok b⟩,
    ⟨statements, [], fun _ => .ok (Block.mk [] none)⟩,
    ⟨statements, [a statements, a statement], fun b s _ => .ok (Block.push b s)⟩,
    ⟨statement, [a statementBody?, tok .semicolon], fun s _ p =>
      .ok (Option.elim s (Statement.empty p) (Statement.withPlace p))⟩,
    ⟨statement, [a switch], fun s _ => .ok (Statement.switch s)⟩,
    ⟨statement, [a function], fun s _ => .ok s⟩,
    ⟨statementBody?, [], fun _ => .ok (none : Option Statement)⟩,
    ⟨statementBody?, [a statementBody], fun s _ => .ok (some s : Option Statement)⟩,
    ⟨statementBody, [a const], fun d _ => .ok (Statement.define d)⟩,
    ⟨statementBody, [a leave], fun s _ => .ok s⟩,
    ⟨statementBody, [a destructure], fun s _ => .ok s⟩,
    ⟨statementBody, [a typedef], fun s _ => .ok s⟩,
    ⟨statementBody, [a genericTypedef], fun s _ => .ok s⟩,
    ⟨statementBody, [a log], fun s _ => .ok s⟩,
    ⟨constWord, [tok .constWord], fun t _ => .ok t⟩,
    ⟨constWord, [tok .letWord], fun t _ => .ok t⟩,
    ⟨const, [a constWord, ident, a assertion?, tok .assign, a expr], fun _ x t _ v p =>
      .ok (Definition.mk (nameOf x) t v p)⟩,
    ⟨assertion?, [], fun _ => .ok (none : Option TypeExpr)⟩,
    ⟨assertion?, [a assertion], fun t _ => .ok (some t : Option TypeExpr)⟩,
    ⟨assertion, [tok .colon, a logic], fun _ t _ => .ok t⟩,
    ⟨leaveWord, [tok .returnWord], fun t _ => .ok t⟩,
    ⟨leaveWord, [tok .continueWord], fun t _ => .ok t⟩,
    ⟨leaveWord, [tok .breakWord], fun t _ => .ok t⟩,
    ⟨leave, [a leaveWord, a expr], fun w v p =>
      .ok (Statement.leave (jumpOf w) (some (Token.extent w)) v p)⟩,
    ⟨rename, [ident], fun x _ => .ok (Rename.mk (nameOf x) none)⟩,
    ⟨rename, [ident, tok .colon, ident], fun x _ y _ =>
      .ok (Rename.mk (nameOf x) (some (nameOf y)))⟩,
    ⟨destructure, [a constWord, tok .leftBrace, a rename, tok .comma, a rename, tok .rightBrace,
      tok .assign, a expr], fun _ _ x _ y _ _ v p => .ok (Statement.destructure x y v p)⟩,
    ⟨typedef, [tok .typeWord, ident, tok .assign, a logic], fun _ x _ t p =>
      .ok (Statement.typedef (nameOf x) t p)⟩,
    ⟨genericTypedef, [tok .typeWord, ident, tok .less, a typeParams, tok .greater, tok .assign,
      a logic], fun _ x _ ps _ _ t p => .ok (Statement.generic (nameOf x) (Several.toList ps) t p)⟩,
    ⟨typeParams, [a typeParam], fun x _ => .ok (Several.mk x [])⟩,
    ⟨typeParams, [a typeParams, tok .comma, a typeParam], fun xs _ x _ => .ok (Several.push xs x)⟩,
    ⟨typeParam, [ident, tok .extendsWord, ident], fun x _ y _ =>
      .ok (TypeParam.mk (nameOf x) (nameOf y))⟩,
    ⟨log, [tok .log, tok .leftParen, a args, tok .rightParen], fun _ _ es _ p =>
      .ok (Statement.log (Several.toList es) p)⟩,
    ⟨args, [a arith], fun x _ => .ok (Several.mk x [])⟩,
    ⟨args, [a args, tok .comma, a arith], fun xs _ x _ => .ok (Several.push xs x)⟩,
    ⟨loop, [tok .forWord, tok .leftParen, a const, tok .semicolon, a const, tok .semicolon,
      a comparison, a increment, tok .rightParen, a block], fun _ _ c _ q _ test step _ b p =>
      .ok (Loop.mk c q (Comparison.left test) (Comparison.right test) (Comparison.place test)
        (Increment.name step) (Increment.place step) b p)⟩,
    ⟨comparison, [ident, tok .less, a arith, tok .semicolon], fun x _ e _ p =>
      .ok (Comparison.mk (nameOf x) e p)⟩,
    ⟨increment, [ident, tok .plusPlus], fun x _ p => .ok (Increment.mk (nameOf x) p)⟩,
    ⟨switchWord, [tok .switchWord], fun t _ => .ok t⟩,
    ⟨switchWord, [word "match"], fun t _ => .ok t⟩,
    ⟨switch, [a switchWord, tok .leftParen, a arith, tok .rightParen, tok .leftBrace, a cases,
      tok .rightBrace], fun _ _ e _ _ cs _ p => .ok (Switch.mk e cs p)⟩,
    ⟨cases, [], fun _ => .ok ([] : List Case)⟩,
    ⟨cases, [a cases, a case], fun cs c _ => .ok (List.append cs [c])⟩,
    ⟨case, [word "case", a caseGuard, tok .colon, a statements], fun _ g _ b p =>
      .ok (Case.mk (Guard.tag g) (Guard.binding g) (Guard.place g) b p)⟩,
    ⟨caseGuard, [tok .leftBrace, ident, tok .colon, ident, tok .rightBrace], fun _ x _ y _ p =>
      .ok (Guard.mk (nameOf x) (nameOf y) p)⟩,
    ⟨block, [tok .leftBrace, a statements, tok .rightBrace], fun _ b _ p =>
      .ok (Block.mk (Block.statements b) p)⟩]

open Nonterminal in
def typeProductions : List Production :=
  [⟨logic, [a implication], fun t _ => .ok t⟩,
    ⟨implication, [tok .leftParen, a typedParams, tok .rightParen, tok .fatArrow, a implication],
      fun _ ps _ _ t p => .ok (arrows t p (Several.first ps) (Several.others ps))⟩,
    ⟨implication, [a disjunction], fun t _ => .ok t⟩,
    ⟨typedParams, [a typedParam], fun x _ => .ok (Several.mk x [])⟩,
    ⟨typedParams, [a typedParams, tok .comma, a typedParam], fun xs _ x _ =>
      .ok (Several.push xs x)⟩,
    ⟨typedParam, [ident, a assertion], fun x t _ => .ok (Param.mk (nameOf x) (some t))⟩,
    ⟨disjunction, [a disjunction, tok .or, a conjunction], fun l _ r p =>
      .ok (TypeExpr.binary .or l r p)⟩,
    ⟨disjunction, [a conjunction], fun t _ => .ok t⟩,
    ⟨conjunction, [a conjunction, tok .and, a equation], fun l _ r p =>
      .ok (TypeExpr.binary .and l r p)⟩,
    ⟨conjunction, [a equation], fun t _ => .ok t⟩,
    ⟨equation, [a typeSum, tok .equal, a typeSum], fun l _ r p =>
      .ok (TypeExpr.binary .equal l r p)⟩,
    ⟨equation, [a typeSum, tok .unequal, a typeSum], fun l _ r p =>
      .ok (TypeExpr.binary .unequal l r p)⟩,
    ⟨equation, [a typeSum], fun t _ => .ok t⟩,
    ⟨typeSum, [a typeSum, tok .plus, a typeProduct], fun l _ r p =>
      .ok (TypeExpr.binary .add l r p)⟩,
    ⟨typeSum, [a typeProduct], fun t _ => .ok t⟩,
    ⟨typeProduct, [a typeProduct, tok .star, a negation], fun l _ r p =>
      .ok (TypeExpr.binary .mul l r p)⟩,
    ⟨typeProduct, [a negation], fun t _ => .ok t⟩,
    ⟨negation, [tok .bang, a negation], fun _ t p => .ok (TypeExpr.not t p)⟩,
    ⟨negation, [a typeAtom], fun t _ => .ok t⟩,
    ⟨typeAtom, [numeral], fun t p => .ok (TypeExpr.numeral (Token.name t) p)⟩,
    ⟨typeAtom, [ident], fun t _ => .ok (TypeExpr.name (nameOf t))⟩,
    ⟨typeAtom, [tok .leftParen, a logic, tok .rightParen], fun _ t _ p =>
      .ok (TypeExpr.withPlace p t)⟩,
    ⟨typeAtom, [tok .leftBrace, ident, a assertion, a fieldEnd, ident, a assertion,
      tok .rightBrace], fun _ x t _ y u _ p => .ok (TypeExpr.record (nameOf x) t (nameOf y) u p)⟩,
    ⟨typeAtom, [ident, tok .less, a logicList, tok .greater], fun f _ ts _ p =>
      .ok (TypeExpr.generic (nameOf f) (Several.toList ts) p)⟩,
    ⟨typeAtom, [ident, tok .leftParen, a logic, tok .rightParen], fun f _ t _ p =>
      .ok (TypeExpr.call (nameOf f) t p)⟩,
    ⟨fieldEnd, [tok .semicolon], fun t _ => .ok t⟩,
    ⟨fieldEnd, [tok .comma], fun t _ => .ok t⟩,
    ⟨logicList, [a logic], fun x _ => .ok (Several.mk x [])⟩,
    ⟨logicList, [a logicList, tok .comma, a logic], fun xs _ x _ => .ok (Several.push xs x)⟩]

open Nonterminal in
def exprProductions : List Production :=
  [⟨expr, [a arith], fun e _ => .ok e⟩,
    ⟨arith, [a ascription], fun e _ => .ok e⟩,
    ⟨ascription, [a ascription, tok .asWord, a logic], fun e _ t p => .ok (Expr.ascribe e t p)⟩,
    ⟨ascription, [a abstraction], fun e _ => .ok e⟩,
    ⟨abstraction, [ident, tok .fatArrow, a lambdaBody], fun x _ e p =>
      .ok (Expr.lambda (nameOf x) none none e p)⟩,
    ⟨abstraction, [a lambda], fun e _ => .ok e⟩,
    ⟨abstraction, [a conjunct], fun e _ => .ok e⟩,
    ⟨lambdaBody, [a abstraction], fun e _ => .ok e⟩,
    ⟨lambdaBody, [a block], fun b _ => .ok (Expr.block b)⟩,
    ⟨param, [ident, a assertion?], fun x t _ => .ok (Param.mk (nameOf x) t)⟩,
    ⟨params, [a param], fun x _ => .ok (Several.mk x [])⟩,
    ⟨params, [a params, tok .comma, a param], fun xs _ x _ => .ok (Several.push xs x)⟩,
    ⟨head, [tok .leftParen, a params, tok .rightParen, a assertion?], fun _ ps _ t p =>
      .ok (Head.mk (Several.first ps) (Several.others ps) t p)⟩,
    ⟨lambda, [a head, tok .fatArrow, a lambdaBody], fun h _ e _ => .ok (Head.apply h e)⟩,
    ⟨function, [tok .functionWord, ident, a head, a block], fun _ x h b p =>
      .ok (Statement.define (Definition.mk (nameOf x) none (Head.apply h (Expr.block b)) p))⟩,
    ⟨conjunct, [a conjunct, tok .and, a sum], fun l _ r p => .ok (Expr.pair l r p)⟩,
    ⟨conjunct, [a sum], fun e _ => .ok e⟩,
    ⟨sum, [a sum, tok .plus, a product], fun l _ r p => .ok (Expr.arith .add l r p)⟩,
    ⟨sum, [a product], fun e _ => .ok e⟩,
    ⟨product, [a product, tok .star, a application], fun l _ r p => .ok (Expr.arith .mul l r p)⟩,
    ⟨product, [a application], fun e _ => .ok e⟩,
    ⟨application, [a application, tok .leftParen, a args, tok .rightParen], fun f _ es close _ =>
      .ok (calls (some (Token.extent close)) f (Several.first es) (Several.others es))⟩,
    ⟨application, [a application, tok .leftParen, tok .rightParen], fun f _ _ p =>
      .ok (Expr.emptyCall f p)⟩,
    ⟨application, [a application, tok .dot, ident], fun e _ x p =>
      .ok (Expr.member e (nameOf x) p)⟩,
    ⟨application, [a inst], fun e _ => .ok e⟩,
    ⟨inst, [ident, tok .less, a logic, tok .greater], fun f _ t _ p =>
      .ok (Expr.generic (nameOf f) t p)⟩,
    ⟨inst, [a atom], fun e _ => .ok e⟩,
    ⟨atom, [numeral], fun t p => .ok (Expr.numeral (Token.name t) p)⟩,
    ⟨atom, [ident], fun t _ => .ok (Expr.name (nameOf t))⟩,
    ⟨atom, [tok .leftParen, a arith, tok .rightParen], fun _ e _ p => .ok (Expr.withPlace p e)⟩,
    ⟨atom, [a record], fun e _ => .ok e⟩,
    ⟨atom, [a loop], fun l _ => .ok (Expr.loop l)⟩,
    ⟨atom, [a switch], fun s _ => .ok (Expr.switch s)⟩,
    ⟨atom, [a tagged], fun e _ => .ok e⟩,
    ⟨record, [tok .leftBrace, ident, tok .colon, a arith, tok .comma, ident, tok .colon, a arith,
      tok .rightBrace], fun _ x _ v _ y _ w _ p => .ok (recordOf x v y w p)⟩,
    ⟨tagged, [tok .leftBrace, ident, tok .colon, a arith, tok .rightBrace], fun _ x _ v _ p =>
      taggedOf x v p⟩]

def productions : List Production := statementProductions ++ typeProductions ++ exprProductions

def productionTable : Array Production := productions.toArray

def Production.rule (p : Production) : Grammar.Rule Nonterminal Token :=
  ⟨p.lhs, p.rhs.map (Grammar.Part.symbol Terminal.label Terminal.accepts)⟩

def grammar : Grammar Nonterminal Token := .ofRules (productions.map Production.rule)

end Peano.Syntax
