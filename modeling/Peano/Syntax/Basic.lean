import Peano.Source.Span
namespace Peano.Syntax

abbrev Place := Option Source.Extent

structure Name where
  text : String
  place : Place
  deriving DecidableEq, Repr

/-- The number some decimal digits stand for. -/
def digitsValue (digits : String) : Nat :=
  digits.toList.foldl (fun n c => 10 * n + (c.toNat - '0'.toNat)) 0

inductive TypeOp where
  | equal | unequal | and | or | add | mul
  deriving DecidableEq, Repr

def TypeOp.text : TypeOp → String
  | equal => "=="
  | unequal => "!="
  | and => "&&"
  | or => "||"
  | add => "+"
  | mul => "*"

inductive TypeExpr where
  | name (n : Name)
  | numeral (digits : String) (place : Place)
  | binary (op : TypeOp) (left right : TypeExpr) (place : Place)
  | arrow (param : Name) (domain codomain : TypeExpr) (place : Place)
  | record (first : Name) (firstType : TypeExpr) (second : Name) (secondType : TypeExpr) (place : Place)
  | not (negated : TypeExpr) (place : Place)
  | call (fn : Name) (arg : TypeExpr) (place : Place)
  | generic (fn : Name) (args : List TypeExpr) (place : Place)

namespace TypeExpr

def place : TypeExpr → Place
  | name n => n.place
  | numeral _ p | binary _ _ _ p | arrow _ _ _ p | record _ _ _ _ p | not _ p | call _ _ p
  | generic _ _ p => p

def withPlace (p : Place) : TypeExpr → TypeExpr
  | name n => name { n with place := p }
  | numeral d _ => numeral d p
  | binary op l r _ => binary op l r p
  | arrow x d c _ => arrow x d c p
  | record x t y u _ => record x t y u p
  | not t _ => not t p
  | call f a _ => call f a p
  | generic f as _ => generic f as p

end TypeExpr

inductive ArithOp where
  | add | mul
  deriving DecidableEq, Repr

def ArithOp.text : ArithOp → String
  | add => "+"
  | mul => "*"

/-- How a block hands over its value. -/
inductive Jump where
  | ret | next | stop
  deriving DecidableEq, Repr

def Jump.text : Jump → String
  | ret => "return"
  | next => "continue"
  | stop => "break"

/-- A field taken out of a pair, perhaps under another name. -/
structure Rename where
  field : Name
  new : Option Name
  deriving DecidableEq, Repr

def Rename.target (r : Rename) : Name := r.new.getD r.field

structure TypeParam where
  name : Name
  constraint : Name
  deriving DecidableEq, Repr

mutual

inductive Expr where
  | name (n : Name)
  | numeral (digits : String) (place : Place)
  | arith (op : ArithOp) (left right : Expr) (place : Place)
  | lambda (param : Name) (domain result : Option TypeExpr) (body : Expr) (place : Place)
  | call (fn arg : Expr) (place : Place)
  | emptyCall (fn : Expr) (place : Place)
  | generic (fn : Name) (arg : TypeExpr) (place : Place)
  | pair (left right : Expr) (place : Place)
  | record (first : Name) (firstValue : Expr) (second : Name) (secondValue : Expr) (place : Place)
  | ascribe (subject : Expr) (type : TypeExpr) (place : Place)
  | member (subject : Expr) (field : Name) (place : Place)
  | loop (l : Loop)
  | switch (s : Switch)
  | block (b : Block)

structure Definition where
  name : Name
  assertion : Option TypeExpr
  value : Expr
  place : Place

/-- A proof by induction: a counter and a proof with their first values, a bound, a step and a
body. -/
structure Loop where
  counter : Definition
  proof : Definition
  compared : Name
  bound : Expr
  comparisonPlace : Place
  stepped : Name
  stepPlace : Place
  body : Block
  place : Place

structure Block where
  statements : List Statement
  place : Place

structure Switch where
  subject : Expr
  cases : List Case
  place : Place

structure Case where
  tag : Name
  binding : Name
  guardPlace : Place
  body : Block
  place : Place

inductive Statement where
  | define (d : Definition)
  | destructure (first second : Rename) (value : Expr) (place : Place)
  | leave (jump : Jump) (jumpPlace : Place) (value : Expr) (place : Place)
  | typedef (name : Name) (type : TypeExpr) (place : Place)
  | generic (name : Name) (params : List TypeParam) (type : TypeExpr) (place : Place)
  | log (args : List Expr) (place : Place)
  | empty (place : Place)
  | switch (s : Switch)

end

namespace Expr

def place : Expr → Place
  | name n => n.place
  | numeral _ p | arith _ _ _ p | lambda _ _ _ _ p | call _ _ p | emptyCall _ p | generic _ _ p
  | pair _ _ p | record _ _ _ _ p | ascribe _ _ p | member _ _ p => p
  | loop l => l.place
  | switch s => s.place
  | block b => b.place

def withPlace (p : Place) : Expr → Expr
  | name n => name { n with place := p }
  | numeral d _ => numeral d p
  | arith op l r _ => arith op l r p
  | lambda x d r b _ => lambda x d r b p
  | call f a _ => call f a p
  | emptyCall f _ => emptyCall f p
  | generic f a _ => generic f a p
  | pair l r _ => pair l r p
  | record x a y b _ => record x a y b p
  | ascribe e t _ => ascribe e t p
  | member e f _ => member e f p
  | loop l => loop { l with place := p }
  | switch s => switch { s with place := p }
  | block b => block { b with place := p }

end Expr

namespace Statement

def place : Statement → Place
  | define d => d.place
  | destructure _ _ _ p | leave _ _ _ p | typedef _ _ p | generic _ _ _ p | log _ p | empty p => p
  | switch s => s.place

def withPlace (p : Place) : Statement → Statement
  | define d => define { d with place := p }
  | destructure x y v _ => destructure x y v p
  | leave j q v _ => leave j q v p
  | typedef x t _ => typedef x t p
  | generic x ps t _ => generic x ps t p
  | log as _ => log as p
  | empty _ => empty p
  | switch s => switch { s with place := p }

end Statement

/-- What a text may be read as. -/
inductive Phrase where
  | program (b : Block)
  | term (e : Expr)
  | type (t : TypeExpr)

end Peano.Syntax
