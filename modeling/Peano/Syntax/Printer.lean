import Peano.Syntax.Basic
namespace Peano.Syntax

def braced (s : String) : String := "\x7b" ++ s ++ "\x7d"

mutual

def TypeExpr.source : TypeExpr → String
  | .name n => n.text
  | .numeral digits _ => digits
  | .binary op l r _ => "(" ++ l.source ++ " " ++ op.text ++ " " ++ r.source ++ ")"
  | .arrow x d c _ => "((" ++ x.text ++ ": " ++ d.source ++ ") => " ++ c.source ++ ")"
  | .record x t y u _ => braced (x.text ++ ": " ++ t.source ++ "; " ++ y.text ++ ": " ++ u.source)
  | .not t _ => "!" ++ t.source
  | .call f a _ => f.text ++ "(" ++ a.source ++ ")"
  | .generic f as _ => f.text ++ "<" ++ String.intercalate ", " (typeSources as) ++ ">"

def typeSources : List TypeExpr → List String
  | [] => []
  | t :: rest => t.source :: typeSources rest

end

def annotation : Option TypeExpr → String
  | some t => ": " ++ t.source
  | none => ""

def Rename.source (r : Rename) : String :=
  match r.new with
  | some n => r.field.text ++ ": " ++ n.text
  | none => r.field.text

def TypeParam.source (p : TypeParam) : String := p.name.text ++ " extends " ++ p.constraint.text

mutual

def Expr.source : Expr → String
  | .name n => n.text
  | .numeral digits _ => digits
  | .arith op l r _ => "(" ++ l.source ++ " " ++ op.text ++ " " ++ r.source ++ ")"
  | .lambda x d r b _ =>
    "((" ++ x.text ++ annotation d ++ ")" ++ annotation r ++ " => " ++ b.source ++ ")"
  | .call f a _ => f.source ++ "(" ++ a.source ++ ")"
  | .emptyCall f _ => f.source ++ "()"
  | .generic f a _ => f.text ++ "<" ++ a.source ++ ">"
  | .pair l r _ => braced ("left: " ++ l.source ++ ", right: " ++ r.source)
  | .record x a y b _ => braced (x.text ++ ": " ++ a.source ++ ", " ++ y.text ++ ": " ++ b.source)
  | .ascribe e t _ => "(" ++ e.source ++ " as " ++ t.source ++ ")"
  | .member e f _ => e.source ++ "." ++ f.text
  | .loop l => l.source
  | .switch s => s.source
  | .block b => b.source

def Definition.source : Definition → String
  | ⟨x, t, v, _⟩ => "const " ++ x.text ++ annotation t ++ " = " ++ v.source

def Loop.source : Loop → String
  | ⟨c, p, x, bound, _, y, _, body, _⟩ =>
    "for (" ++ c.source ++ "; " ++ p.source ++ "; " ++ x.text ++ " < " ++ bound.source ++ "; " ++
      y.text ++ "++) " ++ body.source

def Block.source : Block → String
  | ⟨ss, _⟩ => braced (String.join ((statementSources ss).map (" " ++ ·)) ++ " ")

def Switch.source : Switch → String
  | ⟨e, cs, _⟩ => "switch (" ++ e.source ++ ") " ++ braced (String.join (caseSources cs) ++ " ")

def caseSources : List Case → List String
  | [] => []
  | ⟨tag, x, _, ⟨ss, _⟩, _⟩ :: rest =>
    (" case " ++ braced (tag.text ++ ": " ++ x.text) ++ ":" ++
      String.join ((statementSources ss).map (" " ++ ·))) :: caseSources rest

def statementSources : List Statement → List String
  | [] => []
  | s :: rest => s.source :: statementSources rest

def Statement.source : Statement → String
  | .define d => d.source ++ ";"
  | .destructure x y v _ =>
    "const " ++ braced (x.source ++ ", " ++ y.source) ++ " = " ++ v.source ++ ";"
  | .leave j _ v _ => j.text ++ " " ++ v.source ++ ";"
  | .typedef x t _ => "type " ++ x.text ++ " = " ++ t.source ++ ";"
  | .generic x ps t _ =>
    "type " ++ x.text ++ "<" ++ String.intercalate ", " (ps.map TypeParam.source) ++ "> = " ++
      t.source ++ ";"
  | .log as _ => "console.log(" ++ String.intercalate ", " (exprSources as) ++ ");"
  | .empty _ => ";"
  | .switch s => s.source

def exprSources : List Expr → List String
  | [] => []
  | e :: rest => e.source :: exprSources rest

end

/-- A program, a statement on each line. -/
def Block.programSource (b : Block) : String :=
  String.intercalate "\n" (statementSources b.statements)

def Phrase.source : Phrase → String
  | .program b => b.programSource
  | .term e => e.source
  | .type t => t.source

end Peano.Syntax
