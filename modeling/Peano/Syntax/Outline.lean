import Peano.Json.Basic
import Peano.Source.File
import Peano.Syntax.Basic
namespace Peano.Syntax

inductive Attribute where
  | text (s : String)
  | flag (b : Bool)

inductive Outline where
  | node (kind field : String) (place : Place) (attributes : List (String × Attribute))
    (children : List Outline)

namespace Outline

variable (file : Option Source.File)

def leaf (kind field : String) (place : Place) (name value : String) : Outline :=
  .node kind field place [(name, .text value)] []

def numbered (field : String) (i : Nat) : String := s!"{field}[{i}]"

def ofName (field : String) (n : Name) : Outline := leaf "Ident" field n.place "Name" n.text

mutual

def ofType (field : String) : TypeExpr → Outline
  | .name n => ofName field n
  | .numeral digits p => leaf "Num" field p "Text" digits
  | .binary op l r p =>
    .node "TBinary" field p [("Op", .text op.text)] [ofType "Left" l, ofType "Right" r]
  | .arrow x d c p => .node "TArrow" field p [] [ofName "Name" x, ofType "Dom" d, ofType "Cod" c]
  | .record x t y u p =>
    .node "TStruct" field p []
      [.node "TField" (numbered "Fields" 0) none [] [ofName "Name" x, ofType "Type" t],
        .node "TField" (numbered "Fields" 1) none [] [ofName "Name" y, ofType "Type" u]]
  | .not t p => .node "TNot" field p [] [ofType "X" t]
  | .call f a p => .node "TCall" field p [] [ofName "Fn" f, ofType "Arg" a]
  | .generic f as p => .node "TGeneric" field p [] (ofName "Name" f :: ofTypes 0 as)

def ofTypes (i : Nat) : List TypeExpr → List Outline
  | [] => []
  | t :: rest => ofType (numbered "Args" i) t :: ofTypes (i + 1) rest

end

def ofType? (field : String) (t : Option TypeExpr) : List Outline := (t.map (ofType field)).toList

def ofRename (i : Nat) (r : Rename) : Outline :=
  .node "Rename" (numbered "Names" i) none []
    (ofName "From" r.field :: (r.new.map (ofName "To")).toList)

def ofTypeParam (i : Nat) (p : TypeParam) : Outline :=
  .node "TypeParam" (numbered "Params" i) none []
    [ofName "Name" p.name, ofName "Constraint" p.constraint]

mutual

def ofExpr (field : String) : Expr → Outline
  | .name n => ofName field n
  | .numeral digits p => leaf "Num" field p "Text" digits
  | .arith op l r p =>
    .node "Binary" field p [("Op", .text op.text)] [ofExpr "Left" l, ofExpr "Right" r]
  | .lambda x d r b p =>
    .node "Lambda" field p []
      (ofName "Param" x :: ofType? "ParamType" d ++ ofType? "Assertion" r ++ [ofExpr "Body" b])
  | .call f a p => .node "Call" field p [] [ofExpr "Fn" f, ofExpr "Arg" a]
  | .emptyCall f p => .node "Call" field p [] [ofExpr "Fn" f]
  | .generic f a p => .node "GenericCall" field p [] [ofName "Name" f, ofType "Arg" a]
  | .pair l r p => .node "Pair" field p [] [ofExpr "Left" l, ofExpr "Right" r]
  | .record x a y b p =>
    .node "Struct" field p []
      [.node "Field" (numbered "Fields" 0) none [] [ofName "Name" x, ofExpr "Value" a],
        .node "Field" (numbered "Fields" 1) none [] [ofName "Name" y, ofExpr "Value" b]]
  | .ascribe e t p => .node "As" field p [] [ofExpr "X" e, ofType "Type" t]
  | .member e f p => .node "Member" field p [] [ofExpr "X" e, ofName "Name" f]
  | .loop l => ofLoop field l
  | .switch s => ofSwitch field s
  | .block b => ofBlock field false b

def ofDefinition (field : String) : Definition → Outline
  | ⟨x, t, v, p⟩ =>
    .node "Const" field p [] (ofName "Name" x :: ofType? "Assertion" t ++ [ofExpr "Value" v])

def ofLoop (field : String) : Loop → Outline
  | ⟨c, q, x, bound, cp, y, sp, body, p⟩ =>
    .node "For" field p []
      [ofDefinition "Iter" c, ofDefinition "Proof" q,
        .node "Compare" "Cond" cp [] [ofName "Left" x, ofExpr "Right" bound],
        .node "Increment" "Step" sp [] [ofName "Var" y], ofBlock "Body" false body]

def ofBlock (field : String) (isProgram : Bool) : Block → Outline
  | ⟨ss, p⟩ => .node "Block" field p [("TopLevel", .flag isProgram)] (ofStatements 0 ss)

def ofSwitch (field : String) : Switch → Outline
  | ⟨e, cs, p⟩ => .node "Switch" field p [] (ofExpr "Value" e :: ofCases 0 cs)

def ofCases (i : Nat) : List Case → List Outline
  | [] => []
  | ⟨tag, x, gp, body, p⟩ :: rest =>
    .node "Case" (numbered "Cases" i) p []
      [.node "CaseGuard" "Guard" gp [] [ofName "Tag" tag, ofName "Binding" x],
        ofBlock "Body" false body] :: ofCases (i + 1) rest

def ofStatements (i : Nat) : List Statement → List Outline
  | [] => []
  | s :: rest => ofStatement (numbered "Stmts" i) s :: ofStatements (i + 1) rest

def ofStatement (field : String) : Statement → Outline
  | .define d => ofDefinition field d
  | .destructure x y v p =>
    .node "MultiConst" field p [] [ofRename 0 x, ofRename 1 y, ofExpr "Value" v]
  | .leave j _ v p => .node "Return" field p [("Kind", .text j.text)] [ofExpr "Value" v]
  | .typedef x t p => .node "Typedef" field p [] [ofName "Name" x, ofType "Value" t]
  | .generic x ps t p =>
    .node "GenericTypedef" field p []
      (ofName "Name" x :: ps.mapIdx ofTypeParam ++ [ofType "Value" t])
  | .log as p => .node "Log" field p [] (ofExprs 0 as)
  | .empty p => .node "Empty" field p [] []
  | .switch s => ofSwitch field s

def ofExprs (i : Nat) : List Expr → List Outline
  | [] => []
  | e :: rest => ofExpr (numbered "Args" i) e :: ofExprs (i + 1) rest

end

def ofPhrase : Phrase → Outline
  | .program b => ofBlock "" true b
  | .term e => ofExpr "" e
  | .type t => ofType "" t

def Attribute.json : Attribute → Json
  | .text s => .str s
  | .flag b => .bool b

def Attribute.shown : Attribute → String
  | .text s => s
  | .flag b => if b then "true" else "false"

def extentJson (e : Source.Extent) : Json := .obj [("start", .nat e.start), ("end", .nat e.stop)]

mutual

def json : Outline → Json
  | .node kind field p attributes children =>
    .present [("type", some (.str kind)), ("field", if field == "" then none else some (.str field)),
      ("span", p.map extentJson),
      ("fields", if attributes.isEmpty then none
        else some (.obj (attributes.map fun (k, v) => (k, Attribute.json v)))),
      ("children", if children.isEmpty then none else some (.arr (jsons children)))]

def jsons : List Outline → List Json
  | [] => []
  | o :: rest => json o :: jsons rest

end

/-- A place by lines and columns, or by offsets when the file is not known. -/
def showPlace (e : Source.Extent) : String :=
  match file with
  | some f =>
    let a := f.position e.start.toUInt32
    let b := f.position e.stop.toUInt32
    s!"{a.line}:{a.col}-{b.line}:{b.col}"
  | none => s!"span({e.start}-{e.stop})"

def heading (kind field : String) (p : Place) (attributes : List (String × Attribute)) : String :=
  let shown := attributes.map fun (k, v) => k ++ "=" ++ Attribute.shown v
  (if field == "" then "" else field ++ ": ") ++ kind ++
    (if shown.isEmpty then "" else " [" ++ String.intercalate " " shown ++ "]") ++
    match p with
    | some e => " (span: " ++ showPlace file e ++ ")"
    | none => ""

mutual

/-- The lines of a subtree whose first line starts with `first` and whose other lines start with
`margin`. -/
def lines (file : Option Source.File) (first margin : String) : Outline → List String
  | .node kind field p attributes children =>
    (first ++ heading file kind field p attributes) :: childLines file margin children

def childLines (file : Option Source.File) (margin : String) : List Outline → List String
  | [] => []
  | [o] => lines file (margin ++ "└─ ") (margin ++ "   ") o
  | o :: next :: rest =>
    lines file (margin ++ "├─ ") (margin ++ "│  ") o ++ childLines file margin (next :: rest)

end

def text (o : Outline) : String :=
  String.join ((lines file "" "" o).map (· ++ "\n"))

end Outline
end Peano.Syntax
