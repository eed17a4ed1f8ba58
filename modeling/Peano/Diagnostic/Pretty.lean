import Peano.Diagnostic.Bag
import Peano.Diagnostic.Preview
import Peano.Text.Cluster
import Peano.Text.Style
namespace Peano.Diagnostic
open Source (File FileSet LineCol)
open Text (blanks)

structure PrettyOptions where
  color : Bool := false
  /-- Lines of source before and after the one in question. -/
  context : Nat := 0
  path : Path.Display := {}
  notes : Bool := false
  fixes : Bool := false
  preview : Bool := false
  ambiguous : Text.Ambiguous := .narrow

namespace Pretty

variable (o : PrettyOptions)

def tab : UInt8 := 9

def space : UInt8 := 32

def expandTabs (text : Bytes) : Bytes :=
  text.flatMap fun b => if b = tab then [space, space, space, space] else [b]

def line (parts : List String) : Bytes := Bytes.ofString (String.join parts ++ "\n")

def severityText (s : Severity) : String :=
  let color := if s = .error then Text.Attribute.red else if s = .warning then .yellow else .cyan
  Text.styled o.color [color, .bold] s.heading

def codeText (c : Code) : String := Text.styled o.color [.bold] c.id

def gutterText (s : String) : String := Text.styled o.color [.blue] s

/-- The columns before the mark and those it takes; columns of the span count bytes from one. A
span that goes on in a later line is marked to the end of this one. -/
def markColumns (text : Bytes) (start stop : Nat) (sameLine : Bool) : Nat × Nat :=
  let columns (part : Bytes) : Nat := Text.displayColumns o.ambiguous (expandTabs part)
  let first := min (start - 1) text.length
  let last := if sameLine then min (max (stop - 1) first) text.length else text.length
  (columns (text.take first), max (columns ((text.take last).drop first)) 1)

def markText (width : Nat) : String := "^" ++ String.ofList (List.replicate (width - 1) '~')

def sourceLine (gutter number : Nat) (text : Bytes) : Bytes :=
  let digits := toString number
  Bytes.ofString (gutterText o (blanks (gutter - digits.length) ++ digits) ++ " " ++
    gutterText o "|" ++ " ") ++ expandTabs text ++ [Source.lineFeed]

/-- The line where the span starts, marked, between its neighbours. -/
def snippet (gutter : Nat) (f : File) (start stop : LineCol) : Bytes :=
  let row := start.line.toNat
  let bar := gutterText o "|"
  let rows := (List.range (2 * o.context + 1)).map (row + · - o.context)
  let shown := rows.filter fun n => 1 ≤ n && (n ≤ row || n ≤ f.feeds.length + 1)
  line [blanks gutter, " ", bar] ++ shown.flatMap fun n =>
    let text := f.line n
    sourceLine o gutter n text ++
      if n = row then
        let (before, width) :=
          markColumns o text start.col.toNat stop.col.toNat (start.line == stop.line)
        line [blanks gutter, " ", bar, " ", blanks before,
          Text.styled o.color [.red, .bold] (markText width)]
      else []

def noteLine (gutter : Nat) (f : File) (file : UInt32) (n : Note) : Bytes :=
  let pos := f.position n.span.start
  let place := if n.span.file = file then s!" ({pos.line}:{pos.col})" else ""
  line [blanks gutter, " ", gutterText o "=", Text.styled o.color [.blue, .bold] (" note" ++ place ++ ":"),
    " ", n.message]

def previewLine (gutter : Nat) (sign : String) (text : Bytes) : Bytes :=
  Bytes.ofString (blanks gutter ++ " " ++ sign ++ " ") ++ text ++ [Source.lineFeed]

def editLines (gutter : Nat) (fs : FileSet) (e : Edit) : Bytes :=
  match preview? fs e with
  | none => []
  | some p =>
    p.before.flatMap (previewLine gutter (Text.styled o.color [.red, .bold] "-")) ++
      p.after.flatMap (previewLine gutter (Text.styled o.color [.green] "+"))

def fixLines (gutter : Nat) (fs : FileSet) (fix : Fix) : Bytes :=
  line [blanks gutter, " ", gutterText o "=", Text.styled o.color [.green] " fix:", " ", fix.title] ++
    if o.preview then fix.edits.flatMap (editLines o gutter fs) else []

/-- The message with its first line in the headline and its other lines, if not empty, below. -/
def headline (d : Diagnostic) (path : String) (pos : LineCol) : Bytes :=
  match d.message.splitOn "\n" with
  | first :: rest =>
    line [s!"{path}:{pos.line}:{pos.col}: ", severityText o d.severity, " ", codeText o d.code, ": ", first] ++
      (rest.filter (· != "")).flatMap fun l => line ["    ", l]
  | [] => []

def diagnostic (fs : FileSet) (d : Diagnostic) : Bytes :=
  match fs.get? d.primary.file with
  | none => line [severityText o d.severity, " ", codeText o d.code, ": ", d.message]
  | some f =>
    let start := f.position d.primary.start
    let stop := f.position d.primary.stop
    let gutter := (toString (start.line.toNat + o.context)).length
    headline o d (o.path.show f.path) start ++ snippet o gutter f start stop ++
      (if o.notes then d.notes.flatMap (noteLine o gutter f d.primary.file) else []) ++
      if o.fixes then d.fixes.flatMap (fixLines o gutter fs) else []

end Pretty

def pretty (o : PrettyOptions) (fs : FileSet) (b : Bag) : Bytes :=
  List.intercalate [Source.lineFeed] (b.items.map (Pretty.diagnostic o fs)) ++
    if b.dropped = 0 then []
    else Bytes.ofString ("\n" ++
      Text.styled o.color [.blue, .bold] s!"... {b.dropped} more diagnostic(s) not shown" ++ "\n")

end Peano.Diagnostic
