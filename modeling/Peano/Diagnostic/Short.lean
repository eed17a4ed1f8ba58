import Peano.Diagnostic.Basic
import Peano.Source.File
import Peano.Text.Blank
namespace Peano.Diagnostic
open Source (FileSet Span)

structure ShortLine where
  severity : String
  code : String
  path : String
  line : UInt32
  col : UInt32
  message : String

namespace ShortLine

def text (l : ShortLine) : String :=
  s!"{l.severity} {l.code} {l.path}:{l.line}:{l.col} {l.message}"

def before (a b : ShortLine) : Bool :=
  if a.path ≠ b.path then a.path < b.path
  else if a.line ≠ b.line then a.line < b.line
  else a.col ≤ b.col

def make? (fs : FileSet) (severity : String) (code : Code) (span : Span) (message : String) :
    Option ShortLine :=
  (fs.get? span.file).map fun f =>
    let pos := f.position span.start
    ⟨severity, code.id, f.path, pos.line, pos.col, Text.trim (message.replace "\n" " ")⟩

end ShortLine

def shortLines (fs : FileSet) (withNotes : Bool) (d : Diagnostic) : List ShortLine :=
  let main := ShortLine.make? fs d.severity.label d.code d.primary d.message
  let notes := d.notes.filterMap fun n => ShortLine.make? fs "note" d.code n.span n.message
  main.toList ++ if withNotes then notes else []

def short (fs : FileSet) (withNotes : Bool) (ds : List Diagnostic) : String :=
  let lines := (ds.flatMap (shortLines fs withNotes)).mergeSort ShortLine.before
  String.intercalate "\n" (lines.map ShortLine.text)

end Peano.Diagnostic
