import Peano.Diagnostic.Bag
import Peano.Diagnostic.Preview
import Peano.Json.Writer
namespace Peano.Diagnostic
open Source (FileSet Span)

structure ReportOptions where
  /-- Whether lines and columns are given beside offsets. -/
  positions : Bool := false
  path : Path.Display := {}
  /-- How many diagnostics are listed; all if it is not positive. -/
  max : Int := 0
  notes : Bool := false
  fixes : Bool := false
  preview : Bool := false

namespace Report

variable (o : ReportOptions)

/-- A member that is left out when it is zero. -/
def unlessZero (n : UInt32) : Option Json := if n = 0 then none else some (.nat n.toNat)

def unlessEmpty (items : List Json) : Option Json := if items.isEmpty then none else some (.arr items)

def location (fs : FileSet) (s : Span) : Json :=
  let file := fs.get? s.file
  let ends := if o.positions then file.map fun f => (f.position s.start, f.position s.stop) else none
  .present
    [("file", some (.str ((file.map fun f => o.path.show f.path).getD ""))),
      ("start_byte", some (.nat s.start.toNat)), ("end_byte", some (.nat s.stop.toNat)),
      ("start_line", ends.bind fun (a, _) => unlessZero a.line),
      ("start_col", ends.bind fun (a, _) => unlessZero a.col),
      ("end_line", ends.bind fun (_, b) => unlessZero b.line),
      ("end_col", ends.bind fun (_, b) => unlessZero b.col)]

def note (fs : FileSet) (n : Note) : Json :=
  .obj [("message", .str n.message), ("location", location o fs n.span)]

def edit (fs : FileSet) (e : Edit) : Json :=
  let old := ((fs.get? e.span.file).map (·.textUnder e.span)).getD []
  let touched := if o.preview then preview? fs e else none
  .present
    [("location", some (location o fs e.span)), ("new_text", some (.str e.text)),
      ("old_text", if old.isEmpty then none else some (.text old)),
      ("before_lines", touched.bind fun p => unlessEmpty (p.before.map .text)),
      ("after_lines", touched.bind fun p => unlessEmpty (p.after.map .text))]

def fix (fs : FileSet) (f : Fix) : Json :=
  .present [("title", some (.str f.title)), ("edits", unlessEmpty (f.edits.map (edit o fs)))]

def diagnostic (fs : FileSet) (d : Diagnostic) : Json :=
  .present
    [("severity", some (.str d.severity.heading)), ("code", some (.str d.code.id)),
      ("message", some (.str d.message)), ("location", some (location o fs d.primary)),
      ("notes", if o.notes then unlessEmpty (d.notes.map (note o fs)) else none),
      ("fixes", if o.fixes then unlessEmpty (d.fixes.map (fix o fs)) else none)]

end Report

def report (o : ReportOptions) (fs : FileSet) (b : Bag) : Json :=
  let shown := if 0 < o.max then b.items.take o.max.toNat else b.items
  let dropped := b.dropped + (b.size - shown.length)
  .present
    [("diagnostics", some (.arr (shown.map (Report.diagnostic o fs)))),
      ("count", some (.nat shown.length)),
      ("dropped", if dropped = 0 then none else some (.nat dropped))]

end Peano.Diagnostic
