import Peano.Diagnostic.Code
import Peano.Source.Span
namespace Peano

namespace Diagnostic
open Source (Span)

/-- How bad something is; a higher level is worse. Only the first three levels have names. -/
structure Severity where
  level : UInt8
  deriving DecidableEq, Repr, Inhabited

namespace Severity

def info : Severity := ⟨0⟩

def warning : Severity := ⟨1⟩

def error : Severity := ⟨2⟩

def label (s : Severity) : String :=
  if s = info then "info" else if s = warning then "warning" else if s = error then "error" else ""

def heading (s : Severity) : String := if s.label == "" then "UNKNOWN" else s.label.toUpper

end Severity

structure Note where
  span : Span
  message : String
  deriving DecidableEq, Repr

/-- Puts `text` in place of what stands under `span`. -/
structure Edit where
  span : Span
  text : String
  deriving DecidableEq, Repr

structure Fix where
  title : String
  edits : List Edit
  deriving DecidableEq, Repr

def Fix.replacement (span : Span) (text : String) : Fix :=
  ⟨"replace with " ++ text, [⟨span, text⟩]⟩

end Diagnostic

structure Diagnostic where
  severity : Diagnostic.Severity
  code : Diagnostic.Code
  message : String
  primary : Source.Span
  notes : List Diagnostic.Note := []
  fixes : List Diagnostic.Fix := []
  deriving DecidableEq, Repr

namespace Diagnostic

def error (code : Code) (primary : Source.Span) (message : String) : Diagnostic :=
  ⟨.error, code, message, primary, [], []⟩

end Diagnostic
end Peano
