import Peano.Command.Shell
import Peano.Diagnostic.Apply
import Peano.Diagnostic.Report
import Peano.Diagnostic.Short
import Peano.Program.Listing
namespace Peano.Command
open Batch (Checked FileResult)
open Files (Host)
open Source (FileSet)
variable {m : Type → Type} [Monad m] [Host m]

inductive CheckFormat where
  | pretty
  | short
  | json
  | records
  deriving DecidableEq, Repr

def CheckFormat.ofName? : String → Option CheckFormat
  | "pretty" => some pretty
  | "short" => some short
  | "json" => some json
  | "records" => some records
  | _ => none

/-- What is printed about the files of a batch, and how. -/
structure CheckView where
  exercise : Option Program.Exercise
  look : Diagnostic.PrettyOptions
  quiet : Bool
  paints : Bool

namespace CheckView

variable (v : CheckView)

def good (s : String) : String := Text.styled v.paints [.green, .bold] s

def bad (s : String) : String := Text.styled v.paints [.red, .bold] s

/-- A file with a result that is no trouble with the file itself: diagnostics, and how it came out. -/
def prettyChecked (fs : FileSet) (path : String) (c : Checked) : Bytes :=
  let found := if c.bag.size = 0 then [] else Diagnostic.pretty v.look fs c.bag ++ Bytes.ofString "\n"
  let errors := (c.bag.items.filter (·.severity = .error)).length
  let status := if c.hasErrors then v.bad s!"{errors} error(s)"
    else v.good "ok" ++ if c.cached then " (cached)" else ""
  let (verdict, solved) := Program.exerciseVerdict v.exercise c.exercise
  let verdictLine := if verdict == "" || c.hasErrors then ""
    else "  " ++ (if solved then v.good verdict else v.bad verdict) ++ "\n"
  if v.quiet then found else found ++ Bytes.ofString (path ++ ": " ++ status ++ "\n" ++ verdictLine)

def pretty (fs : FileSet) (r : FileResult) : Bytes :=
  match r.checked with
  | none => []
  | some c =>
    if c.file.isNone then
      c.bag.items.flatMap fun d => Bytes.ofString (r.path ++ ": " ++ v.bad d.message ++ "\n")
    else v.prettyChecked fs r.path c

def short (fs : FileSet) (results : List FileResult) : String :=
  let unloaded (r : FileResult) : List String :=
    match r.checked with
    | some c =>
      if c.file.isNone then
        c.bag.items.map fun d => String.intercalate " " [d.severity.label, d.code.id, r.path, d.message] ++ "\n"
      else []
    | none => []
  let found (r : FileResult) : List Diagnostic :=
    match r.checked with
    | some c => if c.file.isNone then [] else c.bag.items
    | none => []
  let text := Diagnostic.short fs v.look.notes (results.flatMap found)
  String.join (results.flatMap unloaded) ++ if text == "" then "" else text ++ "\n"

def membersOf : Json → List (String × Json)
  | .obj fields => fields
  | _ => []

def json (fs : FileSet) (results : List FileResult) : Json :=
  let options : Diagnostic.ReportOptions := { positions := true, notes := v.look.notes, fixes := v.look.fixes }
  .arr (results.filterMap fun r => r.checked.map fun c =>
    let (verdict, solved) := Program.exerciseVerdict v.exercise c.exercise
    .obj ([("path", .str r.path)] ++ (if c.type == "" then [] else [("type", .str c.type)]) ++
      (if c.cached then [("cached", .bool true)] else []) ++
      (if verdict == "" then [] else [("exercise", .obj [("message", .str verdict), ("solved", .bool solved)])]) ++
      membersOf (Diagnostic.report options fs c.bag)))

def records (results : List FileResult) : Json :=
  .arr (results.filterMap fun r => r.checked.map fun c =>
    .obj (("path", .str r.path) :: membersOf (Program.recordsJson c.records none)))

def render (format : CheckFormat) (fs : FileSet) (results : List FileResult) : Bytes :=
  match format with
  | .pretty => results.flatMap (v.pretty fs)
  | .short => Bytes.ofString (v.short fs results)
  | .json => Bytes.ofString (v.json fs results).indented
  | .records => Bytes.ofString (records results).indented

end CheckView

/-- Applies all fixes that go together and tells about them. -/
def applyFixes (fs : FileSet) (results : List FileResult) : Act m Unit := do
  let s := Diagnostic.select fs .all (results.flatMap fun r => (r.checked.map (·.bag.items)).getD [])
  if s.applied.isEmpty then say "no fixes to apply\n"
  else
    let changes := (s.changes? fs).getD []
    for change in changes do writeFile .replace change.path change.content .fixing
    for a in s.applied do say s!"fixed {a.path}:{a.start.line}:{a.start.col}: {a.title}\n"
    for k in s.skipped do say s!"skipped {k.path}: {k.title} ({k.reason.message})\n"
    say s!"applied {s.applied.length} fix(es) in {changes.length} file(s)\n"

def showTimings (t : Timings) : Act m Unit := do
  if !t.phases.isEmpty then sayErr t.summary

/-- The cache that is asked for. Trouble with it is only logged. -/
def openCache (c : Context) : Act m (Option Batch.Cache) := do
  let disabled (why : String) : Act m (Option Batch.Cache) := do
    c.logger.log ⟨Log.warning, "check cache disabled", [("error", .text why)]⟩
    return none
  let prepared (dir : String) : Act m (Option Batch.Cache) := do
    match ← host (Batch.Cache.prepare dir) with
    | .ok cache => return some cache
    | .error t => disabled t.message
  let base := c.environment.get "XDG_CACHE_HOME"
  let home := c.environment.get "HOME"
  if c.config.cacheDir != "" then prepared c.config.cacheDir
  else if base != "" then prepared (Path.join base "peano")
  else if home != "" then prepared (Path.join (Path.join home ".cache") "peano")
  else disabled "$HOME is not defined"

def checkCommand (c : Context) : Act m Unit := do
  let formatName := c.given.text "format" "pretty"
  let some format := CheckFormat.ofName? formatName | throw (.format formatName)
  let _ ← ExceptT.mk (pure (toggleOf "ui" (c.given.text "ui" "auto")))
  let exercise ← ExceptT.mk (pure c.exercise)
  let usesCache := c.config.cacheEnabled && !c.given.switch "no-cache" false && format != .records
  let cache ← if usesCache then openCache c else pure none
  let files ← orFail .file (← host (Files.sources c.given.args))
  if files.isEmpty then throw (.noFiles c.given.args)
  let r ← host (Batch.check { options := c.programOptions, exercise, cache } files)
  for record in r.log do c.logger.log record
  if let some e := r.error then throw (.batch e)
  let fs := r.files.getD .empty
  let look : Diagnostic.PrettyOptions :=
    { c.prettyOptions c.environment.outIsTerminal with
      notes := c.given.switch "with-notes" false
      fixes := c.given.switch "suggest" false }
  let view : CheckView := { exercise, look, quiet := c.isQuiet, paints := c.paints }
  write (view.render format fs r.results)
  if c.given.switch "fix" false then applyFixes fs r.results
  let checked := r.results.filterMap (·.checked)
  if c.showsTimings then showTimings (checked.foldl (fun sum f => sum.merge f.timings) .empty)
  if checked.any (·.hasErrors) then throw .reported

end Peano.Command
