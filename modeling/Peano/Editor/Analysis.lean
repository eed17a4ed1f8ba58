import Peano.Editor.Position
import Peano.Json.Writer
import Peano.Program.Evaluate
namespace Peano.Editor
open Program (Compiled)
open Judgement (Record)

/-- A value to be logged: known by now, or still being computed. -/
inductive LogState where
  | done (output : Program.LogOutput)
  | stopped
  | running
  deriving DecidableEq, Repr

/-- The last finished analysis of a document. It is watched if the editor wants to hear of logs. -/
structure Snapshot where
  version : Int
  generation : UInt64
  compiled : Compiled
  logs : List LogState
  watched : Bool := false

/-- What is still being computed is stopped. -/
def Snapshot.kill (s : Snapshot) : Snapshot :=
  { s with logs := s.logs.map fun
      | .running => .stopped
      | l => l }

def Position.json (p : Position) : Json := .obj [("line", .int p.line), ("character", .int p.character)]

def Range.json (r : Range) : Json := .obj [("start", r.start.json), ("end", r.stop.json)]

/-- A diagnostic as editors show it; its severity is counted from the worst. -/
structure Marker where
  range : Range := {}
  severity : Nat
  code : String := ""
  message : String
  deriving DecidableEq, Repr

def Marker.json (m : Marker) : Json :=
  .present [("range", some m.range.json), ("severity", some (.nat m.severity)),
    ("code", if m.code == "" then none else some (.str m.code)), ("source", some (.str "peano")),
    ("message", some (.str m.message))]

def markerSeverity (s : Diagnostic.Severity) : Nat :=
  if s = .error then 1 else if s = .warning then 2 else 3

def markerOf (c : Compiled) (d : Diagnostic) : Marker :=
  ⟨spanRange c.file d.primary, markerSeverity d.severity, d.code.id, d.message⟩

/-- The diagnostics of a document, fixes mentioned. When there is no error, an exercise is judged. -/
def markers (c : Compiled) (exercise : Option Program.Exercise) : List Marker :=
  let withFixes (d : Diagnostic) : Marker :=
    { markerOf c d with
      message := d.message ++ String.join (d.fixes.map fun f => "\nQuick fix: " ++ f.title) }
  let (message, solved) := c.verdict exercise
  c.bag.items.map withFixes ++
    if message == "" || c.hasErrors then [] else [{ severity := if solved then 3 else 2, message }]

/-- Whether a record stands around an offset; its ends belong to it. -/
def covers (r : Record) (offset : Nat) : Bool :=
  match r.place with
  | some e => e.start ≤ offset && offset ≤ e.stop
  | none => false

def width (r : Record) : Nat := (r.place.map fun e => e.stop - e.start).getD 0

/-- The narrowest of some records, of equally narrow ones the last. -/
def innermost? (records : List Record) : Option Record :=
  records.foldl (fun best r => match best with
    | none => some r
    | some b => if width r ≤ width b then some r else best) none

/-- The definitions among some records, each with whether a later one hides it. -/
def scopeLines : List Record → List String
  | [] => []
  | r :: rest =>
    match r with
    | .defined _ name type =>
      let hidden := rest.any fun
        | .defined _ other _ => other == name
        | _ => false
      ("- `" ++ name ++ "`: `" ++ type.text ++ "`" ++ if hidden then " (shadowed)" else "") :: scopeLines rest
    | _ => scopeLines rest

structure Hover where
  text : String
  range : Option Range
  deriving DecidableEq, Repr

def Hover.json (h : Hover) : Json :=
  .present [("contents", some (.obj [("kind", .str "markdown"), ("value", .str h.text)])),
    ("range", h.range.map Range.json)]

/-- What is known at a position: the type of the name there, what is required, and what is in scope. -/
def hover? (c : Compiled) (p : Position) : Option Hover :=
  let around := c.records.filter (covers · (fileOffset c.file p))
  let word := innermost? (around.filter fun
    | .hover .. => true
    | _ => false)
  let goal := innermost? (around.filter fun
    | .required .. => true
    | _ => false)
  let wordPart : List String := match word with
    | some (.hover _ type) => ["```peano\n" ++ type.text ++ "\n```"]
    | _ => []
  let goalPart : List String := match goal with
    | some (.required _ type ending) =>
      ["**Goal** (" ++ ending.text ++ "): `" ++ Judgement.requirementText type ++ "`"]
    | _ => []
  let scope := scopeLines around
  let scopePart := if scope.isEmpty then [] else ["**In scope**\n" ++ String.intercalate "\n" scope]
  if word.isNone && goal.isNone then none
  else some {
    text := String.intercalate "\n\n" (wordPart ++ goalPart ++ scopePart)
    range := word.map fun w => spanRange c.file (Program.spanOf c.fileId w.place) }

structure Hint where
  position : Position
  label : String
  deriving DecidableEq, Repr

def Hint.json (h : Hint) : Json :=
  .obj [("position", h.position.json), ("label", .str h.label), ("paddingLeft", .bool true)]

def LogState.label? : LogState → Option String
  | .done l => some ((if l.isError then "✖ " else "→ ") ++ l.text)
  | .stopped => none
  | .running => some "Running..."

/-- Logged values behind the terms they belong to, within a range. -/
def hints (s : Snapshot) (r : Range) : List Hint :=
  (s.compiled.logs.zip s.logs).filterMap fun ((span, _), state) =>
    let position := filePosition s.compiled.file span.stop.toNat
    if position.before r.start || r.stop.before position then none
    else state.label?.map fun label => ⟨position, label⟩

structure TextEdit where
  range : Range
  text : String
  deriving DecidableEq, Repr

def TextEdit.json (e : TextEdit) : Json := .obj [("range", e.range.json), ("newText", .str e.text)]

structure CodeAction where
  title : String
  marker : Marker
  isPreferred : Bool
  edits : List TextEdit
  deriving DecidableEq, Repr

def CodeAction.json (uri : String) (a : CodeAction) : Json :=
  .present [("title", some (.str a.title)), ("kind", some (.str "quickfix")),
    ("diagnostics", some (.arr [a.marker.json])),
    ("isPreferred", if a.isPreferred then some (.bool true) else none),
    ("edit", some (.obj [("changes", .obj [(uri, .arr (a.edits.map TextEdit.json))])]))]

def codeActions (c : Compiled) (r : Range) : List CodeAction :=
  c.bag.items.flatMap fun d =>
    let marker := markerOf c d
    if marker.range.overlaps r then
      d.fixes.map fun f =>
        { title := f.title
          marker
          isPreferred := d.fixes.length = 1
          edits := f.edits.map fun e => ⟨spanRange c.file e.span, e.text⟩ }
    else []

end Peano.Editor
