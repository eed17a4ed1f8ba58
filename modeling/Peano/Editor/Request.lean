import Peano.Editor.Position
import Peano.Json.Record
import Peano.Text.Blank
namespace Peano.Editor
open Json (Members)

variable (j : Json)

/-- A message has an id if it wants an answer, and a method unless it is an answer itself. -/
structure Message where
  id : Option Json := none
  method : String := ""
  params : Option Json := none

def Message.ofJson? : Option Message := do
  let m ← j.members?
  let _ ← m.str "jsonrpc"
  let method ← m.str "method"
  if let some e ← m.record? "error" then
    let _ ← e.int "code"
    let _ ← e.str "message"
  return ⟨m.raw "id", method, m.raw "params"⟩

def readPosition (m : Members) (name : String) : Option Position := do
  let p ← m.record name
  return ⟨← p.int "line", ← p.int "character"⟩

def rangeOf (r : Members) : Option Range := do
  return ⟨← readPosition r "start", ← readPosition r "end"⟩

def readUri (m : Members) : Option String := do
  let d ← m.record "textDocument"
  d.str "uri"

structure OpenParams where
  uri : String
  version : Int
  text : Bytes

def OpenParams.ofJson? : Option OpenParams := do
  let m ← j.members?
  let d ← m.record "textDocument"
  let _ ← d.str "languageId"
  return ⟨← d.str "uri", ← d.int "version", Bytes.ofString (← d.str "text")⟩

def changeOf (m : Members) : Option Change := do
  let range ← match ← m.record? "range" with
    | some r => some <$> rangeOf r
    | none => pure none
  return ⟨range, Bytes.ofString (← m.str "text")⟩

structure ChangeParams where
  uri : String
  version : Int
  changes : List Change

def ChangeParams.ofJson? : Option ChangeParams := do
  let m ← j.members?
  let d ← m.record "textDocument"
  let changes ← (← m.records "contentChanges").mapM changeOf
  return ⟨← d.str "uri", ← d.int "version", changes⟩

def closeUri? : Option String := do
  readUri (← j.members?)

def placeOf? : Option (String × Position) := do
  let m ← j.members?
  return (← readUri m, ← readPosition m "position")

def partOf? : Option (String × Range) := do
  let m ← j.members?
  return (← readUri m, ← rangeOf (← m.record "range"))

/-- What an editor may set. An exercise without name or type is none. -/
structure Settings where
  shortcuts : Option Bool := none
  showLogs : Option Bool := none
  exercise : Option (Option (String × String)) := none

def Settings.ofJson? : Option Settings := do
  let m ← j.members?
  let p ← m.record "peano"
  let shortcuts ← p.bool? "hardcodedImpls"
  let showLogs ← (← p.record "inlayHints").bool? "logs"
  let exercise ← match ← p.record? "exercise" with
    | none => pure none
    | some e =>
      let name := Text.trim (← e.str "var")
      let type := Text.trim (← e.str "type")
      pure (some (if name == "" || type == "" then none else some (name, type)))
  return { shortcuts, showLogs, exercise }

def configuration? : Option (Option Json) := do
  let m ← j.members?
  return m.raw "settings"

/-- What an editor says when it starts: whether it can be asked to refresh hints, and settings. -/
structure InitializeParams where
  refresh : Bool := false
  settings : Option Json := none

def InitializeParams.ofJson? : Option InitializeParams := do
  let m ← j.members?
  let _ ← m.str "rootUri"
  let workspace ← (← m.record "capabilities").record "workspace"
  return ⟨← (← workspace.record "inlayHint").bool "refreshSupport", m.raw "initializationOptions"⟩

end Peano.Editor
