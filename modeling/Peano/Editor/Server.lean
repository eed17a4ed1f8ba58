import Peano.Editor.Analysis
import Peano.Editor.Framing
import Peano.Editor.Request
import Peano.Editor.Uri
import Peano.Json.Reader
import Peano.Program.Session
import Peano.Version
namespace Peano.Editor

/-- What the server sends. After something fatal it cannot go on. -/
inductive Outgoing where
  | result (id : Option Json) (value : Json)
  | error (id : Option Json) (code : Int) (message : String)
  | publish (uri : String) (version : Option Int) (markers : List Marker)
  | refresh (id : Nat)
  | fatal (message : String)

namespace Outgoing

def version : String × Json := ("jsonrpc", .str "2.0")

def json : Outgoing → Json
  | result id value => .obj [("id", id.getD .null), version, ("result", value)]
  | error id code message =>
    .obj [("error", .obj [("code", .int code), ("message", .str message)]), ("id", id.getD .null), version]
  | publish uri version? markers =>
    .obj [version, ("method", .str "textDocument/publishDiagnostics"),
      ("params", .present [("uri", some (.str uri)), ("version", version?.map .int),
        ("diagnostics", some (.arr (markers.map Marker.json)))])]
  | refresh id => .obj [("id", .nat id), version, ("method", .str "workspace/inlayHint/refresh")]
  | fatal message => .str message

def payload (o : Outgoing) : Bytes := Bytes.ofString (o.json.compactWith true)

end Outgoing

/-- An open document. Its edits are numbered, and the analysis of the last one may be due. -/
structure Document where
  uri : String
  text : Bytes
  version : Int
  session : Program.Session
  edit : Nat := 0
  isDue : Bool := false
  snapshot : Option Snapshot := none

namespace Document

/-- Nothing is due any more, and what is being computed is stopped. -/
def stop (d : Document) : Document :=
  { d with
    edit := d.edit + 1
    isDue := false
    session := d.session.stop
    snapshot := d.snapshot.map Snapshot.kill }

def schedule (d : Document) : Document := { d with edit := d.edit + 1, isDue := true }

end Document

structure Server where
  options : Program.Options := {}
  exercise : Option Program.Exercise := none
  cwd : String := "/"
  showLogs : Bool := true
  canRefresh : Bool := false
  isDown : Bool := false
  requests : Nat := 0
  documents : List Document := []

inductive Leaving where
  | exit
  | withoutShutdown
  deriving DecidableEq, Repr

def Leaving.message : Leaving → String
  | exit => "lsp exit"
  | withoutShutdown => "lsp exit without shutdown"

namespace Server

variable (s : Server)

def find? (uri : String) : Option Document := s.documents.find? (·.uri == uri)

/-- Puts a document in place of the one with the same URI. -/
def put (d : Document) : Server :=
  { s with documents := s.documents.filter (·.uri != d.uri) ++ [d] }

def snapshot? (uri : String) : Option Snapshot :=
  (s.find? (Uri.canonical s.cwd uri)).bind (·.snapshot)

def newSession (uri : String) : Program.Session :=
  { options := s.options, name := Uri.documentName s.cwd uri }

def stopAll : Server := { s with documents := s.documents.map Document.stop }

def openDocument (p : OpenParams) : Server :=
  let uri := Uri.canonical s.cwd p.uri
  if uri == "" then s
  else
    let d : Document := { uri, text := p.text, version := p.version, session := s.newSession uri }
    s.put d.schedule

def changeDocument (p : ChangeParams) : Server :=
  match s.find? (Uri.canonical s.cwd p.uri) with
  | none => s
  | some d => s.put { d with text := applyChanges d.text p.changes, version := p.version }.schedule

def closeDocument (uri : String) : Server × List Outgoing :=
  let uri := Uri.canonical s.cwd uri
  match s.find? uri with
  | none => (s, [])
  | some _ => ({ s with documents := s.documents.filter (·.uri != uri) }, [.publish uri none []])

def reanalyzeAll : Server :=
  { s with documents := s.documents.map fun d =>
      { d.stop with session := s.newSession d.uri }.schedule }

/-- Takes over settings, and tells whether analyses depend on what has changed. -/
def configure (given : Settings) : Server × Bool :=
  let shortcuts := given.shortcuts.getD s.options.shortcuts
  let exercise := match given.exercise with
    | none => s.exercise
    | some e => e.map fun (name, type) => ⟨name, type⟩
  ({ s with
      showLogs := given.showLogs.getD s.showLogs
      options := { s.options with shortcuts }
      exercise },
    shortcuts != s.options.shortcuts || exercise != s.exercise)

/-- Takes over settings if they can be understood. -/
def configureBy (settings : Option Json) : Server × Bool :=
  match settings.bind Settings.ofJson? with
  | some given => s.configure given
  | none => (s, false)

/-- Asks the editor to look at the logs again. -/
def askRefresh : Server × List Outgoing :=
  ({ s with requests := s.requests + 1 }, [.refresh (s.requests + 1)])

/-- How long logs are computed before they count as running. -/
def patience : Limit := ⟨some 200000, .killed⟩

def startLogs (c : Program.Compiled) (limit : Limit) : List LogState :=
  (c.tryLogs limit).map fun (span, outcome) => match outcome with
    | .error (.stopped _) => .running
    | outcome => .done (Program.logOutput span outcome)

/-- Takes in a finished analysis and tells of it. -/
def publishAnalysis (d : Document) (generation : UInt64) (c : Program.Compiled) (logs : List LogState) :
    Server × List Outgoing :=
  let watched := s.canRefresh && logs.contains .running
  let s := s.put { d with
    isDue := false
    snapshot := some ⟨d.version, generation, c, logs, watched⟩ }
  let published := Outgoing.publish d.uri (some d.version) (markers c s.exercise)
  let isSeen := match logs with
    | [] | .running :: _ => false
    | _ => true
  if s.canRefresh && isSeen then
    let (s, refresh) := s.askRefresh
    (s, published :: refresh)
  else (s, [published])

/-- Makes the analysis of an edit, unless there was another edit since. The limit says how long to wait
for logs. -/
def analyze (limit : Limit) (uri : String) (edit : Nat) : Server × List Outgoing :=
  match s.find? uri with
  | none => (s, [])
  | some d =>
    if d.edit ≠ edit then (s, [])
    else
      let (session, turn) := d.session.begin
      let (session, result) := session.finish turn d.text s.exercise
      match result with
      | .ok c => s.publishAnalysis { d with session } turn.generation c (startLogs c limit)
      | .error (.exercise e why) =>
        let complaint : Marker := { severity := 1, message := (Program.Error.exercise e why).message }
        (s.put { d with session, isDue := false, snapshot := d.snapshot.map Snapshot.kill },
          [.publish uri (some d.version) [complaint]])
      | .error (.incomparable why) => (s, [.fatal why.message])

def analyzeDue (limit : Limit) : Server × List Outgoing :=
  let due := (s.documents.filter (·.isDue)).mergeSort fun a b => a.uri ≤ b.uri
  due.foldl (fun (s, sent) d =>
    let (s, more) := s.analyze limit d.uri d.edit
    (s, sent ++ more)) (s, [])

/-- Tells of logs that have been stopped in the meantime. -/
def awaitStopped : Server × List Outgoing :=
  s.documents.foldl (fun (s, sent) d => match d.snapshot with
    | some shot =>
      if shot.watched && !shot.logs.contains .running then
        let (s, more) := (s.put { d with snapshot := some { shot with watched := false } }).askRefresh
        (s, sent ++ more)
      else (s, sent)
    | none => (s, sent)) (s, [])

def invalidParams (id : Option Json) : Outgoing := .error id (-32602) "invalid params"

def capabilities : Json :=
  .obj [("capabilities", .obj [
      ("textDocumentSync", .obj [("openClose", .bool true), ("change", .nat 2)]),
      ("hoverProvider", .bool true), ("inlayHintProvider", .obj []),
      ("codeActionProvider", .obj [("codeActionKinds", .strs ["quickfix"])])]),
    ("serverInfo", .obj [("name", .str "peano"), ("version", .str Version.current)])]

def greet (m : Message) : Server × List Outgoing :=
  match m.params.elim (some {}) InitializeParams.ofJson? with
  | none => (s, [invalidParams m.id])
  | some p => (({ s with canRefresh := p.refresh }.configureBy p.settings).1, [.result m.id capabilities])

def hoverAnswer (m : Message) : Outgoing :=
  match m.params.elim (some ("", {})) placeOf? with
  | none => invalidParams m.id
  | some (uri, p) =>
    .result m.id (((s.snapshot? uri).bind fun shot => hover? shot.compiled p).elim .null Hover.json)

def hintsAnswer (m : Message) : Outgoing :=
  match m.params.elim (some ("", {})) partOf? with
  | none => invalidParams m.id
  | some (uri, r) =>
    let found := if s.showLogs then (s.snapshot? uri).elim [] (hints · r) else []
    .result m.id (.arr (found.map Hint.json))

def actionsAnswer (m : Message) : Outgoing :=
  match m.params.bind partOf? with
  | none => invalidParams m.id
  | some (uri, r) =>
    let found := (s.snapshot? uri).elim [] fun shot => codeActions shot.compiled r
    .result m.id (.arr (found.map (CodeAction.json (Uri.canonical s.cwd uri))))

def handleUp (m : Message) : Server × List Outgoing :=
  let keep (s : Server) : Server × List Outgoing := (s, [])
  match m.method with
  | "initialize" => s.greet m
  | "initialized" | "$/setTrace" | "$/cancelRequest" | "textDocument/didSave" => keep s
  | "shutdown" => ({ s with isDown := true }.stopAll, [.result m.id .null])
  | "workspace/didChangeConfiguration" =>
    match m.params.bind configuration? with
    | none => keep s
    | some settings =>
      let (s, changed) := s.configureBy settings
      keep (if changed then s.reanalyzeAll else s)
  | "textDocument/didOpen" => keep ((m.params.bind OpenParams.ofJson?).elim s s.openDocument)
  | "textDocument/didChange" => keep ((m.params.bind ChangeParams.ofJson?).elim s s.changeDocument)
  | "textDocument/didClose" => (m.params.bind closeUri?).elim (keep s) s.closeDocument
  | "textDocument/hover" => (s, [s.hoverAnswer m])
  | "textDocument/inlayHint" => (s, [s.hintsAnswer m])
  | "textDocument/codeAction" => (s, [s.actionsAnswer m])
  | _ => (s, if m.id.isSome then [.error m.id (-32601) "method not found"] else [])

/-- Takes in a message, and tells whether the server ends then. -/
def handle (m : Message) : Server × List Outgoing × Option Leaving :=
  if m.method = "exit" then (s, [], some (if s.isDown then .exit else .withoutShutdown))
  else if s.isDown then
    (s, if m.id.isSome then [.error m.id (-32600) "server is shutting down"] else [], none)
  else
    let (s, sent) := s.handleUp m
    (s, sent, none)

end Server
end Peano.Editor
