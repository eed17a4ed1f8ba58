import Peano.Command.Check
import Peano.Command.Help
import Peano.Syntax.Outline
import Peano.Token.Listing
namespace Peano.Command
open Diagnostic (Bag)
open Files (Host)
variable {m : Type → Type} [Monad m] [Host m]

def firstProgram : String :=
  "// Every natural number is equal to itself.\nconst refl: (x: N) => x == x = x => eqRefl(x);\n\n" ++
  "console.log(refl(2));\n"

/-- Writes a manifest and, unless there is one, a first program. The paths of what was written. -/
def startProject (dir : String) : Act m (List String) := do
  let dir := Path.absolute (← host Host.currentDir) dir
  match ← host (Host.kind true dir) with
  | .ok .directory | .error _ => pure ()
  | .ok _ => throw (.noDirectory dir)
  orFail .noManifest (← host (Files.makeDirs dir))
  let manifest := Path.join dir Config.fileName
  match ← host (Host.write .fresh manifest (Bytes.ofString Config.defaultManifest)) with
  | .ok () => pure ()
  | .error .taken => throw (.initialized manifest)
  | .error fault => throw (.noManifest ⟨"open", manifest, fault⟩)
  let program := Path.join dir "main.peano"
  match ← host (Host.write .fresh program (Bytes.ofString firstProgram)) with
  | .ok () => return [manifest, program]
  | .error .taken => return [manifest]
  | .error fault => throw (.file ⟨"open", program, fault⟩)

def initCommand (c : Context) : Act m Unit := do
  let created ← startProject (c.given.args.headD ".")
  if !c.isQuiet then
    for path in created do say s!"created {path}\n"

/-- So many steps of evaluation fit into a duration. -/
def stepsWithin (nanoseconds : Int) : Nat := nanoseconds.toNat / 1000 + 1

def limitFor (timeout : Int) : Limit :=
  if timeout ≤ 0 then .unlimited else ⟨some (stepsWithin timeout), .killed⟩

/-- What is shown in place of a value. -/
def errorText (timeout : Int) (text : String) : String :=
  if 0 < timeout && text.startsWith Stop.killed.message then "timed out after " ++ Duration.text timeout else text

def runCommand (c : Context) (path : String) : Act m Unit := do
  let timeout := c.given.duration "timeout"
  if timeout < 0 then throw .negativeTimeout
  let (fs, file) ← loadOne path .file
  match ← host (Batch.compileTimed 0 file c.programOptions none) with
  | .error e => throw (.program e)
  | .ok t =>
    for record in t.log do c.logger.log record
    let options := { c.prettyOptions c.environment.errIsTerminal with fixes := true }
    if t.compiled.bag.size ≠ 0 then writeErr (Diagnostic.pretty options fs t.compiled.bag)
    if t.compiled.hasErrors then throw .reported
    let begun ← host Host.nanoseconds
    let outputs := t.compiled.runLogs (limitFor timeout)
    let ended ← host Host.nanoseconds
    for l in outputs do
      let p := file.position l.span.start
      let text := if l.isError then Text.styled c.paints [.red] (errorText timeout l.text) else l.text
      let elapsed := Text.styled c.paints [.faint] ("(" ++ Duration.brief (ended - begun) ++ ")")
      say s!"{p.line}:{p.col}: {text} {elapsed}\n"
    if c.given.switch "show-type" false then say s!"type: {t.compiled.type}\n"
    if c.showsTimings then showTimings t.timings
    if outputs.any (·.isError) then throw .reported

abbrev Talk (m : Type → Type) := Logger → Editor.Server → Act m Unit

/-- What is logged about a payload that is no message. -/
def rejection (payload : Bytes) : Log.Record :=
  ⟨Log.warning, "failed to parse message", [("component", .text "lsp"), ("err", .text (Editor.complaint payload))]⟩

/-- How a conversation ends for the command. -/
def conclude : Editor.Hangup → Act m Unit
  | .closed | .left .exit => pure ()
  | .left .withoutShutdown => throw (.hangup .withoutShutdown)
  | .broken e => throw (.broken e)

/-- A talk in which the editor has said everything beforehand. -/
def talkOver (input : Bytes) : Talk m := fun l s => do
  let c := Editor.serve s input
  for payload in c.rejected do l.log (rejection payload)
  write (c.sent.flatMap fun o => Editor.writeMessage o.payload)
  conclude c.ending

def serveCommand (c : Context) (talk : Talk m) : Act m Unit := do
  let exercise ← ExceptT.mk (pure c.exercise)
  let options := { c.programOptions with shortcuts := c.config.shortcuts }
  talk c.logger { options, exercise, cwd := ← host Host.currentDir }

def tokenizeCommand (c : Context) (path : String) : Act m Unit := do
  let format := c.given.text "format" "pretty"
  if format != "pretty" && format != "json" then throw (.format format)
  let (fs, file) ← loadOne path .tokenizing
  let bag := (Bag.make c.programOptions.maxDiagnostics).addAll (Syntax.lexicalDiagnostics 0 file.content)
  let tokens := Token.tokenize file.content
  if bag.size ≠ 0 then writeErr (Diagnostic.pretty (c.prettyOptions c.environment.errIsTerminal) fs bag)
  say (if format == "json" then Token.listingJson file tokens else Token.listing file tokens)
  if bag.hasErrors then throw .reported

def parseCommand (c : Context) (path : String) : Act m Unit := do
  let format := c.given.text "format" "source"
  let startName := c.given.text "start" "code"
  let some start := Syntax.Start.ofName? startName | throw (.start startName)
  if format != "source" && format != "json" && format != "tree" then throw (.format format)
  let (fs, file) ← loadOne path .parsing
  match Syntax.read start file.content with
  | .error e =>
    let bag := (Bag.make c.programOptions.maxDiagnostics).add (e.diagnostic 0)
    writeErr (Diagnostic.pretty (c.prettyOptions c.environment.errIsTerminal) fs bag)
    throw .reported
  | .ok phrase =>
    match format with
    | "json" => say (Syntax.Outline.ofPhrase phrase).json.indented
    | "tree" => say ((Syntax.Outline.ofPhrase phrase).text (some file))
    | _ => say (phrase.source ++ "\n")

def versionCommand (c : Context) : Act m Unit := do
  let format := c.given.text "format" "pretty"
  match format.toLower with
  | "json" =>
    say (Json.obj [("tool", .str "peano"), ("tagline", .str Version.tagline), ("version", .str Version.current),
      ("go_version", .str Version.toolchain)]).indented
  | "pretty" =>
    say s!"peano {Version.pretty c.paints Version.current}: {Version.tagline}\ngo:     {Version.toolchain}\n"
  | _ => throw (.versionFormat format)

structure Call where
  command : Command
  given : Given
  deriving DecidableEq, Repr

def callOf (c : Command) (args : List String) : Except Complaint Call :=
  match readFlags (c.knownFlags ++ c.askingFlags) {} none args with
  | .error e => .error (.flag e)
  | .ok given => .ok ⟨c, given⟩

/-- A word between backquotes, unless it holds what may not stand there. -/
def backquoted (s : String) : String :=
  let isPlain (c : Char) : Bool := (c == '\t' || 0x20 ≤ c.toNat) && c != '\x60' && c != '\x7f' && c != '\ufeff'
  if s.toList.all isPlain then "\x60" ++ s ++ "\x60" else Text.quote s

def helpCommand (args : List String) : Act m Unit :=
  match find args with
  | .ok (c, _) => say (helpPage c)
  | .error _ =>
    let topics := "[" ++ String.intercalate " " (args.map backquoted) ++ "]"
    sayErr ("Unknown help topic " ++ topics ++ "\n" ++ usage .root false)

def perform (talk : Talk m) (c : Command) (context : Context) : Act m Unit :=
  let args := context.given.args
  match c with
  | .root | .completion | .script _ => say (helpPage c)
  | .tokenize => tokenizeCommand context (args.headD "")
  | .parse => parseCommand context (args.headD "")
  | .check => checkCommand context
  | .run => runCommand context (args.headD "")
  | .lsp => serveCommand context talk
  | .init => initCommand context
  | .version => versionCommand context
  | .help => helpCommand args

/-- Whether something fails, which it says then, unless all has been said. -/
def fails (act : Act m Unit) : Act m Bool := do
  try
    act
    return false
  catch
    | .reported => return true
    | why =>
      sayErr ("Error: " ++ why.message ++ "\n")
      return true

def performIn (e : Environment) (talk : Talk m) (c : Call) : Act m Unit := do
  if let some text := c.command.arity.complaint? c.command.path c.given.args then throw (.arguments text)
  let context ← prepare e c.given
  let failed ← fails (perform talk c.command context)
  finishProfiles context.memProfile
  if failed then throw .reported

def answerCall (e : Environment) (talk : Talk m) (c : Command) (args : List String) : Act m Unit := do
  let call ← ExceptT.mk (pure (callOf c args))
  if call.given.switch "help" false then say (helpPage c)
  else if call.given.switch "version" false then say ("peano version " ++ Version.current ++ "\n")
  else if c.isGroup then say (helpPage c)
  else performIn e talk call

structure Outcome where
  console : Console := {}
  failed : Bool := false
  deriving DecidableEq, Repr

def runLine (e : Environment) (talk : Talk m) (args : List String) : m Outcome := do
  match find args with
  | .error u =>
    let text := "Error: " ++ u.message ++ "\nRun 'peano --help' for usage.\n"
    return { console := { err := Bytes.ofString text }, failed := true }
  | .ok (c, args) =>
    match ← (fails (answerCall e talk c args)).run.run {} with
    | (.ok failed, console) => return { console, failed }
    | (.error _, console) => return { console, failed := true }

end Peano.Command
