import Peano.Command.Complaint
import Peano.Command.Locale
import Peano.Diagnostic.Pretty
namespace Peano.Command
open Files (Host Trouble)

structure Console where
  out : Bytes := []
  err : Bytes := []
  deriving DecidableEq, Repr

/-- What a command does. What it has written before it fails stays written. -/
abbrev Act (m : Type → Type) := ExceptT Complaint (StateT Console m)

variable {m : Type → Type} [Monad m] [Host m]

def write (bs : Bytes) : Act m Unit := modify fun c => { c with out := c.out ++ bs }

def writeErr (bs : Bytes) : Act m Unit := modify fun c => { c with err := c.err ++ bs }

def say (s : String) : Act m Unit := write (Bytes.ofString s)

def sayErr (s : String) : Act m Unit := writeErr (Bytes.ofString s)

def orFail {α : Type} (complain : Trouble → Complaint) : Except Trouble α → Act m α
  | .ok a => pure a
  | .error t => throw (complain t)

def host {α : Type} (action : m α) : Act m α := ExceptT.lift (StateT.lift action)

def writeFile (mode : Files.WriteMode) (path : String) (content : Bytes) (complain : Trouble → Complaint) :
    Act m Unit := do
  orFail complain ((← host (Host.write mode path content)).mapError (⟨"open", path, ·⟩))

structure Logger where
  level : Log.Level
  /-- A file for the records, if there is one. -/
  file : String

def Logger.log (l : Logger) (r : Log.Record) : Act m Unit := do
  if l.level ≤ r.level then
    let time ← host Host.timestamp
    sayErr (r.line time)
    if l.file != "" then
      let _ ← host (Host.write .append l.file (Bytes.ofString (r.json time)))

inductive Toggle where
  | auto
  | on
  | off
  deriving DecidableEq, Repr

def toggleOf (flag value : String) : Except Complaint Toggle :=
  match (Text.trim value).toLower with
  | "" | "auto" => .ok .auto
  | "on" => .ok .on
  | "off" => .ok .off
  | _ => .error (.toggle flag value)

/-- What is settled before a command begins. -/
structure Context where
  environment : Environment
  given : Given
  config : Config
  logger : Logger
  color : Toggle
  /-- Where a profile of the memory goes at the end. -/
  memProfile : String

namespace Context

variable (c : Context)

def colors (isTerminal : Bool) : Bool :=
  match c.color with
  | .on => true
  | .off => false
  | .auto => c.environment.get "NO_COLOR" == "" && isTerminal

/-- Whether words in the output itself are coloured; a variable may forbid it. -/
def paints : Bool :=
  c.colors c.environment.outIsTerminal && c.environment.get "NO_COLOR" == ""

def isQuiet : Bool := c.given.switch "quiet" false

def showsTimings : Bool := c.given.switch "timings" false

def programOptions : Program.Options :=
  { shortcuts := c.given.switch "hardcoded-impls" c.config.shortcuts
    maxDiagnostics := if 0 < c.config.maxDiagnostics then c.config.maxDiagnostics else 100 }

/-- The exercise on the command line, or else that of the manifest. -/
def exercise : Except Complaint (Option Program.Exercise) :=
  let name := Text.trim (c.given.text "exercise-var" "")
  let type := Text.trim (c.given.text "exercise-type" "")
  if name != "" && type != "" then .ok (some ⟨name, type⟩)
  else if name != "" || type != "" then .error .halfExercise
  else if c.config.hasExercise then .ok (some ⟨c.config.exerciseName, c.config.exerciseType⟩)
  else .ok none

def prettyOptions (isTerminal : Bool) : Diagnostic.PrettyOptions :=
  { color := c.colors isTerminal, context := 2, ambiguous := c.environment.ambiguous }

end Context

def findManifest : List String → Act m (Option String)
  | [] => return none
  | dir :: rest => do
    let path := Path.join dir Config.fileName
    match ← host (Host.kind true path) with
    | .ok _ => return some path
    | .error .missing => findManifest rest
    | .error fault => throw (.unseenManifest ⟨"stat", path, fault⟩)

/-- The settings in a manifest, and the keys that are not known. -/
def loadManifest (path : String) : Act m (List Config.UnknownKey × Config) := do
  let content ← orFail (fun t => .unreadManifest { t with path }) (← host (Host.read path))
  match Config.load path content with
  | (unknown, .ok config) => return (unknown, config)
  | (_, .error e) => throw (.manifest path e)

def settings (named : String) : Act m (List Config.UnknownKey × Config) := do
  if named != "" then loadManifest named
  else
    let here ← host Host.currentDir
    match ← findManifest (("/" :: Files.pathsTo here).reverse.eraseDups) with
    | some path => loadManifest path
    | none => return ([], {})

def startProfiles (g : Given) (l : Logger) : Act m Unit := do
  let cpu := g.text "cpu-profile" ""
  let memory := g.text "mem-profile" ""
  let trace := g.text "runtime-trace" ""
  if cpu != "" then writeFile .replace cpu [] .cpuProfile
  if trace != "" then writeFile .replace trace [] .trace
  if cpu != "" || memory != "" || trace != "" then
    l.log ⟨Log.debug, "profiling", [("cpu", .text cpu), ("mem", .text memory), ("trace", .text trace)]⟩

/-- Settles what a command needs. Flags win over the manifest. -/
def prepare (e : Environment) (g : Given) : Act m Context := do
  let (unknown, config) ← settings (g.text "config" "")
  let levelName := g.text "log-level" config.logLevel
  let level ← match Log.levelOf levelName with
    | .ok l => pure l
    | .error why => throw (.logLevel levelName why)
  let config ← match g.integer? "max-diagnostics" with
    | none => pure config
    | some n => if n ≤ 0 then throw (.maxDiagnostics n) else pure { config with maxDiagnostics := n }
  let file := g.text "log-file" config.logFile
  if file != "" then writeFile .append file [] .logFile
  let logger : Logger := ⟨level, file⟩
  for key in unknown do logger.log ⟨Log.warning, Config.fileName, [("warning", .text key.message)]⟩
  if config.path != "" then logger.log ⟨Log.debug, "config loaded", [("path", .text config.path)]⟩
  let color ← toggleOf "color" (g.text "color" "auto")
  startProfiles g logger
  return { environment := e, given := g, config, logger, color, memProfile := g.text "mem-profile" "" }

def finishProfiles (path : String) : Act m Unit := do
  if path != "" then
    match ← host (Host.write .replace path []) with
    | .ok () => pure ()
    | .error fault =>
      sayErr ("peano: failed to write heap profile: " ++ Trouble.message ⟨"open", path, fault⟩ ++ "\n")

def loadOne (path : String) (complain : Trouble → Complaint) : Act m (Source.FileSet × Source.File) := do
  let content ← orFail complain (← host (Host.read path))
  let (fs, id) := Source.FileSet.empty.add path content false
  return (fs, (fs.get? id).getD (Source.File.make path content false))

end Peano.Command
