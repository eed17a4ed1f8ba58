import Peano.Batch.Check
import Peano.Command.Basic
import Peano.Config
import Peano.Editor.Stream
namespace Peano.Command
open Files (Trouble)

inductive Complaint where
  | flag (e : FlagFault)
  | arguments (text : String)
  /-- The manifest could not be looked for. -/
  | unseenManifest (t : Trouble)
  | unreadManifest (t : Trouble)
  | manifest (path : String) (e : Config.Error)
  | logLevel (given : String) (e : Log.LevelFault)
  | maxDiagnostics (n : Int)
  | logFile (t : Trouble)
  | toggle (flag value : String)
  | cpuProfile (t : Trouble)
  | trace (t : Trouble)
  | format (name : String)
  | versionFormat (name : String)
  | start (name : String)
  | halfExercise
  | negativeTimeout
  | noFiles (paths : List String)
  | file (t : Trouble)
  | tokenizing (t : Trouble)
  | parsing (t : Trouble)
  | batch (e : Batch.Error)
  | program (e : Program.Error)
  | fixing (t : Trouble)
  | noDirectory (path : String)
  | initialized (path : String)
  | noManifest (t : Trouble)
  | hangup (how : Editor.Leaving)
  | broken (e : Editor.FrameError)
  /-- All has been said already. -/
  | reported

def Complaint.message : Complaint → String
  | flag e => e.message
  | arguments text => text
  | unseenManifest t => "failed to stat " ++ Text.quote t.path ++ ": " ++ t.message
  | unreadManifest t => t.path ++ ": failed to parse TOML: " ++ t.message
  | manifest path e => e.message path
  | logLevel given e => e.message given
  | maxDiagnostics n => s!"--max-diagnostics must be positive, got {n}"
  | logFile t => "open log file: " ++ t.message
  | toggle name value => "invalid --" ++ name ++ " value " ++ Text.quote value ++ " (expected auto|on|off)"
  | cpuProfile t => "failed to start cpu profile: " ++ t.message
  | trace t => "failed to start trace: " ++ t.message
  | format name => "unknown format: " ++ name
  | versionFormat name => "unsupported format " ++ Text.quote name ++ " (must be pretty or json)"
  | start name => Syntax.Start.unknownMessage name
  | halfExercise => "--exercise-var and --exercise-type must be given together"
  | negativeTimeout => "--timeout must not be negative"
  | noFiles paths => "no PeanoScript files in " ++ String.intercalate ", " paths
  | file t => t.message
  | tokenizing t => "tokenization failed: " ++ t.message
  | parsing t => "parsing failed: " ++ t.message
  | batch e => e.message
  | program e => e.message
  | fixing t => "write " ++ t.path ++ ": " ++ t.message
  | noDirectory path => Text.quote path ++ " is not a directory"
  | initialized path => "project already initialized: " ++ path ++ ": already initialized"
  | noManifest t => "failed to write peano.toml: " ++ t.message
  | hangup how => how.message
  | broken e => e.message
  | reported => "errors reported"

end Peano.Command
