import Peano.Command.Dispatch
import Std.Time
namespace Peano
open Files (Fault Host Kind Trouble WriteMode)

/-- The fault that an error of the system stands for. -/
def faultOf (e : IO.Error) : Fault :=
  match e with
  | .noFileOrDirectory .. => .missing
  | .alreadyExists .. => .taken
  | .inappropriateType _ 21 _ => .isDirectory
  | .inappropriateType .. => .notDirectory
  | .permissionDenied .. => .other "permission denied"
  | .invalidArgument _ 40 _ => .tooManyLinks
  | .invalidArgument _ 36 _ => .nameTooLong
  | .invalidArgument .. => .invalid
  | e => .other (toString e)

def attempt {α : Type} (action : IO α) : IO (Except Fault α) := do
  match ← action.toBaseIO with
  | .ok a => return .ok a
  | .error e => return .error (faultOf e)

def kindOf : IO.FS.FileType → Kind
  | .dir => .directory
  | .symlink => .link
  | _ => .file

def writeSystem (mode : WriteMode) (path : String) (content : Bytes) : IO Unit := do
  let how : IO.FS.Mode := match mode with
    | .replace => .write
    | .append => .append
    | .fresh => .writeNew
  let h ← IO.FS.Handle.mk path how
  h.write (ByteArray.mk content.toArray)
  h.flush

def listSystem (path : String) : IO (List (String × Kind)) := do
  let dir := (← IO.currentDir) / path
  let names := ((← dir.readDir).toList.map (·.fileName)).mergeSort (· ≤ ·)
  names.mapM fun (name : String) => return (name, kindOf (← (dir / name).symlinkMetadata).type)

def readSystem (path : String) : IO (Except Trouble Bytes) := do
  match ← attempt (IO.FS.readBinFile path) with
  | .ok bs => return .ok bs.toList
  | .error .isDirectory => return .error ⟨"read", path, .isDirectory⟩
  | .error fault => return .error ⟨"open", path, fault⟩

instance : Host IO where
  currentDir := return (← IO.currentDir).toString
  kind follow path := attempt do
    let place := (← IO.currentDir) / path
    return kindOf (← if follow then place.metadata else place.symlinkMetadata).type
  read := readSystem
  list path := return (← attempt (listSystem path)).mapError fun fault => ⟨"open", path, fault⟩
  write mode path content := attempt (writeSystem mode path content)
  makeDir path := attempt (IO.FS.createDir path)
  removeTree path := attempt (IO.FS.removeDirAll path)
  nanoseconds := IO.monoNanosNow
  timestamp := return (← Std.Time.PlainDateTime.now).format "uuuu-MM-dd'T'HH:mm:ss.SSS"

namespace Command

def sendAll (output : IO.FS.Stream) (sent : List Editor.Outgoing) : IO Unit := do
  for o in sent do output.write (ByteArray.mk (Editor.writeMessage o.payload).toArray)
  output.flush

/-- Talks with an editor until it hangs up. Documents are looked at whenever it has nothing to say. -/
partial def talk (input output : IO.FS.Stream) (pending : Bytes) (l : Logger) (s : Editor.Server) :
    Act IO Unit := do
  match Editor.readMessage pending with
  | .message payload rest =>
    match Editor.messageOf? payload with
    | none =>
      l.log (rejection payload)
      talk input output rest l s
    | some m =>
      if m.method == "" then talk input output rest l s
      else
        let (s, sent, leaving) := s.handle m
        host (sendAll output sent)
        match leaving with
        | some how => conclude (.left how)
        | none => talk input output rest l s
  | .failed e =>
    if e = .truncated then wait s (.broken e) else conclude (.broken e)
  | .closed => wait s .closed
where
  wait (s : Editor.Server) (ending : Editor.Hangup) : Act IO Unit := do
    let (s, sent) := s.analyzeDue Editor.Server.patience
    host (sendAll output sent)
    let more ← host (m := IO) (input.read 65536)
    if more.isEmpty then conclude ending else talk input output (pending ++ more.toList) l s

end Command
end Peano

open Peano in
def main (args : List String) : IO UInt32 := do
  let input ← IO.getStdin
  let output ← IO.getStdout
  let errors ← IO.getStderr
  let settings ← Command.Environment.known.mapM fun name => do
    return (name, (← IO.getEnv name).getD "")
  let e : Command.Environment :=
    { settings, outIsTerminal := ← output.isTty, errIsTerminal := ← errors.isTty }
  let r ← Command.runLine e (Command.talk input output []) args
  output.write (ByteArray.mk r.console.out.toArray)
  errors.write (ByteArray.mk r.console.err.toArray)
  return if r.failed then 1 else 0
