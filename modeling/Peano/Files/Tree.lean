import Peano.Files.Basic
import Peano.Path
namespace Peano.Files
variable {m : Type → Type} [Monad m] [Host m]
variable (path : String)

/-- A path and those of all directories that it goes through, outermost first. -/
def pathsTo : List String :=
  let rec go (done : List Char) : List Char → List String
    | [] => []
    | '/' :: rest =>
      let more := go ('/' :: done) rest
      if done.isEmpty || done.head? == some '/' || rest.isEmpty then more
      else String.ofList done.reverse :: more
    | c :: rest => go (c :: done) rest
  go [] path.toList ++ [path]

def ensureDir : m (Except Trouble Unit) := do
  match ← Host.kind true path with
  | .ok .directory => return .ok ()
  | .ok _ => return .error ⟨"mkdir", path, .notDirectory⟩
  | .error _ =>
    match ← Host.makeDir path with
    | .ok () => return .ok ()
    | .error fault =>
      match ← Host.kind false path with
      | .ok .directory => return .ok ()
      | _ => return .error ⟨"mkdir", path, fault⟩

def ensureAll : List String → m (Except Trouble Unit)
  | [] => return .ok ()
  | path :: rest => do
    match ← ensureDir path with
    | .ok () => ensureAll rest
    | .error f => return .error f

def makeDirs : m (Except Trouble Unit) := ensureAll (pathsTo path)

def isSource : Bool :=
  let e := Path.extension path
  e == ".peano" || e == ".ps"

/-- Puts lists together, up to the first failure. -/
def gather {α : Type} (f : α → m (Except Trouble (List String))) : List α → m (Except Trouble (List String))
  | [] => return .ok []
  | a :: rest => do
    match ← f a with
    | .error e => return .error e
    | .ok found =>
      match ← gather f rest with
      | .error e => return .error e
      | .ok more => return .ok (found ++ more)

/-- Trees are not deeper, since no path is longer. -/
def maxTreeDepth : Nat := 4096

/-- The programs at a path and below. Links are not followed. -/
def sourcesBelow : Nat → String → Kind → m (Except Trouble (List String))
  | 0, _, _ => return .ok []
  | depth + 1, path, kind => do
    if kind = .directory then
      match ← Host.list path with
      | .error e => return .error e
      | .ok names => gather (fun (name, kind) => sourcesBelow depth (Path.join path name) kind) names
    else return .ok (if isSource path then [path] else [])

/-- A path that is to be checked: a directory stands for the programs in it. -/
def sourcesAt : m (Except Trouble (List String)) := do
  match ← Host.kind true path with
  | .error fault => return .error ⟨"stat", path, fault⟩
  | .ok .directory =>
    match ← Host.kind false path with
    | .error fault => return .error ⟨"lstat", path, fault⟩
    | .ok kind => sourcesBelow maxTreeDepth path kind
  | .ok _ => return .ok [path]

/-- The programs that some paths stand for, each once and in order. -/
def sources (paths : List String) : m (Except Trouble (List String)) := do
  match ← gather sourcesAt paths with
  | .error e => return .error e
  | .ok found => return .ok (found.eraseDups.mergeSort fun a b => a ≤ b)

end Peano.Files
