namespace Peano.Path

variable (path : String)

def components : List String :=
  (path.splitOn "/").filter fun c => c != "" && c != "."

def isAbsolute : Bool := path.startsWith "/"

/-- Resolves `..` against the components before it, which are given latest first. A rooted path
does not climb above its root. -/
def resolveDots (rooted : Bool) : List String → List String → List String
  | done, [] => done.reverse
  | done, ".." :: rest =>
    match done with
    | [] => if rooted then resolveDots rooted [] rest else resolveDots rooted [".."] rest
    | ".." :: _ => resolveDots rooted (".." :: done) rest
    | _ :: above => resolveDots rooted above rest
  | done, c :: rest => resolveDots rooted (c :: done) rest

def ofComponents (rooted : Bool) (parts : List String) : String :=
  if rooted then "/" ++ String.intercalate "/" parts
  else if parts.isEmpty then "." else String.intercalate "/" parts

/-- The shortest spelling of a path; the empty path is the current directory. -/
def clean : String :=
  ofComponents (isAbsolute path) (resolveDots (isAbsolute path) [] (components path))

def join (a b : String) : String :=
  if a == "" then (if b == "" then "" else clean b)
  else if b == "" then clean a
  else clean (a ++ "/" ++ b)

def lastPart : String := (path.splitOn "/").getLast?.getD ""

def parent : String :=
  clean (String.ofList ((path.toList.reverse.dropWhile (· != '/')).reverse))

/-- The last component; `.` for the empty path and `/` for the root. -/
def base : String :=
  if path == "" then "." else
  match ((path.splitOn "/").filter (· != "")).getLast? with
  | some last => last
  | none => "/"

def extension : String :=
  let last := (lastPart path).toList
  if last.contains '.' then "." ++ String.ofList ((last.reverse.takeWhile (· != '.')).reverse) else ""

/-- The absolute form of a path seen from directory `cwd`. -/
def absolute (cwd path : String) : String :=
  if isAbsolute path then clean path else join cwd path

/-- Drops the components two paths share at the front. -/
def dropShared : List String → List String → List String × List String
  | a :: as, b :: bs => if a == b then dropShared as bs else (a :: as, b :: bs)
  | as, bs => (as, bs)

/-- How to reach absolute path `target` from absolute path `origin`. -/
def relative (origin target : String) : String :=
  let (up, down) := dropShared (components (clean origin)) (components (clean target))
  ofComponents false (up.map (fun _ => "..") ++ down)

inductive DisplayMode where
  /-- As it is, but only the last part of a long absolute path. -/
  | auto
  | absolute
  /-- Seen from the base directory. -/
  | relative
  | base
  deriving DecidableEq, Repr, Inhabited

/-- A way to show paths. Without a base directory the current one is meant. -/
structure Display where
  mode : DisplayMode := .auto
  baseDir : String := ""
  cwd : String := "/"
  deriving DecidableEq, Repr, Inhabited

/-- Absolute paths of more bytes than this are long. -/
def longPath : Nat := 40

/-- Names in angle brackets stand for texts that are no files and are never changed. -/
def isPlaceholder (path : String) : Bool := path.startsWith "<"

def Display.show (d : Display) (path : String) : String :=
  if isPlaceholder path then path
  else
    match d.mode with
    | .auto => if isAbsolute path && longPath < path.utf8ByteSize then Path.base path else path
    | .absolute => Path.absolute d.cwd path
    | .relative => Path.relative (Path.absolute d.cwd d.baseDir) (Path.absolute d.cwd path)
    | .base => Path.base path

end Peano.Path
