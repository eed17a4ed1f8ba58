import Peano.Files.Basic
namespace Peano.Files

/-- The names from the root on. -/
abbrev Place := List String

inductive Entry where
  | file (content : Bytes)
  | directory
  | link (target : String)
  deriving DecidableEq, Repr

def Entry.kind : Entry → Kind
  | file _ => .file
  | directory => .directory
  | link _ => .link

/-- The root is always a directory. -/
structure Store where
  entries : List (Place × Entry) := []
  here : Place := []
  deriving DecidableEq, Repr

namespace Store

/-- So many links may be followed on the way to one place. -/
def maxLinks : Nat := 40

/-- No name and no path has more bytes. -/
def maxName : Nat := 255

def maxPath : Nat := 4095

def get? (s : Store) (p : Place) : Option Entry := if p.isEmpty then some .directory else s.entries.lookup p

def erase (s : Store) (p : Place) : Store := { s with entries := s.entries.filter (·.1 ≠ p) }

def put (s : Store) (p : Place) (e : Entry) : Store := { s.erase p with entries := (p, e) :: (s.erase p).entries }

/-- Walks from a directory along some names. At the end stands an entry, or nothing if only the last name
is missing. -/
def walk (s : Store) (follow : Bool) (links : Nat) (done : Place) (names : List String) :
    Except Fault (Place × Option Entry) :=
  match names with
  | [] => .ok (done, some .directory)
  | name :: rest =>
    if name = "" ∨ name = "." then s.walk follow links done rest
    else if name = ".." then s.walk follow links done.dropLast rest
    else if maxName < name.utf8ByteSize then .error .nameTooLong
    else
      let next := done ++ [name]
      match s.get? next with
      | none => if rest.all (· = "") then .ok (next, none) else .error .missing
      | some .directory => s.walk follow links next rest
      | some (.file content) => if rest.isEmpty then .ok (next, some (.file content)) else .error .notDirectory
      | some (.link target) =>
        if rest.isEmpty ∧ ¬ follow then .ok (next, some (.link target))
        else
          match links with
          | 0 => .error .tooManyLinks
          | links + 1 =>
            s.walk follow links (if target.startsWith "/" then [] else done) (target.splitOn "/" ++ rest)
termination_by (links, names.length)

def locate (s : Store) (follow : Bool) (path : String) : Except Fault (Place × Option Entry) :=
  if path = "" then .error .missing
  else if path.contains '\x00' then .error .invalid
  else if maxPath < path.utf8ByteSize then .error .nameTooLong
  else s.walk follow maxLinks (if path.startsWith "/" then [] else s.here) (path.splitOn "/")

def found (s : Store) (follow : Bool) (path : String) : Except Fault (Place × Entry) := do
  match ← s.locate follow path with
  | (p, some e) => return (p, e)
  | (_, none) => throw .missing

/-- A place where nothing stands yet. -/
def vacant (s : Store) (path : String) : Except Fault Place := do
  match ← s.locate false path with
  | (p, none) => return p
  | (_, some _) => throw .taken

def kind (s : Store) (follow : Bool) (path : String) : Except Fault Kind :=
  (s.found follow path).map (·.2.kind)

def read (s : Store) (path : String) : Except Trouble Bytes :=
  match s.found true path with
  | .error e => .error ⟨"open", path, e⟩
  | .ok (_, .file content) => .ok content
  | .ok _ => .error ⟨"read", path, .isDirectory⟩

/-- The last name, if a place is directly inside a directory. -/
def nameIn? (dir p : Place) : Option String := p.getLast?.filter fun _ => p.dropLast = dir

def list (s : Store) (path : String) : Except Trouble (List (String × Kind)) :=
  match s.found true path with
  | .error e => .error ⟨"open", path, e⟩
  | .ok (dir, .directory) =>
    let found := s.entries.filterMap fun (p, e) => (nameIn? dir p).map fun name => (name, e.kind)
    .ok (found.mergeSort fun a b => a.1 ≤ b.1)
  | .ok _ => .error ⟨"readdirent", path, .notDirectory⟩

def write (s : Store) (mode : WriteMode) (path : String) (content : Bytes) : Except Fault Store := do
  match ← s.locate (mode ≠ .fresh) path with
  | (p, none) => if path.endsWith "/" then throw .isDirectory else return s.put p (.file content)
  | (p, some e) =>
    match mode, e with
    | .fresh, _ => throw .taken
    | .replace, .file _ => return s.put p (.file content)
    | .append, .file old => return s.put p (.file (old ++ content))
    | _, _ => throw .isDirectory

def makeDir (s : Store) (path : String) : Except Fault Store := (s.vacant path).map (s.put · .directory)

def removeTree (s : Store) (path : String) : Except Fault Store := do
  let (p, _) ← s.found false path
  return { s with entries := s.entries.filter fun (q, _) => !p.isPrefixOf q }

def makeLink (s : Store) (path target : String) : Except Fault Store :=
  (s.vacant path).map (s.put · (.link target))

/-- Goes on with the changed store, if there is one. -/
def updated (s : Store) : Except Fault Store → Except Fault Unit × Store
  | .ok s => (.ok (), s)
  | .error e => (.error e, s)

end Store

/-- A program on a store runs outside time. -/
instance : Host (StateM Store) where
  currentDir := fun s => ("/" ++ String.intercalate "/" s.here, s)
  kind follow path := fun s => (s.kind follow path, s)
  read path := fun s => (s.read path, s)
  list path := fun s => (s.list path, s)
  write mode path content := fun s => s.updated (s.write mode path content)
  makeDir path := fun s => s.updated (s.makeDir path)
  removeTree path := fun s => s.updated (s.removeTree path)
  nanoseconds := pure 0
  timestamp := pure "T"

end Peano.Files
