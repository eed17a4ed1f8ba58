import Peano.Files.Store
import Peano.Files.Tree
namespace Peano.Files.Store

/-- An empty current directory, some way below the root. -/
def inDir (here : Place) : Store :=
  { entries := (List.range here.length).map fun i => (here.take (i + 1), .directory), here }

def withDirs (s : Store) (path : String) : Store :=
  ((makeDirs (Path.parent path) : StateM Store (Except Trouble Unit)).run s).2

def withFile (s : Store) (path : String) (content : Bytes) : Store :=
  let s := s.withDirs path
  (s.updated (s.write .replace path content)).2

def withLink (s : Store) (path target : String) : Store :=
  let s := s.withDirs path
  (s.updated (s.makeLink path target)).2

/-- The files and links below the current directory, in order, with what reading them gives. -/
def contents (s : Store) : List (String × Bytes) :=
  let below := s.entries.filterMap fun (p, e) =>
    if s.here.isPrefixOf p && e != .directory then some (String.intercalate "/" (p.drop s.here.length)) else none
  (below.mergeSort (· ≤ ·)).map fun path => (path, (s.read path).toOption.getD [])

end Peano.Files.Store
