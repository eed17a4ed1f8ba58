import Peano.Text.Bytes
namespace Peano.Files

inductive Fault where
  | missing
  | taken
  | notDirectory
  | isDirectory
  | tooManyLinks
  | nameTooLong
  | invalid
  | other (text : String)
  deriving DecidableEq, Repr

def Fault.message : Fault → String
  | missing => "no such file or directory"
  | taken => "file exists"
  | notDirectory => "not a directory"
  | isDirectory => "is a directory"
  | tooManyLinks => "too many levels of symbolic links"
  | nameTooLong => "file name too long"
  | invalid => "invalid argument"
  | other text => text

structure Trouble where
  action : String
  path : String
  fault : Fault
  deriving DecidableEq, Repr

def Trouble.message (f : Trouble) : String := f.action ++ " " ++ f.path ++ ": " ++ f.fault.message

inductive Kind where
  | file
  | directory
  | link
  deriving DecidableEq, Repr

inductive WriteMode where
  | replace
  | append
  /-- Nothing may be there before. -/
  | fresh
  deriving DecidableEq, Repr

/-- A place where programs run: files, a current directory and a clock. -/
class Host (m : Type → Type) where
  currentDir : m String
  /-- What is at a path; a link at its end is followed or not. -/
  kind : Bool → String → m (Except Fault Kind)
  read : String → m (Except Trouble Bytes)
  /-- The names in a directory in order, with what they are. -/
  list : String → m (Except Trouble (List (String × Kind)))
  write : WriteMode → String → Bytes → m (Except Fault Unit)
  makeDir : String → m (Except Fault Unit)
  /-- Removes a directory with all that is in it. -/
  removeTree : String → m (Except Fault Unit)
  /-- A clock that only goes forward. -/
  nanoseconds : m Nat
  timestamp : m String

end Peano.Files
