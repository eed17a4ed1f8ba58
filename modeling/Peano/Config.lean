import Peano.Json.Writer
import Peano.Path
import Peano.Text.Blank
import Peano.Text.Fold
import Peano.Toml.Reader
namespace Peano

structure Config where
  shortcuts : Bool := false
  maxDiagnostics : Int := 100
  /-- How many files are checked at a time; if it is not positive, as many as there are processors. -/
  jobs : Int := 0
  exerciseName : String := ""
  exerciseType : String := ""
  cacheEnabled : Bool := true
  /-- Where results are kept, if not in the usual place. -/
  cacheDir : String := ""
  logLevel : String := "warn"
  logFile : String := ""
  journal : Bool := false
  /-- The manifest that the settings come from, if any. -/
  path : String := ""
  deriving DecidableEq, Repr

namespace Config

def fileName : String := "peano.toml"

def hasExercise (c : Config) : Bool := c.exerciseName != "" && c.exerciseType != ""

structure UnknownKey where
  path : String
  key : String
  deriving DecidableEq, Repr

def UnknownKey.message (w : UnknownKey) : String := w.path ++ ": " ++ w.key ++ ": unknown key"

inductive Error where
  | malformed
  | badMaxDiagnostics
  | incompleteExercise
  deriving DecidableEq, Repr

def Error.message (path : String) : Error → String
  | malformed => path ++ ": failed to parse TOML"
  | badMaxDiagnostics => path ++ ": [check].max_diagnostics must be positive"
  | incompleteExercise => path ++ ": [exercise] needs both var and type"

def keyChar (c : Char) : String :=
  if c.toNat < 0x20 || c == '"' || c == '\\' then Json.escaped false c
  else if c.toNat == 0x7F then "\\u" ++ Text.hexDigits 4 c.toNat
  else String.singleton c

def keyPart (name : String) : String :=
  if name != "" && name.toList.all Toml.isBareChar then name
  else "\"" ++ String.join (name.toList.map keyChar) ++ "\""

def keyText (key : Toml.Key) : String := String.intercalate "." (key.map keyPart)

/-- A setting that takes a value of a table: the change it makes, or nothing if the value is of the
wrong kind. -/
abbrev Setter := Toml.Value → Config → Option Config

def takeText (set : String → Config → Config) : Setter
  | .text s, c => some (set s c)
  | _, _ => none

def takeInteger (set : Int → Config → Config) : Setter
  | .integer n, c => some (set n c)
  | _, _ => none

def takeBoolean (set : Bool → Config → Config) : Setter
  | .boolean b, c => some (set b c)
  | _, _ => none

def settings : List (String × List (String × Setter)) :=
  [("check",
      [("hardcoded_impls", takeBoolean fun b c => { c with shortcuts := b }),
        ("max_diagnostics", takeInteger fun n c => { c with maxDiagnostics := n }),
        ("jobs", takeInteger fun n c => { c with jobs := n })]),
    ("exercise",
      [("var", takeText fun s c => { c with exerciseName := s }),
        ("type", takeText fun s c => { c with exerciseType := s })]),
    ("cache",
      [("enabled", takeBoolean fun b c => { c with cacheEnabled := b }),
        ("dir", takeText fun s c => { c with cacheDir := s })]),
    ("log",
      [("level", takeText fun s c => { c with logLevel := s }),
        ("file", takeText fun s c => { c with logFile := s }),
        ("journal", takeBoolean fun b c => { c with journal := b })])]

/-- What is known under a name; its exact spelling goes before others. -/
def known? {α : Type} (entries : List (String × α)) (name : String) : Option α :=
  (entries.lookup name).or ((entries.find? fun (n, _) => Text.sameFold n name).map (·.2))

def applyTable (setters : List (String × Setter)) (c : Config) (t : Toml.Table) : Option Config :=
  t.foldlM (fun c (name, v) => match known? setters name with
    | some set => set v c
    | none => some c) c

def applyDocument (c : Config) (t : Toml.Table) : Option Config :=
  t.foldlM (fun c (name, v) => match known? settings name, v with
    | some setters, .table entries => applyTable setters c entries
    | some _, _ => none
    | none, _ => some c) c

def isKnown : Toml.Key → Bool
  | [table] => (known? settings table).isSome
  | [table, name] => (known? settings table).any fun setters => (known? setters name).isSome
  | _ => false

def isDefined (t : Toml.Table) (table name : String) : Bool :=
  match t.lookup table with
  | some (.table entries) => (entries.lookup name).isSome
  | _ => false

def load (path : String) (content : Bytes) : List UnknownKey × Except Error Config :=
  match (Toml.read? content).bind fun d => (applyDocument {} d.root).map (d, ·) with
  | none => ([], .error .malformed)
  | some (d, c) =>
    let unknown := (d.keys.filter (!isKnown ·)).map fun key => UnknownKey.mk path (keyText key)
    let name := Text.trim c.exerciseName
    let type := Text.trim c.exerciseType
    if isDefined d.root "check" "max_diagnostics" && c.maxDiagnostics ≤ 0 then
      (unknown, .error .badMaxDiagnostics)
    else if (name == "") != (type == "") then (unknown, .error .incompleteExercise)
    else
      let cacheDir := if c.cacheDir != "" && !Path.isAbsolute c.cacheDir
        then Path.join (Path.parent path) c.cacheDir else c.cacheDir
      (unknown, .ok { c with exerciseName := name, exerciseType := type, cacheDir, path })

/-- A manifest that says what goes without saying. -/
def defaultManifest : String :=
  "# PeanoScript project settings.\n\n[check]\nhardcoded_impls = false\nmax_diagnostics = 100\n" ++
  "jobs = 0           # 0 = GOMAXPROCS\n\n# [exercise]\n# var = \"zeroOrNot\"\n" ++
  "# type = \"(x: N) => x == 0 || x != 0\"\n\n[cache]\nenabled = true\n" ++
  "dir = \"\"           # default $XDG_CACHE_HOME/peano\n\n" ++
  "[log]\nlevel = \"warn\"\nfile = \"\"\njournal = false\n"

end Config
end Peano
