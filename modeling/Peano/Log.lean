import Peano.Duration
import Peano.Json.Writer
import Peano.Text.Blank
import Peano.Text.Fold
namespace Peano.Log

/-- Greater levels are more urgent. -/
abbrev Level := Int

def debug : Level := -4

def info : Level := 0

def warning : Level := 4

def error : Level := 8

def levelName (l : Level) : String :=
  let name (base : String) (offset : Int) : String :=
    if offset = 0 then base else if 0 < offset then s!"{base}+{offset}" else s!"{base}{offset}"
  if l < info then name "DEBUG" (l - debug)
  else if l < warning then name "INFO" (l - info)
  else if l < error then name "WARN" (l - warning)
  else name "ERROR" (l - error)

inductive LevelFault where
  | unknownName
  | badOffset (text : String) (why : Number.NumeralFault)
  deriving DecidableEq, Repr

def LevelFault.message (given : String) (e : LevelFault) : String :=
  let why := match e with
    | unknownName => "unknown name"
    | badOffset text why => "strconv.Atoi: parsing " ++ Text.quote text ++ ": " ++ why.message
  "log level " ++ Text.quote given ++ ": slog: level string " ++ Text.quote (Text.trim given) ++ ": " ++ why

def namedLevel? (name : String) : Option Level :=
  match Text.capitals name with
  | "DEBUG" => some debug
  | "INFO" => some info
  | "WARN" => some warning
  | "ERROR" => some error
  | _ => none

def levelOf (given : String) : Except LevelFault Level := do
  let cs := (Text.trim given).toList
  let name := cs.takeWhile fun c => c != '+' && c != '-'
  let offset := String.ofList (cs.drop name.length)
  let n ← if offset == "" then pure 0 else (Number.int64Of offset).mapError (.badOffset offset)
  let some l := namedLevel? (String.ofList name) | throw .unknownName
  return l + n

inductive Value where
  | text (s : String)
  | boolean (b : Bool)
  | duration (nanoseconds : Nat)
  deriving DecidableEq, Repr

structure Record where
  level : Level
  message : String
  attributes : List (String × Value) := []
  deriving DecidableEq, Repr

/-- Whether a character would make a word fall apart. -/
def breaksWord (c : Char) : Bool :=
  if c.toNat < 0x80 then c.toNat ≤ 0x20 || c == '=' || c == '"'
  else c.toNat == 0xFFFD || Text.isWhite c || !Text.isPrintable c

def word (s : String) : String := if s == "" || s.toList.any breaksWord then Text.quote s else s

def Value.word : Value → String
  | text s => Log.word s
  | boolean b => if b then "true" else "false"
  | duration n => Log.word (Duration.text n)

def Record.line (r : Record) (time : String) : String :=
  let pairs := [("time", time), ("level", levelName r.level), ("msg", word r.message)] ++
    r.attributes.map fun (key, v) => (word key, v.word)
  String.intercalate " " (pairs.map fun (key, v) => key ++ "=" ++ v) ++ "\n"

def jsonChar (c : Char) : String :=
  if c == '\x08' || c == '\x0c' then "\\u" ++ Text.hexDigits 4 c.toNat else Json.escaped false c

def jsonText (s : String) : String := "\"" ++ String.join (s.toList.map jsonChar) ++ "\""

def Value.json : Value → String
  | text s => jsonText s
  | boolean b => if b then "true" else "false"
  | duration n => toString n

def Record.json (r : Record) (time : String) : String :=
  let pairs := [("time", jsonText time), ("level", jsonText (levelName r.level)), ("msg", jsonText r.message)] ++
    r.attributes.map fun (key, v) => (key, v.json)
  "\x7b" ++ String.intercalate "," (pairs.map fun (key, v) => jsonText key ++ ":" ++ v) ++ "\x7d\n"

end Peano.Log
