import Peano.Duration
import Peano.Number.Literal
namespace Peano.Command

/-- What a flag takes, and what it is if it is not given. -/
inductive FlagKind where
  | text (initial : String)
  | switch
  | integer (initial : Int)
  | duration
  deriving DecidableEq, Repr

structure Flag where
  name : String
  kind : FlagKind
  usage : String
  short : Option Char := none
  deriving DecidableEq, Repr

namespace Flag

def isSwitch (f : Flag) : Bool := f.kind = .switch

def title (f : Flag) : String :=
  match f.short with
  | some c => "-" ++ String.singleton c ++ ", --" ++ f.name
  | none => "--" ++ f.name

end Flag

inductive FlagValue where
  | text (s : String)
  | switch (b : Bool)
  | integer (n : Int)
  | duration (nanoseconds : Int)
  deriving DecidableEq, Repr

inductive ValueFault where
  | boolean
  | integer (why : Number.NumeralFault)
  | duration (why : Duration.Fault)
  deriving DecidableEq, Repr

def ValueFault.message (value : String) : ValueFault → String
  | boolean => "strconv.ParseBool: parsing " ++ Text.quote value ++ ": " ++ Number.NumeralFault.malformed.message
  | integer why => "strconv.ParseInt: parsing " ++ Text.quote value ++ ": " ++ why.message
  | duration why => why.message value

inductive FlagFault where
  | malformed (arg : String)
  | unknown (name : String)
  /-- The group is what has not been read yet. -/
  | unknownShort (letter : Char) (group : String)
  | noValue (name : String)
  | badValue (f : Flag) (value : String) (why : ValueFault)
  deriving DecidableEq, Repr

def quoteLetter (c : Char) : String :=
  "'" ++ (if c == '\'' then "\\'" else if c == '"' then "\"" else Text.escapeChar c) ++ "'"

def FlagFault.message : FlagFault → String
  | malformed arg => "bad flag syntax: " ++ arg
  | unknown name => "unknown flag: --" ++ name
  | unknownShort c group => "unknown shorthand flag: " ++ quoteLetter c ++ " in -" ++ group
  | noValue name => "flag needs an argument: --" ++ name
  | badValue f value why =>
    "invalid argument " ++ Text.quote value ++ " for " ++ Text.quote f.title ++ " flag: " ++ why.message value

def Flag.read (f : Flag) (value : String) : Except FlagFault FlagValue :=
  Except.mapError (.badValue f value) (match f.kind with
    | .text _ => .ok (.text value)
    | .switch =>
      match Number.boolOf? value with
      | some b => .ok (.switch b)
      | none => .error .boolean
    | .integer _ => (Number.int64OfLiteral value).map .integer |>.mapError .integer
    | .duration => (Duration.ofText value).map .duration |>.mapError .duration)

/-- The flags that were given, the last one first, and the arguments. -/
structure Given where
  values : List (String × FlagValue) := []
  args : List String := []
  deriving DecidableEq, Repr

namespace Given

variable (g : Given)

def has (name : String) : Bool := (g.values.lookup name).isSome

def text (name : String) (initial : String) : String :=
  match g.values.lookup name with
  | some (.text s) => s
  | _ => initial

def switch (name : String) (initial : Bool) : Bool :=
  match g.values.lookup name with
  | some (.switch b) => b
  | _ => initial

def integer? (name : String) : Option Int :=
  match g.values.lookup name with
  | some (.integer n) => some n
  | _ => none

def duration (name : String) : Int :=
  match g.values.lookup name with
  | some (.duration d) => d
  | _ => 0

def set (f : Flag) (value : String) : Except FlagFault Given :=
  (f.read value).map fun v => { g with values := (f.name, v) :: g.values }

end Given

def longFlag (flags : List Flag) (arg : String) : Except FlagFault (Flag × Option String) :=
  let body := arg.toList.drop 2
  let name := String.ofList (body.takeWhile (· != '='))
  if body.head? == some '-' || body.head? == some '=' then .error (.malformed arg)
  else
    match flags.find? (·.name == name) with
    | none => .error (.unknown name)
    | some f =>
      if body.contains '=' then .ok (f, some (String.ofList (body.drop (name.length + 1))))
      else if f.isSwitch then .ok (f, some "true")
      else .ok (f, none)

/-- The character whose code is the first byte of a character. -/
def firstByte (c : Char) : Char := Char.ofNat ((String.singleton c).toUTF8.toList.headD 0).toNat

/-- What a complaint shows of a letter: its first byte is taken for its name, and the first byte of the
name is shown. Letters in ASCII are shown as they are. -/
def shownLetter (c : Char) : Char := firstByte (firstByte c)

/-- Short flags written together. All of them are switches. -/
def shortFlags (flags : List Flag) (g : Given) : List Char → Except FlagFault Given
  | [] => .ok g
  | c :: rest => do
    if "test.".toList.isPrefixOf (c :: rest) then return g
    match flags.find? (·.short == some c) with
    | none => throw (.unknownShort (shownLetter c) (String.ofList (c :: rest)))
    | some f =>
      match rest with
      | '=' :: d :: value => g.set f (String.ofList (d :: value))
      | _ => shortFlags flags (← g.set f "true") rest

/-- Reads a command line; `pending` waits for its value. -/
def readFlags (flags : List Flag) (g : Given) (pending : Option Flag) : List String → Except FlagFault Given
  | [] =>
    match pending with
    | some f => .error (.noValue f.name)
    | none => .ok g
  | arg :: rest => do
    match pending with
    | some f => readFlags flags (← g.set f arg) none rest
    | none =>
      if arg == "--" then return { g with args := g.args ++ rest }
      else if arg.startsWith "--" then
        match ← longFlag flags arg with
        | (f, none) => readFlags flags g (some f) rest
        | (f, some value) => readFlags flags (← g.set f value) none rest
      else if arg.startsWith "-" && arg != "-" then
        readFlags flags (← shortFlags flags g (arg.toList.drop 1)) none rest
      else readFlags flags { g with args := g.args ++ [arg] } none rest

end Peano.Command
