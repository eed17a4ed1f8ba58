import Peano.Path
import Peano.Source.Span
import Peano.Text.Normal
namespace Peano.Source

def lineFeed : UInt8 := 10

def carriageReturn : UInt8 := 13

def dropMark : Bytes → Bytes
  | 0xEF :: 0xBB :: 0xBF :: rest => rest
  | bs => bs

def joinLineEnds : Bytes → Bytes
  | 13 :: 10 :: rest => lineFeed :: joinLineEnds rest
  | b :: rest => b :: joinLineEnds rest
  | [] => []

/-- How a file came to be and what normalisation changed. -/
structure Flags where
  isVirtual : Bool
  hadMark : Bool
  hadLineEnds : Bool
  wasComposed : Bool
  deriving DecidableEq, Repr

namespace Flags

def names (f : Flags) : List String :=
  (if f.isVirtual then ["virtual"] else []) ++ (if f.hadMark then ["bom"] else []) ++
    (if f.hadLineEnds then ["crlf"] else []) ++ (if f.wasComposed then ["nfc"] else [])

/-- Whether offsets into the content differ from offsets into what was given. -/
def isNormalized (f : Flags) : Bool := f.hadMark || f.hadLineEnds || f.wasComposed

end Flags

def normalize (given : Bytes) : Bytes := Text.compose (joinLineEnds (dropMark given))

def flagsOf (isVirtual : Bool) (given : Bytes) : Flags :=
  let unmarked := dropMark given
  let joined := joinLineEnds unmarked
  ⟨isVirtual, unmarked != given, joined != unmarked, Text.compose joined != joined⟩

def lineFeedsFrom (offset : Nat) : Bytes → List Nat
  | [] => []
  | b :: rest =>
    if b = lineFeed then offset :: lineFeedsFrom (offset + 1) rest else lineFeedsFrom (offset + 1) rest

def lineFeeds (content : Bytes) : List Nat := lineFeedsFrom 0 content

/-- How many of some increasing offsets are before `offset`, if `low` of them are and no more than `high`. -/
def countBefore (offset : Nat) (feeds : List Nat) (low high : Nat) : Nat :=
  if low < high then
    let middle := (low + high - 1) / 2
    if feeds.getD middle 0 < offset then countBefore offset feeds (middle + 1) high
    else countBefore offset feeds low middle
  else low
termination_by high - low

/-- A line and a byte column, both counted from one. -/
structure LineCol where
  line : UInt32
  col : UInt32
  deriving DecidableEq, Repr, Inhabited

/-- The line feeds are kept beside the content they belong to. -/
structure File where
  path : String
  content : Bytes
  flags : Flags
  feeds : List Nat := lineFeeds content
  feeds_eq : feeds = lineFeeds content := by rfl

namespace File

variable (f : File)

def make (path : String) (given : Bytes) (isVirtual : Bool) : File where
  path := Path.clean path
  content := normalize given
  flags := flagsOf isVirtual given

def size : Nat := f.content.length

def lineStart (count : Nat) : Nat := if count = 0 then 0 else f.feeds.getD (count - 1) 0 + 1

/-- A line feed belongs to the line it ends. -/
def position (offset : UInt32) : LineCol :=
  let count := countBefore offset.toNat f.feeds 0 f.feeds.length
  ⟨(count + 1).toUInt32, offset - (f.lineStart count).toUInt32 + 1⟩

def slice (start stop : Nat) : Bytes := (f.content.drop start).take (stop - start)

def textUnder (s : Span) : Bytes := f.slice s.start.toNat s.stop.toNat

/-- The line with this number, counted from one, without its line feed. -/
def line (number : Nat) : Bytes :=
  if number = 0 ∨ f.feeds.length + 1 < number then []
  else f.slice (f.lineStart (number - 1)) (f.feeds.getD (number - 1) f.size)

end File

structure FileSet where
  files : Array File

namespace FileSet

variable (fs : FileSet)

def empty : FileSet := ⟨#[]⟩

def size : Nat := fs.files.size

def get? (id : UInt32) : Option File := fs.files[id.toNat]?

def add (path : String) (given : Bytes) (isVirtual : Bool) : FileSet × UInt32 :=
  (⟨fs.files.push (File.make path given isVirtual)⟩, fs.size.toUInt32)

/-- The number of the newest file with a path. -/
def latest? (path : String) : Option UInt32 :=
  let wanted := Path.clean path
  ((List.range fs.size).reverse.find? fun i => (fs.files[i]?).any (·.path == wanted)).map
    Nat.toUInt32

def resolve? (s : Span) : Option (LineCol × LineCol) :=
  (fs.get? s.file).map fun f => (f.position s.start, f.position s.stop)

end FileSet

end Peano.Source
