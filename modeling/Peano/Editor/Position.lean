import Peano.Source.File
namespace Peano.Editor
open Source (File Span)

structure Position where
  line : Int := 0
  character : Int := 0
  deriving DecidableEq, Repr, Inhabited

structure Range where
  start : Position := {}
  stop : Position := {}
  deriving DecidableEq, Repr, Inhabited

def Position.before (a b : Position) : Bool :=
  if a.line ≠ b.line then a.line < b.line else a.character < b.character

/-- Whether two ranges have a place in common; their ends belong to them. -/
def Range.overlaps (a b : Range) : Bool := !a.stop.before b.start && !b.stop.before a.start

def isFeed : Text.Rune → Bool
  | .char c => c == '\n'
  | .bad _ => false

/-- How many bytes of the first line cover so many code units. A surrogate pair is not split. -/
def advance (units : Nat) : List Text.Rune → Nat
  | [] => 0
  | r :: rs => if isFeed r || units < r.units then 0 else r.size + advance (units - r.units) rs

/-- What follows so many line feeds; nothing if there are fewer. -/
def afterLines? : Nat → Bytes → Option Bytes
  | 0, bs => some bs
  | _ + 1, [] => none
  | n + 1, b :: bs => if b = Source.lineFeed then afterLines? n bs else afterLines? (n + 1) bs

/-- The byte offset of a position in a text. Behind the end of a line it is that end, behind the last
line the end of the text. -/
def offsetIn (text : Bytes) (p : Position) : Nat :=
  if p.line < 0 ∨ p.character < 0 then 0
  else
    match afterLines? p.line.toNat text with
    | none => text.length
    | some rest => text.length - rest.length + advance p.character.toNat (Text.runes rest)

def fileOffset (f : File) (p : Position) : Nat :=
  if p.line < 0 ∨ p.character < 0 then 0
  else
    let line := p.line.toNat
    if f.feeds.length < line then f.size
    else
      let start := f.lineStart line
      start + advance p.character.toNat (Text.runes (f.content.drop start))

/-- The first number from `low` on that passes a test which all numbers after it pass; `high` if none
before it does. -/
def search (test : Nat → Bool) (low high : Nat) : Nat :=
  if low < high then
    let middle := (low + high) / 2
    if test middle then search test low middle else search test (middle + 1) high
  else low
termination_by high - low

def filePosition (f : File) (offset : Nat) : Position :=
  let offset := min offset f.size
  let line := search (fun i => offset ≤ f.feeds.getD i 0) 0 f.feeds.length
  ⟨line, (Text.runes (f.slice (f.lineStart line) offset)).foldl (fun n r => n + r.units) 0⟩

def spanRange (f : File) (s : Span) : Range :=
  ⟨filePosition f s.start.toNat, filePosition f s.stop.toNat⟩

/-- A change of a text: of a part of it, or of all of it. -/
structure Change where
  range : Option Range
  text : Bytes
  deriving DecidableEq, Repr

def Change.apply (text : Bytes) (c : Change) : Bytes :=
  match c.range with
  | none => c.text
  | some r =>
    let start := min (offsetIn text r.start) text.length
    let stop := min (max (offsetIn text r.stop) start) text.length
    text.take start ++ c.text ++ text.drop stop

def applyChanges (text : Bytes) (changes : List Change) : Bytes := changes.foldl Change.apply text

end Peano.Editor
