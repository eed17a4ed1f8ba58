namespace Peano.Source

structure Span where
  file : UInt32
  start : UInt32
  stop : UInt32
  deriving DecidableEq, Repr, Inhabited

namespace Span

def isEmpty (s : Span) : Bool := s.start == s.stop

/-- The distance from start to stop, modulo the word size. -/
def length (s : Span) : UInt32 := s.stop - s.start

def text (s : Span) : String := s!"{s.file}:{s.start}-{s.stop}"

/-- The smallest span that holds both; spans of different files are not merged. -/
def cover (s t : Span) : Span :=
  if s.file = t.file then ⟨s.file, min s.start t.start, max s.stop t.stop⟩ else s

/-- The stop counts as inside. -/
def contains (s : Span) (offset : UInt32) : Bool := s.start ≤ offset && offset ≤ s.stop

def isWithin (s outer : Span) : Bool :=
  s.file == outer.file && outer.start ≤ s.start && s.stop ≤ outer.stop

end Span

/-- A byte range in a text whose file is known from the context. -/
structure Extent where
  start : Nat
  stop : Nat
  deriving DecidableEq, Repr, Inhabited

namespace Extent

def cover (a b : Extent) : Extent := ⟨min a.start b.start, max a.stop b.stop⟩

/-- The stop counts as inside. -/
def contains (e : Extent) (offset : Nat) : Bool := e.start ≤ offset && offset ≤ e.stop

def join : Option Extent → Option Extent → Option Extent
  | some a, some b => some (a.cover b)
  | some a, none => some a
  | none, b => b

def inFile (file : UInt32) (e : Extent) : Span := ⟨file, e.start.toUInt32, e.stop.toUInt32⟩

end Extent
end Peano.Source
