import Peano.Diagnostic.Basic
namespace Peano.Diagnostic

structure Bag where
  items : List Diagnostic
  limit : Nat
  dropped : Nat
  deriving Repr

namespace Bag

variable (b : Bag)

def greatestLimit : Nat := 65535

/-- An empty bag. A limit that is not positive stands for a hundred. -/
def make (limit : Int) : Bag :=
  ⟨[], min (if limit ≤ 0 then 100 else limit.toNat) greatestLimit, 0⟩

def size : Nat := b.items.length

def isFull : Bool := b.limit ≤ b.size

def add (d : Diagnostic) : Bag :=
  if b.isFull then { b with dropped := b.dropped + 1 } else { b with items := b.items ++ [d] }

def addAll (ds : List Diagnostic) : Bag := ds.foldl add b

/-- Whether something at least as bad as `s` is inside. -/
def reaches (s : Severity) : Bool := b.items.any (s.level ≤ ·.severity.level)

def hasErrors : Bool := b.reaches .error

def hasWarnings : Bool := b.reaches .warning

/-- Takes over all items of another bag; the limit grows with them as far as it may. -/
def merge (b other : Bag) : Bag :=
  let total := b.size + other.size
  { items := b.items ++ other.items
    limit := if b.limit < total then min total greatestLimit else b.limit
    dropped := b.dropped + other.dropped }

/-- Order by place; at one place the worse goes first, then the smaller code. -/
def before (a b : Diagnostic) : Bool :=
  let p := a.primary
  let q := b.primary
  if p.file ≠ q.file then p.file < q.file
  else if p.start ≠ q.start then p.start < q.start
  else if p.stop ≠ q.stop then p.stop < q.stop
  else if a.severity ≠ b.severity then b.severity.level < a.severity.level
  else a.code.number ≤ b.code.number

def sort : Bag := { b with items := b.items.mergeSort before }

/-- Whether two diagnostics say the same at the same place. -/
def isRepeat (a b : Diagnostic) : Bool :=
  a.code.id == b.code.id && a.primary = b.primary && a.message == b.message

/-- The items that repeat none of those in `seen` and no earlier item. -/
def dropRepeats (seen : List Diagnostic) : List Diagnostic → List Diagnostic
  | [] => []
  | d :: rest =>
    if seen.any (isRepeat d) then dropRepeats seen rest else d :: dropRepeats (d :: seen) rest

def dedup : Bag := { b with items := dropRepeats [] b.items }

end Bag
end Peano.Diagnostic
