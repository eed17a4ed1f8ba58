import Peano.Batch.Event
import Peano.Number.Fixed
import Peano.Text.Cells
namespace Peano.Batch

/-- An item that is settled does not change any more. -/
structure Item where
  path : String
  label : String := "queued"
  stage : Option Stage := none
  elapsed : Int := 0
  settled : Bool := false
  failed : Bool := false
  deriving DecidableEq, Repr

namespace Item

def stageLabel : Stage → String
  | .load => "loading"
  | .cache => "lookup"
  | .parse => "parsing"
  | .check => "checking"

def newLabel? (stage : Option Stage) : Status → Option String
  | .queued => some "queued"
  | .done => some (if stage = some .cache then "cached" else "ok")
  | .error => some "error"
  | .working => stage.map stageLabel

def apply (i : Item) (e : Event) : Item :=
  if i.settled then i
  else
    let seen := { i with label := (e.status.bind (newLabel? e.stage)).getD i.label, stage := e.stage }
    match e.status with
    | some .done => { seen with settled := true, elapsed := e.elapsed }
    | some .error => { seen with settled := true, elapsed := e.elapsed, failed := true }
    | _ => seen

def share (i : Item) : Float :=
  if i.settled then 1.0
  else
    match i.stage with
    | some .load => 0.05
    | some .cache => 0.1
    | some .parse => 0.3
    | some .check => 0.6
    | none => 0.0

end Item

structure Progress where
  title : String
  items : List Item
  /-- The width of the terminal and that of the bar. -/
  width : Int := 80
  barWidth : Int := 76
  frame : Nat := 0
  done : Bool := false
  deriving Repr

inductive Message where
  | event (e : Event)
  | finished
  | tick
  | resize (width : Int)
  | interrupt
  | otherKey

namespace Progress

variable (p : Progress)

def make (title : String) (files : List String) : Progress :=
  { title, items := files.map fun path => { path } }

def applyEvent (items : List Item) (e : Event) : List Item :=
  match items with
  | [] => []
  | i :: rest =>
    if i.path = e.file ∧ ¬ rest.any (·.path = e.file) then i.apply e :: rest
    else i :: applyEvent rest e

def settledCount : Nat := (p.items.filter (·.settled)).length

def failedCount : Nat := (p.items.filter (·.failed)).length

def percent : Float :=
  if p.items.isEmpty then 0.0
  else p.items.foldl (fun sum i => sum + i.share) 0.0 / Float.ofNat p.items.length

def frames : List String := ["⣾ ", "⣽ ", "⣻ ", "⢿ ", "⡿ ", "⣟ ", "⣯ ", "⣷ "]

/-- The next state, and whether the view is to be left. -/
def update : Message → Progress × Bool
  | .event e => ({ p with items := applyEvent p.items e }, false)
  | .finished => ({ p with done := true }, true)
  | .tick => (if p.done then p else { p with frame := (p.frame + 1) % frames.length }, false)
  | .resize w => (if 0 < w then { p with width := w, barWidth := w - 4 } else p, false)
  | .interrupt => (p, true)
  | .otherKey => (p, false)

def elapsedText (nanos : Int) : String :=
  if nanos < 1000000 then "<1ms"
  else
    let n := nanos.toNat
    if n < 1000000000 then s!"{n / 1000000}ms"
    else
      let seconds := Float.ofNat (n / 1000000000) + Float.ofNat (n % 1000000000) / 1e9
      Number.fixed 1 seconds ++ "s"

def bar (width : Int) (full : Bool) : String :=
  let label := if full then " 100%" else "   0%"
  String.ofList (List.replicate (width - label.length).toNat (if full then '█' else '░')) ++ label

/-- Tabs become blanks, and lines are padded to the widest. -/
def block (text : String) : String :=
  let lines := ((text.replace "\t" "    ").replace "\r\n" "\n").splitOn "\n"
  let widest := (lines.map Text.lineCells).foldl max 0
  if lines.length = 1 then String.join lines
  else String.intercalate "\n" (lines.map fun l =>
    l ++ Text.blanks (widest - Text.lineCells l))

def itemLine (nameWidth : Nat) (i : Item) : String :=
  "  " ++ Text.padStart 10 i.label ++ " " ++
    Text.padRight (Text.truncate i.path nameWidth "...") nameWidth ++ " " ++
    (if i.settled then elapsedText i.elapsed else "") ++ "\n"

def header : String :=
  let counted := s!"{p.title} ({p.settledCount}/{p.items.length})"
  if p.done then "done: " ++ counted else frames.getD p.frame "" ++ " " ++ counted

def view : String :=
  if p.items.isEmpty then ""
  else
    let nameWidth := (max (p.width - 24) 20).toNat
    block p.header ++ "\n\n" ++ String.join (p.items.map (itemLine nameWidth)) ++ "\n" ++
      bar p.barWidth p.done ++ "\n" ++
      if p.done ∧ 0 < p.failedCount then s!"{p.failedCount} file(s) with errors\n" else ""

end Progress
end Peano.Batch
