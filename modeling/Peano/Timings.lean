import Peano.Number.Fixed
import Peano.Text.Blank
namespace Peano

structure TimedPhase where
  name : String
  millis : Float
  count : Int := 1
  note : String := ""

structure Timings where
  total : Float
  phases : List TimedPhase

namespace Timings

def empty : Timings := ⟨0, []⟩

/-- Adds a phase to those of the same name. Notes speak about single pieces of work and go. -/
def addPhase (phases : List TimedPhase) (p : TimedPhase) : List TimedPhase :=
  match phases with
  | [] => [⟨p.name, p.millis, max p.count 1, ""⟩]
  | q :: rest =>
    if q.name = p.name then
      { q with millis := q.millis + p.millis, count := q.count + max p.count 1 } :: rest
    else q :: addPhase rest p

/-- The sum of two timings, phases in the order in which they first appear. -/
def merge (a b : Timings) : Timings :=
  ⟨a.total + b.total, (a.phases ++ b.phases).foldl addPhase []⟩

def row (name : String) (millis : Float) : String :=
  "  " ++ Text.padEnd 20 name ++ " " ++ Text.padStart 9 (Number.fixed 2 millis) ++ " ms"

def phaseRow (p : TimedPhase) : String :=
  row p.name p.millis ++ (if 1 < p.count then s!"  x{p.count}" else "") ++
    (if p.note == "" then "" else "  // " ++ p.note) ++ "\n"

def summary (t : Timings) : String :=
  "timings:\n" ++ String.join (t.phases.map phaseRow) ++ row "total" t.total ++ "\n"

end Timings
end Peano
