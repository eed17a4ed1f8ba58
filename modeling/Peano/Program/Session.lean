import Peano.Program.Evaluate
namespace Peano.Program

/-- What a call to compile is given: its generation and its kill switch. -/
structure Turn where
  generation : UInt64
  switch : Nat
  deriving DecidableEq

/-- A compiled version and what it has logged, once that has run. -/
structure Version where
  turn : Turn
  compiled : Compiled
  outputs : Option (List LogOutput) := none

/-- The kill switches are those of the calls so far, and tell whether they have been fired. The session
holds the last one, unless it has been stopped. -/
structure Session where
  options : Options
  name : String := "<input>"
  generation : UInt64 := 0
  fired : List Bool := []
  held : Option Nat := none
  versions : List Version := []

namespace Session

variable (s : Session)

def isKilled (switch : Nat) : Bool := s.fired.getD switch true

def fireHeld : List Bool :=
  match s.held with
  | some k => s.fired.set k true
  | none => s.fired

def begin : Session × Turn :=
  let turn : Turn := ⟨s.generation + 1, s.fired.length⟩
  ({ s with generation := turn.generation, fired := s.fireHeld ++ [false], held := some turn.switch }, turn)

def stop : Session := { s with fired := s.fireHeld, held := none }

def isCurrent (generation : UInt64) : Bool := s.generation == generation

def finish (turn : Turn) (text : Bytes) (exercise : Option Exercise) : Session × Except Error Compiled :=
  let result := compile 0 (Source.File.make s.name text true) s.options exercise
  match result with
  | .ok c => ({ s with versions := s.versions ++ [{ turn, compiled := c }] }, result)
  | .error _ => (s, result)

def compile (text : Bytes) (exercise : Option Exercise) : Session × UInt64 × Except Error Compiled :=
  let (s, turn) := s.begin
  let (s, result) := s.finish turn text exercise
  (s, turn.generation, result)

/-- What a version logs, from now on the same. -/
def runVersion (v : Version) : List LogOutput :=
  match v.outputs with
  | some outputs => outputs
  | none => v.compiled.runLogs (if s.isKilled v.turn.switch then .exhausted .killed else .unlimited)

def logs (generation : UInt64) : Session × List LogOutput :=
  match s.versions.find? (·.turn.generation == generation) with
  | none => (s, [])
  | some v =>
    let outputs := s.runVersion v
    let keep (w : Version) : Version :=
      if w.turn.generation = generation then { w with outputs := some outputs } else w
    ({ s with versions := s.versions.map keep }, outputs)

end Session
end Peano.Program
