import Peano.Program.Compile
import Peano.Realizer.Evaluation
namespace Peano

namespace Program

/-- More than any evaluation nests. -/
def depth : Nat := 1000000000

/-- What an evaluation comes to; one that nests too deep fails. -/
def finish {α : Type} (limit : Limit) (run : Run α) : Except RunError α :=
  match (run.run limit).run with
  | some (.ok (a, _)) => .ok a
  | some (.error e) => .error e
  | none => .error (.stopped limit.stop)

def evaluate (limit : Limit) (env : Env) (r : Realizer) : Except RunError Value :=
  finish limit (r.eval depth env)

def evaluationMessage : RunError → String
  | .stopped s => s.message
  | .failed why => "evaluate: " ++ why.message

structure LogOutput where
  span : Source.Span
  text : String
  isError : Bool
  deriving DecidableEq, Repr

/-- The environments after no definition, after the first, after the first two, ... -/
def environments (limit : Limit) (start : Except RunError Env) : List Binding → List (Except RunError Env)
  | [] => [start]
  | b :: rest =>
    let next := start.bind fun env => finish limit (b.bind (Realizer.eval (depth - 1)) env)
    start :: environments limit next rest

/-- What one log gives, from the environments of the program. -/
def runLog (limit : Limit) (envs : Array (Except RunError Env)) : Judgement.Log → Except RunError String
  | .misplaced => .error (.failed .misplacedLog)
  | .pending ready r type => do
    let env ← envs.getD ready (.error (.failed .noRealizer))
    let v ← evaluate limit env r
    return v.text (some type)

def neededSetup (setup : Array Binding) (logs : List Judgement.Log) : List Binding :=
  let ready : Judgement.Log → Nat
    | .misplaced => 0
    | .pending n .. => n
  setup.toList.take ((logs.map ready).foldl max 0)

end Program

namespace Judgement.Elaborated
open Program

def tryLogs (e : Elaborated) (limit : Limit) (env : Env) : List (Syntax.Place × Except RunError String) :=
  let needed := neededSetup e.notes.setup (e.logs.map (·.2))
  let envs := (environments limit (.ok env) needed).toArray
  e.logs.map fun (place, log) => (place, runLog limit envs log)

def result (e : Elaborated) (limit : Limit) (env : Env) : Except RunError String :=
  (evaluate limit env e.typed.realizer).map fun v => v.text (some e.typed.type)

end Judgement.Elaborated

namespace Program

def Compiled.tryLogs (c : Compiled) (limit : Limit) : List (Source.Span × Except RunError String) :=
  match c.checked with
  | none => []
  | some e => (e.tryLogs limit Axiom.env).map fun (place, outcome) => (spanOf c.fileId place, outcome)

def logOutput (span : Source.Span) : Except RunError String → LogOutput
  | .ok text => ⟨span, text, false⟩
  | .error e => ⟨span, e.message, true⟩

def Compiled.runLogs (c : Compiled) (limit : Limit) : List LogOutput :=
  (c.tryLogs limit).map fun (span, outcome) => logOutput span outcome

def Compiled.result (c : Compiled) (limit : Limit) : Option (Except RunError String) :=
  c.checked.map fun e => e.result limit Axiom.env

end Program
end Peano
