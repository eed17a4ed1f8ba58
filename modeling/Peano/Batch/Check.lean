import Peano.Batch.Cache
import Peano.Batch.Event
import Peano.Log
namespace Peano.Batch
open Diagnostic (Bag)
open Files (Trouble Host)
open Source (File FileSet)
variable {m : Type → Type} [Monad m] [Host m]

structure Request where
  options : Program.Options := {}
  exercise : Option Program.Exercise := none
  cache : Option Cache := none
  /-- Whether the work was called off before it began. -/
  canceled : Bool := false

inductive Error where
  | listing (f : Trouble)
  | exercise (e : Program.Error)
  | canceled
  | program (path : String) (e : Program.Error)

def Error.message : Error → String
  | listing f => f.message
  | exercise e => e.message
  | canceled => Program.CallError.canceled.message
  | program path e => path ++ ": " ++ e.message

/-- A file with its result. Files that were never looked at have neither path nor result. -/
structure FileResult where
  path : String := ""
  checked : Option Checked := none

/-- What a batch has come to, and what was told and logged on the way. -/
structure Report where
  files : Option FileSet := none
  results : List FileResult := []
  events : List Event := []
  log : List Log.Record := []
  error : Option Error := none

namespace Report

def tell (r : Report) (e : Event) : Report := { r with events := r.events ++ [e] }

def note (r : Report) (l : Log.Record) : Report := { r with log := r.log ++ [l] }

def conclude (r : Report) (path : String) (stage : Stage) (c : Checked) (elapsed : Nat) : Report :=
  let status := if c.hasErrors then Status.error else .done
  { r.tell { file := path, stage, status, elapsed } with results := r.results ++ [⟨path, some c⟩] }

end Report

/-- Loads files into a set; each file comes with its number or the reason why it has none. -/
def loadAll (fs : FileSet) : List String → m (FileSet × List (String × Except Trouble UInt32))
  | [] => return (fs, [])
  | path :: rest => do
    match ← Host.read path with
    | .error f =>
      let (fs, more) ← loadAll fs rest
      return (fs, (path, .error f) :: more)
    | .ok content =>
      let (fs, id) := fs.add path content false
      let (fs, more) ← loadAll fs rest
      return (fs, (path, .ok id) :: more)

def phaseRecord (file : File) (name : String) (elapsed : Nat) : Log.Record :=
  ⟨Log.debug, "phase", [("file", .text file.path), ("name", .text name), ("elapsed", .duration elapsed)]⟩

def millis (nanoseconds : Nat) : Float := Float.ofNat nanoseconds / 1000000.0

/-- A compiled file with the time it took and what is logged about it. -/
structure TimedCompile where
  compiled : Program.Compiled
  timings : Timings
  log : List Log.Record

def compileTimed (id : UInt32) (file : File) (options : Program.Options) (exercise : Option Program.Exercise) :
    m (Except Program.Error TimedCompile) := do
  match Program.resolveExercise exercise with
  | .error e => return .error e
  | .ok goal =>
    let begun ← Host.nanoseconds
    let read := Syntax.readProgram file.content
    let between ← Host.nanoseconds
    let result := Program.compileRead id file options goal read
    let ended ← Host.nanoseconds
    match result with
    | .error e => return .error e
    | .ok c =>
      let durations := [between - begun, ended - between]
      let phases := c.phases.zip durations
      let timings : Timings :=
        { total := phases.foldl (fun sum (_, d) => sum + millis d) 0
          phases := phases.map fun (p, d) => { name := p.name, millis := millis d, note := p.note } }
      let log := phases.map (fun (p, d) => phaseRecord file p.name d) ++
        if c.program.isNone then []
        else [⟨Log.debug, "compiled",
          [("file", .text file.path), ("type", .text c.type), ("errors", .boolean c.hasErrors)]⟩]
      return .ok ⟨c, timings, log⟩

def cacheTrouble (what path why : String) : Log.Record :=
  ⟨Log.warning, what, [("file", .text path), ("error", .text why)]⟩

variable (q : Request)

def checkFresh (path : String) (id : UInt32) (file : File) (r : Report) : m Report := do
  let begun ← Host.nanoseconds
  match ← compileTimed id file q.options q.exercise with
  | .error e =>
    return { r.tell { file := path, stage := some .check, status := some .error, complaint := e.message } with
      results := r.results ++ [⟨path, none⟩], error := some (.program path e) }
  | .ok t =>
    let events := t.compiled.phases.map fun p =>
      { file := path, stage := some (if p.name = "parse" then .parse else .check), status := some .working : Event }
    let r := { r with events := r.events ++ events, log := r.log ++ t.log }
    let r ← match q.cache with
      | none => pure r
      | some cache =>
        match ← cache.store (cacheKey file.content q.options q.exercise) (.ofCompiled t.compiled) with
        | .ok () => pure r
        | .error why => pure (r.note (cacheTrouble "cache write failed" path why))
    let ended ← Host.nanoseconds
    return r.conclude path .check { Checked.ofCompiled t.compiled with timings := t.timings } (ended - begun)

def checkLoaded (path : String) (id : UInt32) (file : File) (r : Report) : m Report := do
  match q.cache with
  | none => checkFresh q path id file r
  | some cache =>
    let r := r.tell { file := path, stage := some .cache, status := some .working }
    match ← cache.find (cacheKey file.content q.options q.exercise) with
    | .error why => checkFresh q path id file (r.note (cacheTrouble "cache read failed" path why))
    | .ok none => checkFresh q path id file r
    | .ok (some e) =>
      let r := r.note ⟨Log.debug, "cache hit", [("file", .text path)]⟩
      return r.conclude path .cache (e.restore id q.options.maxDiagnostics) 0

def unloaded (f : Trouble) : Checked :=
  let d := Diagnostic.error .loadError ⟨0, 0, 0⟩ ("failed to load file: " ++ f.message)
  { file := none, bag := (Bag.make q.options.maxDiagnostics).add d }

/-- Checks a file, unless the batch has come to an end before. -/
def checkOne (fs : FileSet) (path : String) (loaded : Except Trouble UInt32) (r : Report) : m Report := do
  if r.error.isSome then return { r with results := r.results ++ [{}] }
  else
    match loaded with
    | .error f =>
      let c := unloaded q f
      return { r.tell { file := path, stage := some .load, status := some .error, complaint := f.message } with
        results := r.results ++ [⟨path, some c⟩] }
    | .ok id =>
      match fs.get? id with
      | none => return r
      | some file => checkLoaded q path id file r

def checkAll (q : Request) (fs : FileSet) (r : Report) : List (String × Except Trouble UInt32) → m Report
  | [] => return r
  | (path, loaded) :: rest => do
    let r ← checkOne q fs path loaded r
    checkAll q fs r rest

def check (paths : List String) : m Report := do
  match ← Files.sources paths with
  | .error f => return { error := some (.listing f) }
  | .ok [] => return { files := some .empty }
  | .ok files =>
    match Program.resolveExercise q.exercise with
    | .error e => return { files := some .empty, error := some (.exercise e) }
    | .ok _ =>
      let events := files.map fun path => { file := path, stage := some .load, status := some .queued : Event }
      let (fs, loaded) ← loadAll .empty files
      let start : Report := { files := some fs, events, error := if q.canceled then some .canceled else none }
      checkAll q fs start loaded

end Peano.Batch
