import Peano.Diagnostic.Bag
import Peano.Judgement.Elaboration
namespace Peano.Program
open Source (File)
open Diagnostic (Bag)

structure Options where
  /-- Some well-known lemmas are not computed by their proofs. -/
  shortcuts : Bool := false
  maxDiagnostics : Int := 0
  /-- Whether values to be logged are to be computed at once. -/
  evaluates : Bool := false
  deriving DecidableEq, Repr

/-- What a program is to prove: a name and a written statement. -/
structure Exercise where
  name : String
  type : String
  deriving DecidableEq, Repr

structure Phase where
  name : String
  note : String
  deriving DecidableEq, Repr

/-- There is no program if the source could not be read. -/
structure Compiled where
  fileId : UInt32
  file : File
  program : Option Syntax.Block
  checked : Option Judgement.Elaborated
  exercise : Option Judgement.Progress
  bag : Bag
  phases : List Phase

inductive Error where
  | exercise (e : Exercise) (why : Resolve.TextError)
  | incomparable (why : Formula.Incomparable)

def Error.message : Error → String
  | .exercise e why => "exercise " ++ e.name ++ ": type " ++ Text.quote e.type ++ ": " ++ why.message
  | .incomparable why => why.message

/-- The span of a record; without a place it is the start of the file. -/
def spanOf (file : UInt32) : Syntax.Place → Source.Span
  | some e => e.inFile file
  | none => ⟨file, 0, 0⟩

def diagnostic? (file : UInt32) : Judgement.Record → Option Diagnostic
  | .error place e fix =>
    let span := spanOf file place
    some
      { severity := .error
        code := e.code
        message := e.message
        primary := span
        fixes := (fix.map (Diagnostic.Fix.replacement span)).toList }
  | _ => none

/-- What has become of an exercise, and whether it is solved. -/
def exerciseVerdict (e : Option Exercise) (progress : Option Judgement.Progress) : String × Bool :=
  match e, progress with
  | some e, some p =>
    if !p.isDefined then ("exercise: " ++ e.name ++ " is not defined", false)
    else if !p.isTyped then ("exercise: " ++ e.name ++ " does not have type " ++ e.type, false)
    else if p.sorryUsed then ("exercise: " ++ e.name ++ " is proved with sorry", false)
    else ("exercise: " ++ e.name ++ " solved", true)
  | _, _ => ("", false)

namespace Compiled

variable (c : Compiled)

def type : String := (c.checked.map fun e => e.typed.type.text).getD ""

def records : List Judgement.Record := (c.checked.map (·.records)).getD []

/-- The values to be logged, with their spans. -/
def logs : List (Source.Span × Judgement.Log) :=
  ((c.checked.map (·.logs)).getD []).map fun (place, l) => (spanOf c.fileId place, l)

def hasErrors : Bool := c.bag.hasErrors

def verdict (e : Option Exercise) : String × Bool := exerciseVerdict e c.exercise

end Compiled

def resolveExercise : Option Exercise → Except Error (Option Judgement.Exercise)
  | none => .ok none
  | some e =>
    match Resolve.ofText (Bytes.ofString e.type) with
    | .ok t => .ok (some ⟨e.name, t⟩)
    | .error why => .error (.exercise e why)

def checkProgram (fileId : UInt32) (file : File) (options : Options)
    (exercise : Option Judgement.Exercise) (program : Syntax.Block) : Except Error Compiled :=
  match Judgement.elaborateProgram ⟨options.shortcuts, exercise⟩ Axiom.scope program with
  | .error why => .error (.incomparable why)
  | .ok checked =>
    let found := checked.records.filterMap (diagnostic? fileId)
    let compiled : Compiled :=
      { fileId
        file
        program := some program
        checked := some checked
        exercise := exercise.map fun _ => checked.notes.progress
        bag := ((Bag.make options.maxDiagnostics).addAll found).sort
        phases :=
          [⟨"parse", s!"{program.statements.length} statements"⟩,
            ⟨"check", s!"{checked.records.length} records"⟩] }
    if options.evaluates then
      .ok { compiled with
        phases := compiled.phases ++ [⟨"eval", s!"{compiled.logs.length} logs started"⟩] }
    else .ok compiled

/-- Goes on with a file once it has been read, or once that has failed. -/
def compileRead (fileId : UInt32) (file : File) (options : Options) (exercise : Option Judgement.Exercise)
    (read : Except Syntax.SyntaxError Syntax.Block) : Except Error Compiled :=
  match read with
  | .error e =>
    .ok {
      fileId
      file
      program := none
      checked := none
      exercise := none
      bag := (Bag.make options.maxDiagnostics).add (e.diagnostic fileId)
      phases := [⟨"parse", "failed"⟩] }
  | .ok program => checkProgram fileId file options exercise program

def compile (fileId : UInt32) (file : File) (options : Options) (exercise : Option Exercise) :
    Except Error Compiled := do
  let exercise ← resolveExercise exercise
  compileRead fileId file options exercise (Syntax.readProgram file.content)

/-- Why a call to compile gives no result. -/
inductive CallError where
  | canceled
  | program (e : Error)

def CallError.message : CallError → String
  | .canceled => "context canceled"
  | .program e => e.message

/-- Compiles, unless that was called off before. -/
def compileUnless (canceled : Bool) (fileId : UInt32) (file : File) (options : Options)
    (exercise : Option Exercise) : Except CallError Compiled :=
  if canceled then .error .canceled else (compile fileId file options exercise).mapError .program

end Peano.Program
