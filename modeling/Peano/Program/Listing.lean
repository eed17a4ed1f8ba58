import Peano.Json.Writer
import Peano.Program.Evaluate
namespace Peano.Program
open Judgement (Record)

/-- A member that is left out when it is empty. -/
def unlessBlank (s : String) : Option Json := if s == "" then none else some (.str s)

/-- A record and what it has logged by now. -/
def recordJson (r : Record) (output : Option LogOutput) : Json :=
  let position := r.place.map fun e => Json.obj [("start", .nat e.start), ("end", .nat e.stop)]
  let head := [("kind", some (.str r.kindName)), ("position", position)]
  .present <| head ++ match r with
    | .error _ e fix =>
      [("message", unlessBlank e.message), ("code", some (.str e.code.id)),
        ("fix", fix.map fun text => .obj [("replaceWith", .str text)])]
    | .defined _ name type => [("name", unlessBlank name), ("type", unlessBlank type.text)]
    | .hover _ type => [("type", unlessBlank type.text)]
    | .required _ type ending =>
      [("type", unlessBlank (Judgement.requirementText type)), ("method", unlessBlank ending.text)]
    | .log .. =>
      [("output", output.map fun l => .str l.text),
        ("isError", output.bind fun l => if l.isError then some (.bool true) else none)]

/-- Pairs the logs among the records with their outputs, in order. -/
def withOutputs : List Record → List LogOutput → List (Record × Option LogOutput)
  | [], _ => []
  | r :: rs, outputs =>
    match r, outputs with
    | .log .., l :: outputs => (r, some l) :: withOutputs rs outputs
    | _, _ => (r, none) :: withOutputs rs outputs

def isHover : Record → Bool
  | .hover .. => true
  | _ => false

def isDefined : Record → Bool
  | .defined .. => true
  | _ => false

/-- The records in lists; `outputs` are what the logs gave, if the other records are wanted too. -/
def recordsJson (records : List Record) (outputs : Option (List LogOutput)) : Json :=
  let pairs := withOutputs records (outputs.getD [])
  let pick (p : Record → Bool) : List Json :=
    (pairs.filter fun (r, _) => p r).map fun (r, l) => recordJson r l
  let other := pick fun r => !(r.isError || isHover r || isDefined r)
  .present
    [("errors", some (.arr (pick Record.isError))), ("hovers", some (.arr (pick isHover))),
      ("defined", some (.arr (pick isDefined))),
      ("other", if outputs.isNone || other.isEmpty then none else some (.arr other))]

end Peano.Program
