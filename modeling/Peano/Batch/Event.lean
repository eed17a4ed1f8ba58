namespace Peano.Batch

/-- How far a file has come. -/
inductive Stage where
  | load
  | cache
  | parse
  | check
  deriving DecidableEq, Repr

def Stage.name : Stage → String
  | load => "load"
  | cache => "cache"
  | parse => "parse"
  | check => "check"

def Stage.ofName? : String → Option Stage
  | "load" => some load
  | "cache" => some cache
  | "parse" => some parse
  | "check" => some check
  | _ => none

inductive Status where
  | queued
  | working
  | done
  | error
  deriving DecidableEq, Repr

def Status.name : Status → String
  | queued => "queued"
  | working => "working"
  | done => "done"
  | error => "error"

def Status.ofName? : String → Option Status
  | "queued" => some queued
  | "working" => some working
  | "done" => some done
  | "error" => some error
  | _ => none

/-- A stage or status that is not known says nothing. The time is in nanoseconds. -/
structure Event where
  file : String
  stage : Option Stage
  status : Option Status
  complaint : String := ""
  elapsed : Int := 0
  deriving DecidableEq, Repr

end Peano.Batch
