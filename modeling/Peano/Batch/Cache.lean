import Peano.Digest
import Peano.Files.Tree
import Peano.Json.Reader
import Peano.Json.Record
import Peano.Json.Writer
import Peano.Program.Compile
import Peano.Timings
namespace Peano.Batch
open Diagnostic (Bag)
open Files (Trouble Host)

/-- What is known about a file once it has been checked, now or at some time before. -/
structure Checked where
  /-- The file, unless it could not be loaded. -/
  file : Option UInt32
  type : String := ""
  exercise : Option Judgement.Progress := none
  bag : Bag
  records : List Judgement.Record := []
  timings : Timings := .empty
  cached : Bool := false

namespace Checked

def hasErrors (c : Checked) : Bool := c.bag.hasErrors

def ofCompiled (c : Program.Compiled) : Checked :=
  { file := some c.fileId, type := c.type, exercise := c.exercise, bag := c.bag, records := c.records }

end Checked

/-- Entries of another schema do not count. -/
def schema : Nat := 1

structure CachedNote where
  start : UInt32
  stop : UInt32
  message : String
  deriving DecidableEq, Repr

/-- A diagnostic without its file. Of its fixes only the text of the first edit is kept. -/
structure CachedDiagnostic where
  severity : UInt8
  code : UInt16
  message : String
  start : UInt32
  stop : UInt32
  notes : List CachedNote
  fix : Option String
  deriving DecidableEq, Repr

namespace CachedDiagnostic

def ofDiagnostic (d : Diagnostic) : CachedDiagnostic :=
  { severity := d.severity.level
    code := d.code.number
    message := d.message
    start := d.primary.start
    stop := d.primary.stop
    notes := d.notes.map fun n => ⟨n.span.start, n.span.stop, n.message⟩
    fix := (d.fixes.head?.bind (·.edits.head?)).map (·.text) }

def restore (file : UInt32) (c : CachedDiagnostic) : Diagnostic :=
  let primary : Source.Span := ⟨file, c.start, c.stop⟩
  { severity := ⟨c.severity⟩
    code := ⟨c.code⟩
    message := c.message
    primary
    notes := c.notes.map fun n => ⟨⟨file, n.start, n.stop⟩, n.message⟩
    fixes := (c.fix.map (Diagnostic.Fix.replacement primary)).toList }

def json (c : CachedDiagnostic) : Json :=
  let note (n : CachedNote) : Json :=
    .obj [("Start", .nat n.start.toNat), ("End", .nat n.stop.toNat), ("Msg", .str n.message)]
  .obj [("Severity", .nat c.severity.toNat), ("Code", .nat c.code.toNat), ("Message", .str c.message),
    ("Start", .nat c.start.toNat), ("End", .nat c.stop.toNat),
    ("Notes", if c.notes.isEmpty then .null else .arr (c.notes.map note)),
    ("Fix", .str (c.fix.getD "")), ("HasFix", .bool c.fix.isSome)]

def ofMembers? (m : Json.Members) : Option CachedDiagnostic := do
  let notes ← (← m.records "Notes").mapM fun n => do
    return CachedNote.mk (← n.int "Start").toNat.toUInt32 (← n.int "End").toNat.toUInt32 (← n.str "Msg")
  let hasFix ← m.bool "HasFix"
  let text ← m.str "Fix"
  return {
    severity := (← m.int "Severity").toNat.toUInt8
    code := (← m.int "Code").toNat.toUInt16
    message := ← m.str "Message"
    start := (← m.int "Start").toNat.toUInt32
    stop := (← m.int "End").toNat.toUInt32
    notes
    fix := if hasFix then some text else none }

end CachedDiagnostic

structure CacheEntry where
  schema : Nat
  path : String
  type : String
  exercise : Option Judgement.Progress
  diagnostics : List CachedDiagnostic
  dropped : Nat
  deriving DecidableEq, Repr

namespace CacheEntry

def ofCompiled (c : Program.Compiled) : CacheEntry :=
  { schema := Batch.schema
    path := c.file.path
    type := c.type
    exercise := c.exercise
    diagnostics := c.bag.items.map .ofDiagnostic
    dropped := c.bag.dropped }

/-- The result for a file with the same content. -/
def restore (e : CacheEntry) (file : UInt32) (maxDiagnostics : Int) : Checked :=
  { file := some file
    type := e.type
    exercise := e.exercise
    bag := (Bag.make maxDiagnostics).addAll (e.diagnostics.map (·.restore file))
    cached := true }

def json (e : CacheEntry) : Json :=
  let progress (p : Judgement.Progress) : Json :=
    .obj [("SorryUsed", .bool p.sorryUsed), ("VarDefined", .bool p.isDefined),
      ("VarCorrectlyTyped", .bool p.isTyped)]
  .obj [("Schema", .nat e.schema), ("Path", .str e.path), ("Type", .str e.type),
    ("Exercise", (e.exercise.map progress).getD .null),
    ("Diags", if e.diagnostics.isEmpty then .null else .arr (e.diagnostics.map (·.json))),
    ("Dropped", .nat e.dropped)]

def ofJson? (j : Json) : Option CacheEntry := do
  let .obj m := j | none
  let progress (p : Json.Members) : Option Judgement.Progress := do
    return ⟨← p.bool "SorryUsed", ← p.bool "VarDefined", ← p.bool "VarCorrectlyTyped"⟩
  let exercise ← match ← Json.Members.record? m "Exercise" with
    | some p => some <$> progress p
    | none => pure none
  return {
    schema := (← Json.Members.int m "Schema").toNat
    path := ← Json.Members.str m "Path"
    type := ← Json.Members.str m "Type"
    exercise
    diagnostics := ← (← Json.Members.records m "Diags").mapM CachedDiagnostic.ofMembers?
    dropped := (← Json.Members.int m "Dropped").toNat }

def bytes (e : CacheEntry) : Bytes := Bytes.ofString e.json.compact

def ofBytes? (bs : Bytes) : Option CacheEntry := (Json.read? bs).bind ofJson?

end CacheEntry

/-- All that the result of a check depends on, as parts with their lengths before them. -/
def cacheKey (content : Bytes) (options : Program.Options) (exercise : Option Program.Exercise) : Bytes :=
  let parts := [s!"schema={schema}", s!"hardcoded={options.shortcuts}", s!"max={options.maxDiagnostics}"] ++
    match exercise with
    | some e => ["var=" ++ e.name, "type=" ++ e.type]
    | none => []
  Digest.digest (Digest.digest content ++
    parts.flatMap fun p => Bytes.ofString (toString p.utf8ByteSize ++ ":" ++ p))

structure Cache where
  dir : String
  deriving DecidableEq, Repr

namespace Cache
variable {m : Type → Type} [Monad m] [Host m]
variable (c : Cache)

/-- A cache in a directory, which is made if it is missing. -/
def prepare (dir : String) : m (Except Trouble Cache) := do
  match ← Files.makeDirs dir with
  | .ok () => return .ok ⟨dir⟩
  | .error e => return .error e

def entriesDir : String := Path.join c.dir "checks"

def entryPath (key : Bytes) : String := Path.join c.entriesDir (Bytes.hex key ++ ".json")

/-- The entry of a key. An entry that is missing or has another schema is not there; one that cannot be read
is a complaint. -/
def find (key : Bytes) : m (Except String (Option CacheEntry)) := do
  match ← Host.read (c.entryPath key) with
  | .error ⟨_, _, .missing⟩ => return .ok none
  | .error f => return .error f.message
  | .ok bs =>
    match CacheEntry.ofBytes? bs with
    | none => return .error "decode cache entry: malformed entry"
    | some e => return .ok (if e.schema = schema then some e else none)

def store (key : Bytes) (e : CacheEntry) : m (Except String Unit) := do
  match ← Files.makeDirs c.entriesDir with
  | .error f => return .error f.message
  | .ok () =>
    match ← Host.write .replace (c.entryPath key) e.bytes with
    | .error fault => return .error (Trouble.message ⟨"open", c.entryPath key, fault⟩)
    | .ok () => return .ok ()

def entryPaths : m (List String) := do
  match ← Host.list c.entriesDir with
  | .error _ => return []
  | .ok names =>
    return (names.filter fun (name, _) => Path.extension name == ".json").map fun (name, _) =>
      Path.join c.entriesDir name

def clear : m (Except Trouble Unit) := do
  match ← Host.removeTree c.dir with
  | .error .missing => return .ok ()
  | .error fault => return .error ⟨"rename", c.dir, fault⟩
  | .ok () => Files.makeDirs c.dir

end Cache
end Peano.Batch
