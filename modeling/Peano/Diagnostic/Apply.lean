import Peano.Diagnostic.Basic
import Peano.Source.File
namespace Peano.Diagnostic
open Source (File FileSet LineCol Span)

structure Candidate where
  diagnostic : Diagnostic
  fix : Fix
  deriving DecidableEq, Repr

/-- Whether at most one fix is taken for each file. -/
inductive ApplyMode where
  | once
  | all
  deriving DecidableEq, Repr

inductive SkipReason where
  | unknownFile
  | virtualFile
  | normalizedFile
  | severalFiles
  | outOfRange
  | conflict
  | onePerFile
  deriving DecidableEq, Repr

def SkipReason.message : SkipReason → String
  | unknownFile => "unknown file"
  | virtualFile => "target file is virtual"
  | normalizedFile => "file was normalized on load"
  | severalFiles => "fix spans several files"
  | outOfRange => "edit span out of range"
  | conflict => "conflicts with a previous fix"
  | onePerFile => "one fix per file"

structure Applied where
  title : String
  code : Code
  message : String
  path : String
  start : LineCol
  deriving DecidableEq, Repr

structure Skipped where
  title : String
  path : String
  reason : SkipReason
  deriving DecidableEq, Repr

structure Patch where
  file : UInt32
  edits : List Edit
  deriving DecidableEq, Repr

structure Selection where
  applied : List Applied := []
  skipped : List Skipped := []
  patches : List Patch := []
  deriving DecidableEq, Repr

structure FileChange where
  path : String
  edits : Nat
  content : Bytes
  deriving DecidableEq, Repr

def candidates (ds : List Diagnostic) : List Candidate :=
  ds.flatMap fun d => (d.fixes.filter (!·.edits.isEmpty)).map (Candidate.mk d)

/-- Order by the places of the diagnostics. -/
def Candidate.before (a b : Candidate) : Bool :=
  let p := a.diagnostic.primary
  let q := b.diagnostic.primary
  if p.file ≠ q.file then p.file < q.file
  else if p.start ≠ q.start then p.start < q.start
  else p.stop ≤ q.stop

/-- Spans conflict when they overlap. Insertions never conflict with each other, and one conflicts with
a span only strictly inside it. -/
def conflicts (a b : Span) : Bool :=
  if a.start = a.stop ∧ b.start = b.stop then false
  else if a.start = a.stop then b.start < a.start && a.start < b.stop
  else if b.start = b.stop then a.start < b.start && b.start < a.stop
  else a.start < b.stop && b.start < a.stop

def refusal? (f : File) : Option SkipReason :=
  if f.flags.isVirtual then some .virtualFile
  else if f.flags.isNormalized then some .normalizedFile
  else none

def editFault? (file : UInt32) (size : Nat) (taken : List Edit) (e : Edit) : Option SkipReason :=
  if e.span.file ≠ file then some .severalFiles
  else if e.span.stop < e.span.start ∨ size < e.span.stop.toNat then some .outOfRange
  else if taken.any fun prev => conflicts prev.span e.span then some .conflict
  else none

namespace Selection

def editsOf (s : Selection) (file : UInt32) : List Edit :=
  ((s.patches.find? (·.file == file)).map (·.edits)).getD []

/-- Adds edits to the patch of a file, a new one after all others. -/
def addEdits (patches : List Patch) (file : UInt32) (edits : List Edit) : List Patch :=
  match patches with
  | [] => [⟨file, edits⟩]
  | p :: rest =>
    if p.file = file then ⟨file, p.edits ++ edits⟩ :: rest else p :: addEdits rest file edits

def skip (s : Selection) (c : Candidate) (path : String) (reason : SkipReason) : Selection :=
  { s with skipped := s.skipped ++ [⟨c.fix.title, path, reason⟩] }

def take (s : Selection) (c : Candidate) (f : File) : Selection :=
  let d := c.diagnostic
  { s with
    applied := s.applied ++ [⟨c.fix.title, d.code, d.message, f.path, f.position d.primary.start⟩]
    patches := addEdits s.patches d.primary.file c.fix.edits }

def fault? (s : Selection) (mode : ApplyMode) (c : Candidate) (f : File) : Option SkipReason :=
  let file := c.diagnostic.primary.file
  let taken := s.editsOf file
  (refusal? f).or <|
    (c.fix.edits.findSome? (editFault? file f.size taken)).or <|
      if mode = .once ∧ taken ≠ [] then some .onePerFile else none

def step (fs : FileSet) (mode : ApplyMode) (s : Selection) (c : Candidate) : Selection :=
  match fs.get? c.diagnostic.primary.file with
  | none => s.skip c "" .unknownFile
  | some f =>
    match s.fault? mode c f with
    | some reason => s.skip c f.path reason
    | none => s.take c f

end Selection

def noFixes : String := "no applicable fixes found"

/-- The fixes taken and skipped among all that are proposed. -/
def select (fs : FileSet) (mode : ApplyMode) (ds : List Diagnostic) : Selection :=
  ((candidates ds).mergeSort Candidate.before).foldl (Selection.step fs mode) {}

/-- Makes one edit, unless it reaches beyond the content. -/
def Edit.apply? (content : Bytes) (e : Edit) : Option Bytes :=
  if e.span.stop.toNat ≤ content.length then
    some (content.take e.span.start.toNat ++ Bytes.ofString e.text ++ content.drop e.span.stop.toNat)
  else none

/-- Makes edits from the back to the front, so that offsets before an edit stay valid. Edits of one
fix may overlap, and then one of them may reach beyond what the others leave. -/
def applyEdits? (content : Bytes) (edits : List Edit) : Option Bytes :=
  (edits.mergeSort fun a b => b.span.start ≤ a.span.start).foldlM Edit.apply? content

def Patch.change? (fs : FileSet) (p : Patch) : Option FileChange := do
  let f ← fs.get? p.file
  let content ← applyEdits? f.content p.edits
  return ⟨f.path, p.edits.length, content⟩

def Selection.changes? (fs : FileSet) (s : Selection) : Option (List FileChange) :=
  s.patches.mapM (Patch.change? fs)

/-- What comes of the fixes of some diagnostics. -/
structure Outcome where
  selection : Selection
  changes : List FileChange
  complaint : Option String
  deriving DecidableEq, Repr

def outcome? (fs : FileSet) (mode : ApplyMode) (ds : List Diagnostic) : Option Outcome := do
  let s := select fs mode ds
  let changes ← s.changes? fs
  return ⟨s, changes, if s.applied.isEmpty then some noFixes else none⟩

def noFiles : String := "fix: FileSet is nil"

/-- What comes of fixes if there may be no files at all. -/
def outcomeIn? (files : Option FileSet) (mode : ApplyMode) (ds : List Diagnostic) : Option Outcome :=
  match files with
  | some fs => outcome? fs mode ds
  | none => some ⟨{}, [], some noFiles⟩

end Peano.Diagnostic
