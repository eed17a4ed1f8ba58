import Peano.Text.Blank
import Peano.Text.Bytes
import Peano.Text.ClusterClass
import Peano.Text.Width
namespace Peano.Text

/-- What the text before a possible break ends in: the class of the last character, whether a
pictograph with its extensions stands there, and whether an odd run of regional letters does. -/
structure ClusterState where
  last : ClusterClass
  pictograph : Bool
  joined : Bool
  oddRegional : Bool

def ClusterState.start (cls : ClusterClass) : ClusterState :=
  ⟨cls, cls = .pictograph, false, cls = .regional⟩

def ClusterState.next (s : ClusterState) (cls : ClusterClass) : ClusterState where
  last := cls
  pictograph := cls = .pictograph || (s.pictograph && cls = .extend)
  joined := s.pictograph && cls = .joiner
  oddRegional := cls = .regional && !(s.last = .regional && s.oddRegional)

/-- Whether a character of class `cls` stays in the cluster. -/
def ClusterState.continues (s : ClusterState) (cls : ClusterClass) : Bool :=
  match s.last, cls with
  | .cr, .lf => true
  | .cr, _ | .lf, _ | .control, _ => false
  | _, .cr | _, .lf | _, .control => false
  | .leadingJamo, .leadingJamo | .leadingJamo, .vowelJamo
  | .leadingJamo, .openSyllable | .leadingJamo, .closedSyllable => true
  | .openSyllable, .vowelJamo | .openSyllable, .trailingJamo
  | .vowelJamo, .vowelJamo | .vowelJamo, .trailingJamo => true
  | .closedSyllable, .trailingJamo | .trailingJamo, .trailingJamo => true
  | _, .extend | _, .joiner | _, .spacing => true
  | .prepended, _ => true
  | .joiner, .pictograph => s.joined
  | .regional, .regional => s.oddRegional
  | _, _ => false

/-- How many bytes a first byte announces after itself. -/
def tailLength (b : UInt8) : Nat :=
  if b < 0xC2 then 0 else if b < 0xE0 then 1 else if b < 0xF0 then 2 else if b < 0xF8 then 3 else 0

/-- Bytes that stay together, with their class. There is none where the text ends before all the
announced bytes have come. -/
structure Piece where
  bytes : Bytes
  cls : Option ClusterClass
  deriving DecidableEq, Repr

/-- The class of the character at the front; bytes that make up no character have none of their own. -/
def frontClass (b : UInt8) (rest : Bytes) : ClusterClass :=
  match leading? b rest with
  | some (c, _) => clusterClass c
  | none => .other

/-- The text in pieces: a first byte with those of the announced bytes that follow it in a row. -/
def pieces : Bytes → List Piece
  | [] => []
  | b :: rest =>
    let announced := rest.take (tailLength b)
    if announced.length < tailLength b then [⟨b :: rest, none⟩]
    else
      let tail := announced.takeWhile isTail
      ⟨b :: tail, some (frontClass b rest)⟩ :: pieces (rest.drop tail.length)
termination_by bs => bs.length
decreasing_by simp only [List.length_drop, List.length_cons]; omega

/-- Splits off what continues the cluster in state `s`. What has no class, an unfinished character,
stays with what stands before it, and so does the rest. -/
def clusterRest {α : Type} (cls : α → Option ClusterClass) (s : ClusterState) : List α → List α × List α
  | [] => ([], [])
  | x :: xs =>
    match cls x with
    | none => (x :: xs, [])
    | some k =>
      if s.continues k then
        let (inside, outside) := clusterRest cls (s.next k) xs
        (x :: inside, outside)
      else ([], x :: xs)

theorem clusterRest_length {α : Type} (cls : α → Option ClusterClass) (s : ClusterState)
    (xs : List α) : (clusterRest cls s xs).2.length ≤ xs.length := by
  induction xs generalizing s with
  | nil => simp [clusterRest]
  | cons x xs ih =>
    simp only [clusterRest]
    split
    · simp
    · split
      · exact Nat.le_succ_of_le (ih _)
      · simp

def groupPieces : List Piece → List (List Piece)
  | [] => []
  | p :: ps =>
    let split := clusterRest Piece.cls (.start (p.cls.getD .other)) ps
    (p :: split.1) :: groupPieces split.2
termination_by ps => ps.length
decreasing_by exact Nat.lt_succ_of_le (clusterRest_length _ _ _)

def clusters (bs : Bytes) : List Bytes :=
  (groupPieces (pieces bs)).map fun c => c.flatMap Piece.bytes

def clusterColumns (ambiguous : Ambiguous) (cluster : Bytes) : Nat :=
  (((runes cluster).map fun r => columns ambiguous r.shown).find? (· > 0)).getD 0

def displayColumns (ambiguous : Ambiguous) (bs : Bytes) : Nat :=
  (clusters bs).foldl (fun n c => n + clusterColumns ambiguous c) 0

def fitClusters (room : Nat) : List Bytes → List Bytes
  | [] => []
  | c :: cs =>
    let width := clusterColumns .narrow c
    if width ≤ room then c :: fitClusters (room - width) cs else []

def truncate (text : String) (width : Nat) (mark : String) : String :=
  let bs := Bytes.ofString text
  if displayColumns .narrow bs ≤ width then text
  else
    let room := width - displayColumns .narrow (Bytes.ofString mark)
    Bytes.toText (fitClusters room (clusters bs)).flatten ++ mark

def padRight (text : String) (width : Nat) : String :=
  text ++ blanks (width - displayColumns .narrow (Bytes.ofString text))

end Peano.Text
