import Peano.Number.Decimal
import Peano.Source.File
import Peano.Text.Blank
import Peano.Text.Quoted
namespace Peano.Editor
open Source (lineFeed carriageReturn)

inductive FrameError where
  | badLength (value : Bytes) (why : Number.NumeralFault)
  | noLength
  | tooLong (length : Nat)
  | truncated
  deriving DecidableEq, Repr

def FrameError.message : FrameError → String
  | badLength value why =>
    "invalid Content-Length: strconv.Atoi: parsing " ++ Text.quoteBytes value ++ ": " ++ why.message
  | noLength => "missing Content-Length header"
  | tooLong n => s!"message of {n} bytes exceeds limit"
  | truncated => "unexpected EOF"

/-- What stands at the front of a stream: a message and what follows it, nothing any more, or nonsense. -/
inductive Frame where
  | message (payload rest : Bytes)
  | closed
  | failed (e : FrameError)
  deriving DecidableEq, Repr

def colon : UInt8 := 58

def maxMessageSize : Nat := 64 * 1024 * 1024

def cutLine? : Bytes → Option (Bytes × Bytes)
  | [] => none
  | b :: rest => if b = lineFeed then some ([], rest) else (cutLine? rest).map fun (l, r) => (b :: l, r)

theorem cutLine?_length {bs line rest : Bytes} (h : cutLine? bs = some (line, rest)) :
    rest.length < bs.length := by
  induction bs generalizing line with
  | nil => simp [cutLine?] at h
  | cons b bs ih =>
    simp only [cutLine?] at h
    split at h
    · obtain ⟨-, rfl⟩ : [] = line ∧ bs = rest := by simpa using h
      simp
    · cases hc : cutLine? bs with
      | none => simp [hc] at h
      | some p =>
        obtain ⟨l, r⟩ := p
        simp only [hc, Option.map_some, Option.some.injEq, Prod.mk.injEq] at h
        obtain ⟨-, rfl⟩ := h
        exact Nat.lt_succ_of_lt (ih hc)

def dropReturns (line : Bytes) : Bytes :=
  (line.reverse.dropWhile fun b => b == carriageReturn || b == lineFeed).reverse

def isWhiteRune : Text.Rune → Bool
  | .char c => Text.isWhite c
  | .bad _ => false

def trimBytes (bs : Bytes) : Bytes :=
  let runes := (Text.runes bs).dropWhile isWhiteRune
  ((runes.reverse.dropWhile isWhiteRune).reverse).flatMap Text.Rune.bytes

def lengthValue? (line : Bytes) : Option Bytes :=
  let name := line.takeWhile (· != colon)
  let value := (line.dropWhile (· != colon)).drop 1
  if line.contains colon ∧ (Bytes.toText (trimBytes name)).toLower = "content-length" then
    some (trimBytes value)
  else none

/-- The length given by header lines, or by the lines before, and what follows the empty line. The stream
may end before that. -/
def readHeader (length : Int) (bs : Bytes) : Except (Option FrameError) (Int × Bytes) :=
  match _h : cutLine? bs with
  | none => .error none
  | some (line, rest) =>
    let line := dropReturns line
    if line.isEmpty then .ok (length, rest)
    else
      match lengthValue? line with
      | none => readHeader length rest
      | some value =>
        match Number.int64Of value.toText with
        | .error why => .error (some (.badLength value why))
        | .ok n => readHeader n rest
termination_by bs.length
decreasing_by all_goals exact cutLine?_length ‹_›

theorem readHeader_length {length n : Int} {bs rest : Bytes}
    (h : readHeader length bs = .ok (n, rest)) : rest.length < bs.length := by
  fun_induction readHeader length bs with
  | case1 => simp at h
  | case2 length bs line after hcut =>
    obtain ⟨-, rfl⟩ : length = n ∧ after = rest := by simpa using h
    exact cutLine?_length hcut
  | case3 length bs line after hcut _ _ _ ih => exact Nat.lt_trans (ih h) (cutLine?_length hcut)
  | case4 => simp at h
  | case5 length bs line after hcut _ _ _ _ _ _ ih =>
    exact Nat.lt_trans (ih h) (cutLine?_length hcut)

def readMessage (bs : Bytes) : Frame :=
  match readHeader (-1) bs with
  | .error none => .closed
  | .error (some e) => .failed e
  | .ok (length, rest) =>
    if length < 0 then .failed .noLength
    else if maxMessageSize < length.toNat then .failed (.tooLong length.toNat)
    else if rest.length < length.toNat then if rest.isEmpty then .closed else .failed .truncated
    else .message (rest.take length.toNat) (rest.drop length.toNat)

theorem readMessage_length {bs payload rest : Bytes} (h : readMessage bs = .message payload rest) :
    rest.length < bs.length := by
  unfold readMessage at h
  split at h
  · cases h
  · cases h
  · rename_i n after ha
    split at h
    · cases h
    · split at h
      · cases h
      · split at h
        · split at h <;> cases h
        · cases h
          exact Nat.lt_of_le_of_lt (by simp) (readHeader_length ha)

def writeMessage (payload : Bytes) : Bytes :=
  Bytes.ofString s!"Content-Length: {payload.length}\r\n\r\n" ++ payload

end Peano.Editor
