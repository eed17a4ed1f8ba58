import Peano.Editor.Framing
import Peano.Proofs.Text.Composed
namespace Peano.Editor
open List
open Source (lineFeed carriageReturn)

/-- The messages that are read one after the other, and what stops the stream before its end. -/
def messages (stream : Bytes) : List Bytes × Option FrameError :=
  match _h : readMessage stream with
  | .closed => ([], none)
  | .failed e => ([], some e)
  | .message payload rest => (messages rest).map (payload :: ·) id
termination_by stream.length
decreasing_by exact readMessage_length ‹_›

section Numerals

variable {n : Nat} {b : UInt8}

def numeral (n : Nat) : Bytes := (Nat.toDigits 10 n).map fun c => UInt8.ofNat c.toNat

theorem digit_code {c : Char} (h : c ∈ Nat.toDigits 10 n) :
    48 ≤ c.toNat ∧ c.toNat ≤ 57 ∧ (UInt8.ofNat c.toNat).toNat = c.toNat := by
  have digit := Nat.isDigit_of_mem_toDigits (by decide) (by decide) h
  have code : 48 ≤ c.toNat ∧ c.toNat ≤ 57 := by simpa [Char.isDigit, UInt32.le_iff_toNat_le] using digit
  exact ⟨code.1, code.2, UInt8.toNat_ofNat_of_lt' (show c.toNat < 256 by omega)⟩

theorem digit_of_mem (h : b ∈ numeral n) : 48 ≤ b ∧ b ≤ 57 := by
  obtain ⟨c, mem, rfl⟩ := mem_map.1 h
  have := digit_code mem
  simp only [UInt8.le_iff_toNat_le, this]
  exact ⟨this.1, this.2.1⟩

theorem isAscii_numeral (n : Nat) : (numeral n).isAscii :=
  all_eq_true.2 fun b mem => decide_eq_true (Nat.lt_of_le_of_lt (digit_of_mem mem).2 (by decide))

theorem toText_numeral (n : Nat) : Bytes.toText (numeral n) = toString n := by
  have same : (Nat.toDigits 10 n).map (fun c => Char.ofNat (UInt8.ofNat c.toNat).toNat) =
      Nat.toDigits 10 n := by
    refine (map_congr_left fun c mem => ?_).trans (map_id _)
    rw [(digit_code mem).2.2, Char.ofNat_toNat]
    rfl
  rw [Bytes.toText, Bytes.runes_of_isAscii (isAscii_numeral n), map_map, numeral, map_map]
  exact congrArg String.ofList same

theorem int64Of_numeral (fits : n < Number.int64Bound) : Number.int64Of (toString n) = .ok n := by
  have digits : ∀ c ∈ Nat.toDigits 10 n, c.isDigit := fun c mem =>
    Nat.isDigit_of_mem_toDigits (by decide) (by decide) mem
  have number : Number.digitsNat (Nat.toDigits 10 n) = n := Nat.ofDigitChars_ten_toDigits
  have text : (toString n).toList = Nat.toDigits 10 n := String.toList_ofList
  rw [Number.int64Of, Number.signed, text]
  cases split : Nat.toDigits 10 n with
  | nil => exact absurd split Nat.toDigits_ne_nil
  | cons c cs =>
    rw [split] at digits number
    have first := digits c mem_cons_self
    have minus : c ≠ '-' := by rintro rfl; cases first
    have plus : c ≠ '+' := by rintro rfl; cases first
    simp [Number.int64, minus, plus, all_eq_true.2 digits, number, Nat.not_le.2 fits]

end Numerals

section Words

variable {α : Type} {p : α → Bool} {l : List α}

theorem dropWhile_of_none (h : ∀ x ∈ l, p x = false) : l.dropWhile p = l := by
  cases l with
  | nil => rfl
  | cons x l => rw [dropWhile_cons_of_neg (by simp [h x mem_cons_self])]

theorem trimBytes_word {pad word : Bytes} (ascii : (pad ++ word).isAscii)
    (white : ∀ b ∈ pad, Text.isWhite (Char.ofNat b.toNat))
    (black : ∀ b ∈ word, Text.isWhite (Char.ofNat b.toNat) = false) : trimBytes (pad ++ word) = word := by
  have none : ∀ r ∈ word.map fun b => Text.Rune.char (Char.ofNat b.toNat), isWhiteRune r = false := by
    simpa [isWhiteRune] using black
  rw [trimBytes, Bytes.runes_of_isAscii ascii, map_append, dropWhile_append_of_pos, dropWhile_of_none none,
    dropWhile_of_none (by simpa using none), reverse_reverse, flatMap_map]
  · have small : ∀ b ∈ word, b < 0x80 := fun b mem =>
      of_decide_eq_true (all_eq_true.1 ascii b (mem_append_right _ mem))
    refine (flatMap_congr fun b mem => Text.bytes_small (small b mem)).trans ?_
    simp
  · simpa [isWhiteRune] using white

theorem cutLine?_append {line : Bytes} (inside : lineFeed ∉ line) (rest : Bytes) :
    cutLine? (line ++ lineFeed :: rest) = some (line, rest) := by
  induction line with
  | nil => rfl
  | cons b line ih =>
    rw [mem_cons, not_or] at inside
    rw [cons_append, cutLine?, if_neg (Ne.symm inside.1), ih inside.2]
    rfl

end Words

section Header

def lengthName : Bytes := Bytes.ofString "Content-Length"

def lengthLine (n : Nat) : Bytes := lengthName ++ colon :: 32 :: numeral n

theorem isAscii_lengthName : lengthName.isAscii := by with_unfolding_all decide

theorem toText_lengthName : (Bytes.toText lengthName).toLower = "content-length" := by
  decide +kernel

theorem writeMessage_eq (payload : Bytes) : writeMessage payload = lengthLine payload.length ++
    carriageReturn :: lineFeed :: carriageReturn :: lineFeed :: payload := by
  have digits : Bytes.ofString (toString payload.length) = numeral payload.length := by
    rw [← toText_numeral, Bytes.ofString_toText (isAscii_numeral _)]
  have head : Bytes.ofString "Content-Length: " = lengthName ++ [colon, 32] := by
    with_unfolding_all decide
  have ends : Bytes.ofString "\r\n\r\n" = [carriageReturn, lineFeed, carriageReturn, lineFeed] := by
    with_unfolding_all decide
  rw [writeMessage, Bytes.ofString_append, Bytes.ofString_append, digits]
  simp [toString, head, ends, lengthLine]

theorem lengthValue?_lengthLine (n : Nat) : lengthValue? (lengthLine n) = some (numeral n) := by
  have name : ∀ b ∈ lengthName, (b != colon) = true ∧ Text.isWhite (Char.ofNat b.toNat) = false := by
    decide +kernel
  have black : ∀ b ∈ numeral n, Text.isWhite (Char.ofNat b.toNat) = false := by
    have digits : ∀ k < 58, 48 ≤ k → Text.isWhite (Char.ofNat k) = false := by
      decide +kernel
    intro b mem
    obtain ⟨low, high⟩ := digit_of_mem mem
    exact digits b.toNat (Nat.lt_succ_of_le high) low
  have value : trimBytes ([32] ++ numeral n) = numeral n :=
    trimBytes_word (all_append.trans (isAscii_numeral n)) (by decide +kernel) black
  have trimmed : trimBytes lengthName = lengthName :=
    @trimBytes_word [] _ isAscii_lengthName (forall_mem_nil _) fun b mem => (name b mem).2
  have plain : ∀ b ∈ lengthName, (b != colon) = true := fun b mem => (name b mem).1
  rw [lengthValue?, lengthLine, takeWhile_append_of_pos plain, dropWhile_append_of_pos plain]
  simpa [toText_lengthName, trimmed] using value

variable {line rest : Bytes} {length : Int}

theorem cutLine?_plain (plain : ∀ b ∈ line, b ≠ carriageReturn ∧ b ≠ lineFeed) :
    cutLine? (line ++ carriageReturn :: lineFeed :: rest) = some (line ++ [carriageReturn], rest) ∧
      dropReturns (line ++ [carriageReturn]) = line := by
  have black : ∀ b ∈ line.reverse, (b == carriageReturn || b == lineFeed) = false := by simpa using plain
  have inside : lineFeed ∉ line ++ [carriageReturn] := by
    simpa [lineFeed, carriageReturn] using fun mem => (plain lineFeed mem).2 rfl
  exact ⟨by simpa using cutLine?_append inside rest, by simp [dropReturns, dropWhile_of_none black]⟩

theorem readHeader_empty : readHeader length (carriageReturn :: lineFeed :: rest) = .ok (length, rest) := by
  have cut : cutLine? (carriageReturn :: lineFeed :: rest) = some ([carriageReturn], rest) := rfl
  rw [readHeader]
  split
  next ended => cases ended.symm.trans cut
  next found =>
    obtain ⟨rfl, rfl⟩ := Prod.mk.inj (Option.some.inj (cut.symm.trans found))
    rfl

theorem readHeader_lengthLine {n : Nat} (fits : n < Number.int64Bound) :
    readHeader length (lengthLine n ++ carriageReturn :: lineFeed :: rest) = readHeader n rest := by
  have name : ∀ b ∈ lengthName ++ [colon, 32], b ≠ carriageReturn ∧ b ≠ lineFeed := by
    decide +kernel
  have plain : ∀ b ∈ lengthLine n, b ≠ carriageReturn ∧ b ≠ lineFeed := by
    rw [lengthLine, append_cons, append_cons, append_assoc lengthName]
    refine forall_mem_append.2 ⟨name, fun b mem => ?_⟩
    have low := (digit_of_mem mem).1
    constructor <;> rintro rfl <;> exact absurd low (by decide)
  obtain ⟨cut, dropped⟩ := @cutLine?_plain _ rest plain
  rw [readHeader]
  split
  next ended => cases ended.symm.trans cut
  next found =>
    obtain ⟨rfl, rfl⟩ := Prod.mk.inj (Option.some.inj (cut.symm.trans found))
    have full : (lengthLine n).isEmpty = false := by simp [lengthLine]
    simp only [dropped, full, lengthValue?_lengthLine, toText_numeral, int64Of_numeral fits]
    rfl

end Header

theorem readMessage_written {payload : Bytes} (fits : payload.length ≤ maxMessageSize) (rest : Bytes) :
    readMessage (writeMessage payload ++ rest) = .message payload rest := by
  have bound : payload.length < Number.int64Bound := Nat.lt_of_le_of_lt fits (by decide)
  rw [writeMessage_eq, append_assoc]
  simp only [cons_append, readMessage, readHeader_lengthLine bound, readHeader_empty]
  have whole : ¬payload.length + rest.length < payload.length := by omega
  simp [Nat.not_lt.2 fits, whole]

/-- Messages of a size that is allowed are read back in order from what is written, up to its end. -/
theorem messages_written {payloads : List Bytes} (fit : ∀ p ∈ payloads, p.length ≤ maxMessageSize) :
    messages (payloads.flatMap writeMessage) = (payloads, none) := by
  induction payloads with
  | nil =>
    have closed : readMessage [] = .closed := by
      rw [readMessage, readHeader]
      rfl
    rw [flatMap_nil, messages, closed]
  | cons p payloads ih =>
    rw [forall_mem_cons] at fit
    rw [flatMap_cons, messages, readMessage_written fit.1]
    simp [ih fit.2]

/-- An empty message, and one that looks like a header with its message. -/
theorem header_in_message_written : (∀ p ∈ [[], writeMessage [10, 13, 10]], p.length ≤ maxMessageSize) ∧
      messages ([[], writeMessage [10, 13, 10]].flatMap writeMessage) =
        ([[], writeMessage [10, 13, 10]], none) := by
  have fit : ∀ p ∈ [[], writeMessage [10, 13, 10]], p.length ≤ maxMessageSize := by
    with_unfolding_all decide
  exact ⟨fit, messages_written fit⟩

end Peano.Editor
