import Peano.Proofs.Editor.Positions
namespace Peano.Editor
open List
open Source (File lineFeed)
open Text (Rune Starts starts_cons runes leading? leading?_le)

/-- So many bytes of a text are whole characters, or bytes that belong to none. -/
def Whole (text : Bytes) (n : Nat) : Prop :=
  ∃ xs ys, runes text = xs ++ ys ∧ (xs.map Rune.size).sum = n

section Characters

variable {b : UInt8} {u v : Bytes} {n : Nat} {c : Char}

theorem leading?_of_append (h : leading? b (u ++ v) = some (c, n)) (inside : n ≤ u.length) :
    leading? b u = some (c, n) := by
  obtain ⟨-, own, more, split, rfl, reads⟩ := leading?_reads h
  obtain ⟨rest, rfl, -⟩ | ⟨rest, rfl, -⟩ := append_eq_append_iff.1 split
  · rw [length_append] at inside
    obtain rfl := length_eq_zero_iff.1 (show rest.length = 0 by omega)
    simpa using reads []
  · exact reads rest

theorem leading?_none_of_append (h : leading? b (u ++ v) = none) : leading? b u = none := by
  cases lead : leading? b u with
  | none => rfl
  | some found =>
    obtain ⟨-, own, more, rfl, -, reads⟩ := leading?_reads lead
    rw [append_assoc, reads] at h
    exact h

/-- A text that ends behind a character is read by itself. -/
theorem runes_of_append {xs ys : List Rune} (h : runes (u ++ v) = xs ++ ys)
    (length : (xs.map Rune.size).sum = u.length) : runes u = xs ∧ runes v = ys := by
  induction xs generalizing u with
  | nil =>
    obtain rfl := length_eq_zero_iff.1 length.symm
    exact ⟨by rw [runes], h⟩
  | cons x xs ih =>
    rw [map_cons, sum_cons] at length
    cases u with
    | nil =>
      have := size_pos x
      rw [length_nil] at length
      omega
    | cons b u =>
      rw [length_cons] at length
      rw [cons_append, runes] at h
      cases lead : leading? b (u ++ v) with
      | none =>
        rw [lead] at h
        obtain ⟨rfl, rest⟩ := List.cons.inj h
        have size : Rune.size (.bad b) = 1 := rfl
        obtain ⟨own, later⟩ := ih rest (by omega)
        rw [runes, leading?_none_of_append lead]
        exact ⟨congrArg _ own, later⟩
      | some found =>
        obtain ⟨c, n⟩ := found
        rw [lead] at h
        obtain ⟨rfl, rest⟩ := List.cons.inj h
        have size : Rune.size (.char c) = n + 1 := (leading?_reads lead).1
        have inside : n ≤ u.length := by omega
        rw [drop_append_of_le_length inside] at rest
        obtain ⟨own, later⟩ := ih rest (by rw [length_drop]; omega)
        rw [runes, leading?_of_append lead inside]
        exact ⟨congrArg _ own, later⟩

end Characters

section Advancing

variable {n m : Nat} {xs ys rs : List Rune}

theorem advance_splits (n : Nat) (rs : List Rune) :
    ∃ xs ys, rs = xs ++ ys ∧ (xs.map Rune.size).sum = advance n rs := by
  induction rs generalizing n with
  | nil => exact ⟨[], [], rfl, rfl⟩
  | cons r rs ih =>
    rw [advance]
    split
    · exact ⟨[], r :: rs, rfl, rfl⟩
    · obtain ⟨xs, ys, rfl, sum⟩ := ih (n - r.units)
      exact ⟨r :: xs, ys, rfl, by rw [map_cons, sum_cons, sum]⟩

theorem advance_mono (le : n ≤ m) (rs : List Rune) : advance n rs ≤ advance m rs := by
  induction rs generalizing n m with
  | nil => exact Nat.le_refl 0
  | cons r rs ih =>
    have next := @ih (n - r.units) (m - r.units) (by omega)
    rw [advance, advance]
    split
    · exact Nat.zero_le _
    · next stay =>
      rw [Bool.or_eq_true, not_or, decide_eq_true_iff] at stay
      rw [if_neg]
      · omega
      · simp [stay.1]
        omega

theorem advance_le {y : Rune} (feed : isFeed y) (n : Nat) :
    advance n (xs ++ y :: ys) ≤ (xs.map Rune.size).sum := by
  induction xs generalizing n with
  | nil => rw [nil_append, advance, feed]; exact Nat.le_refl 0
  | cons x xs ih =>
    have next := ih (n - x.units)
    rw [cons_append, advance, map_cons, sum_cons]
    split <;> omega

end Advancing

section Texts

variable {text pre rest : Bytes}

theorem runes_append_feed (pre rest : Bytes) :
    runes (pre ++ lineFeed :: rest) = runes pre ++ .char '\n' :: runes rest := by
  have start : Starts (lineFeed :: rest) := starts_cons (by decide)
  rw [Text.runes_append start, Text.runes_cons_small (by decide)]
  rfl

/-- The lines before a line are read by themselves. -/
theorem runes_line (last : lastLine pre = []) (rest : Bytes) : runes (pre ++ rest) = runes pre ++ runes rest := by
  obtain rfl | ⟨lines, b, rfl⟩ := eq_nil_or_concat pre
  · rw [runes]
    rfl
  · by_cases feed : b = lineFeed
    · rw [feed, concat_eq_append, append_assoc, singleton_append, runes_append_feed,
        runes_append_feed, runes, append_assoc]
      rfl
    · rw [concat_eq_append, lastLine_append (by simpa using Ne.symm feed)] at last
      simp at last

theorem afterLines?_none {l : Nat} (beyond : text.count lineFeed < l) : afterLines? l text = none := by
  fun_induction afterLines? l text with
  | case1 => exact absurd beyond (Nat.not_lt_zero _)
  | case2 => rfl
  | case3 n bs ih =>
    rw [count_cons_self] at beyond
    exact ih (by omega)
  | case4 n b bs other ih =>
    rw [count_cons_of_ne other] at beyond
    exact ih beyond

theorem offsetIn_lines (last : lastLine pre = []) (n : Nat) :
    offsetIn (pre ++ rest) ⟨pre.count lineFeed, n⟩ = pre.length + advance n (runes rest) := by
  have found := offsetIn_line pre rest n
  rwa [last] at found

theorem offsetIn_beyond {l : Nat} (beyond : text.count lineFeed < l) (n : Nat) :
    offsetIn text ⟨l, n⟩ = text.length := by
  unfold offsetIn
  dsimp only
  rw [if_neg (by omega), Int.toNat_natCast, afterLines?_none beyond]

/-- No position is inside a character. -/
theorem offsetIn_whole (text : Bytes) (p : Position) : Whole text (offsetIn text p) := by
  by_cases outside : p.line < 0 ∨ p.character < 0
  · exact ⟨[], runes text, rfl, by rw [offsetIn, if_pos outside]; rfl⟩
  obtain ⟨line, character⟩ := p
  rw [not_or, Int.not_lt, Int.not_lt] at outside
  lift line to Nat using outside.1
  lift character to Nat using outside.2
  by_cases inside : line ≤ text.count lineFeed
  · obtain ⟨pre, rest, rfl, rfl, last⟩ := exists_line inside
    obtain ⟨xs, ys, split, sum⟩ := advance_splits character (runes rest)
    refine ⟨runes pre ++ xs, ys, by rw [runes_line last, split, append_assoc], ?_⟩
    rw [map_append, sum_append, sum_sizes, sum, offsetIn_lines last]
  · refine ⟨runes text, [], (append_nil _).symm, ?_⟩
    rw [sum_sizes, offsetIn_beyond (Nat.lt_of_not_le inside)]

theorem Whole.le {n : Nat} (whole : Whole text n) : n ≤ text.length := by
  obtain ⟨xs, ys, split, rfl⟩ := whole
  rw [← sum_sizes, split, map_append, sum_append]
  exact Nat.le_add_right _ _

theorem offsetIn_lt {l : Nat} (earlier : l < pre.count lineFeed) (n : Nat) :
    offsetIn (pre ++ rest) ⟨l, n⟩ < pre.length := by
  obtain ⟨lines, line, rfl, rfl, start⟩ := exists_line (Nat.le_of_lt earlier)
  rw [count_append] at earlier
  have more : lineFeed ∈ line := count_pos_iff.1 (by omega)
  obtain ⟨own, later, rfl, -⟩ := eq_append_cons_of_mem more
  have short := @advance_le (runes own) (runes (later ++ rest)) _ (show isFeed (.char '\n') = true by decide) n
  rw [append_assoc, offsetIn_lines start, append_assoc, cons_append, runes_append_feed]
  rw [sum_sizes] at short
  simp only [length_append, length_cons]
  omega

theorem offsetIn_mono {p q : Position} (line : 0 ≤ p.line) (character : 0 ≤ p.character) (line' : 0 ≤ q.line)
    (character' : 0 ≤ q.character) (ordered : q.before p = false) : offsetIn text p ≤ offsetIn text q := by
  obtain ⟨l, n⟩ := p
  obtain ⟨m, k⟩ := q
  lift l to Nat using line
  lift n to Nat using character
  lift m to Nat using line'
  lift k to Nat using character'
  by_cases inside : m ≤ text.count lineFeed
  · obtain ⟨pre, rest, rfl, rfl, last⟩ := exists_line inside
    rw [offsetIn_lines last]
    simp only [Position.before] at ordered
    by_cases same : l = pre.count lineFeed
    · subst same
      have reach : n ≤ k := by simpa using ordered
      rw [offsetIn_lines last]
      exact Nat.add_le_add_left (advance_mono reach _) _
    · have earlier : l < pre.count lineFeed := by
        rw [if_pos (by omega), decide_eq_false_iff_not] at ordered
        omega
      exact Nat.le_trans (Nat.le_of_lt (offsetIn_lt earlier n)) (Nat.le_add_right _ _)
  · rw [offsetIn_beyond (Nat.lt_of_not_le inside)]
    exact (offsetIn_whole text _).le

end Texts

section Files

variable (f : File)

theorem fileOffset_eq (p : Position) : fileOffset f p = offsetIn f.content p := by
  by_cases outside : p.line < 0 ∨ p.character < 0
  · rw [fileOffset, if_pos outside, offsetIn, if_pos outside]
  obtain ⟨line, character⟩ := p
  rw [fileOffset, if_neg outside, length_feeds]
  rw [not_or, Int.not_lt, Int.not_lt] at outside
  lift line to Nat using outside.1
  lift character to Nat using outside.2
  dsimp only
  split
  next beyond => exact (offsetIn_beyond beyond character).symm
  next inside =>
    obtain ⟨pre, rest, split, rfl, last⟩ := exists_line (Nat.le_of_not_lt inside)
    rw [Int.toNat_natCast, Int.toNat_natCast, lineStart_of_split split last, split, drop_left, offsetIn_lines last]

theorem fileOffset_filePosition {offset : Nat} (inside : offset ≤ f.size)
    (whole : Whole (lastLine (f.content.take offset) ++ f.content.drop offset)
      (lastLine (f.content.take offset)).length) : fileOffset f (filePosition f offset) = offset := by
  obtain ⟨xs, ys, split, sum⟩ := whole
  obtain ⟨own, later⟩ := runes_of_append split sum
  have found := @offsetIn_endPosition (f.content.take offset) (f.content.drop offset) (by rw [split, own, later])
  rwa [take_append_drop, length_take_of_le inside, ← filePosition_eq, ← fileOffset_eq] at found

end Files

/-- Offsets and positions of a file. An offset between characters of its line is found again from its
position. The offset of any position is inside the content and splits no character of it, is the one the bare
text gives, and does not decrease along the positions. -/
theorem positions_offsets (f : File) : (∀ offset ≤ f.size,
      Whole (lastLine (f.content.take offset) ++ f.content.drop offset) (lastLine (f.content.take offset)).length →
        fileOffset f (filePosition f offset) = offset) ∧
    (∀ p, fileOffset f p ≤ f.size ∧ Whole f.content (fileOffset f p) ∧ fileOffset f p = offsetIn f.content p) ∧
    ∀ p q : Position, 0 ≤ p.line → 0 ≤ p.character → 0 ≤ q.line → 0 ≤ q.character → q.before p = false →
      fileOffset f p ≤ fileOffset f q := by
  refine ⟨fun offset inside whole => fileOffset_filePosition f inside whole, fun p => ?_, ?_⟩
  · have whole := offsetIn_whole f.content p
    rw [fileOffset_eq]
    exact ⟨whole.le, whole, rfl⟩
  · intro p q line character line' character' ordered
    rw [fileOffset_eq, fileOffset_eq]
    exact offsetIn_mono line character line' character' ordered

/-- A line with a character of two code units and a byte that belongs to none. -/
def pairLine : File :=
  { path := "a", content := [120, 10, 0xF0, 0x9F, 0x98, 0x80, 0xFF], flags := ⟨true, false, false, false⟩ }

theorem pairLine_found : fileOffset pairLine (filePosition pairLine 6) = 6 ∧
    Whole pairLine.content (fileOffset pairLine ⟨1, 1⟩) ∧
    fileOffset pairLine ⟨0, 7⟩ ≤ fileOffset pairLine ⟨1, 1⟩ := by
  obtain ⟨kept, found, ordered⟩ := positions_offsets pairLine
  have whole : Whole (lastLine (pairLine.content.take 6) ++ pairLine.content.drop 6) 4 :=
    ⟨[.char '😀'], [.bad 255], by decide +kernel, by decide +kernel⟩
  refine ⟨kept 6 (by decide) whole, (found _).2.1, ordered _ _ ?_ ?_ ?_ ?_ ?_⟩
  all_goals decide

end Peano.Editor
