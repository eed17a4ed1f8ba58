import Mathlib.Data.List.TakeWhile
import Peano.Proofs.Editor.Positions
namespace Peano.Editor
open List
open Source (File LineCol countBefore lineFeed lineFeedsFrom)

theorem countBefore_eq {offset low high k : Nat} {feeds : List Nat}
    (before : ∀ i < high, (feeds.getD i 0 < offset ↔ i < k)) (least : low ≤ k) (most : k ≤ high) :
    countBefore offset feeds low high = k := by
  fun_induction countBefore offset feeds low high with
  | case1 low high more middle less ih =>
    have inside : middle < high := by omega
    exact ih before ((before middle inside).1 less) most
  | case2 low high more middle other ih =>
    have inside : middle < high := by omega
    have later : ¬middle < k := fun lt => other ((before middle inside).2 lt)
    exact ih (fun i lt => before i (by omega)) least (by omega)
  | case3 low high none => omega

/-- A line and its column are told by what stands before an offset. -/
theorem position_eq (f : File) {offset : UInt32} (inside : offset.toNat ≤ f.size) :
    f.position offset = ⟨((f.content.take offset.toNat).count lineFeed + 1).toUInt32,
      ((lastLine (f.content.take offset.toNat)).length + 1).toUInt32⟩ := by
  have count : countBefore offset.toNat f.feeds 0 f.feeds.length = (f.content.take offset.toNat).count lineFeed :=
    countBefore_eq (fun i lt => feeds_lt_iff f offset.toNat lt) (Nat.zero_le _) (count_take_le f offset.toNat)
  have start := lineStart_eq f offset.toNat
  have whole : offset = UInt32.ofNat (f.lineStart ((f.content.take offset.toNat).count lineFeed)) +
      UInt32.ofNat (lastLine (f.content.take offset.toNat)).length := by
    rw [← UInt32.ofNat_add, start, length_take_of_le inside, UInt32.ofNat_toNat]
  have column : offset - UInt32.ofNat (f.lineStart ((f.content.take offset.toNat).count lineFeed)) + 1 =
      UInt32.ofNat ((lastLine (f.content.take offset.toNat)).length + 1) := by
    rw [UInt32.ofNat_add]
    grind
  rw [File.position, count]
  exact congrArg (LineCol.mk _) column

section Splitting

variable {k : Nat} {bs : Bytes}

theorem lineFeedsFrom_append (k : Nat) (w rest : Bytes) :
    lineFeedsFrom k (w ++ rest) = lineFeedsFrom k w ++ lineFeedsFrom (k + w.length) rest := by
  induction w generalizing k with
  | nil => rfl
  | cons b w ih =>
    have shift : k + (w.length + 1) = k + 1 + w.length := by omega
    rw [cons_append, lineFeedsFrom, lineFeedsFrom, length_cons, shift, ih]
    split <;> rfl

theorem lineFeedsFrom_of_not_mem (none : lineFeed ∉ bs) : lineFeedsFrom k bs = [] := by
  rw [← length_eq_zero_iff, length_lineFeedsFrom]
  exact count_eq_zero.2 none

theorem lineFeedsFrom_line {w : Bytes} (none : lineFeed ∉ w) (k : Nat) (rest : Bytes) :
    lineFeedsFrom k (w ++ lineFeed :: rest) = (k + w.length) :: lineFeedsFrom (k + w.length + 1) rest := by
  rw [lineFeedsFrom_append, lineFeedsFrom_of_not_mem none, nil_append, lineFeedsFrom, if_pos rfl]

theorem take_line (k : Nat) (bs : Bytes) :
    bs.take ((lineFeedsFrom k bs).getD 0 (k + bs.length) - k) = bs.takeWhile (· != lineFeed) := by
  have whole {w : Bytes} (none : lineFeed ∉ w) : ∀ b ∈ w, (b != lineFeed) :=
    fun b mem => bne_iff_ne.2 fun same => none (same ▸ mem)
  by_cases mem : lineFeed ∈ bs
  · obtain ⟨w, rest, rfl, none⟩ := eq_append_cons_of_mem mem
    rw [lineFeedsFrom_line none, takeWhile_append_of_pos (whole none)]
    simp
  · rw [lineFeedsFrom_of_not_mem mem, takeWhile_eq_self_iff.2 (whole mem)]
    simp

/-- The line of a text that another text ends in goes on in what follows. -/
theorem splitOn_count (before rest : Bytes) : ((before ++ rest).splitOn lineFeed)[before.count lineFeed]? =
    some (lastLine before ++ rest.takeWhile (· != lineFeed)) := by
  induction before with
  | nil =>
    rw [nil_append, count_nil, lastLine]
    induction rest with
    | nil => rfl
    | cons b rest ih =>
      rw [splitOn_cons_eq_if_modifyHead]
      by_cases feed : b = lineFeed
      · simp [feed]
      · simp [feed, ih]
  | cons b bs ih =>
    rw [cons_append, splitOn_cons_eq_if_modifyHead]
    by_cases feed : b = lineFeed
    · subst feed
      rw [if_pos (beq_self_eq_true _), count_cons_self, getElem?_cons_succ, ih, lastLine_feed]
    · rw [if_neg (by simpa using feed), count_cons_of_ne feed, getElem?_modifyHead, ih]
      by_cases more : lineFeed ∈ bs
      · rw [if_neg (Nat.ne_of_gt (count_pos_iff.2 more)), lastLine_cons_of_mem b more]
      · have none : lineFeed ∉ b :: bs := fun mem => (mem_cons.1 mem).elim (feed ·.symm) more
        rw [if_pos (count_eq_zero.2 more), lastLine_of_not_mem more, lastLine_of_not_mem none]
        rfl

theorem length_splitOn (bs : Bytes) : (bs.splitOn lineFeed).length = bs.count lineFeed + 1 := by
  induction bs with
  | nil => rfl
  | cons b bs ih =>
    rw [splitOn_cons_eq_if_modifyHead]
    by_cases feed : b = lineFeed
    · simp [feed, ih]
    · simp [feed, ih]

end Splitting

section Lookup

theorem line_eq (f : File) {l : Nat} (inside : l ≤ f.content.count lineFeed) :
    (f.content.splitOn lineFeed)[l]? = some (f.line (l + 1)) := by
  obtain ⟨pre, rest, split, rfl, last⟩ := exists_line inside
  have known : ¬(pre.count lineFeed + 1 = 0 ∨ f.feeds.length + 1 < pre.count lineFeed + 1) := by
    rw [length_feeds]
    omega
  have feed : f.feeds.getD (pre.count lineFeed) f.size =
      (lineFeedsFrom pre.length rest).getD 0 (pre.length + rest.length) := by
    have length := length_lineFeedsFrom 0 pre
    rw [f.feeds_eq, File.size, split, Source.lineFeeds, lineFeedsFrom_append, length_append, Nat.zero_add,
      getD_eq_getElem?_getD, getElem?_append_right (Nat.le_of_eq length), length, Nat.sub_self]
    rfl
  rw [File.line, if_neg known, File.slice, Nat.add_sub_cancel, lineStart_of_split split last, feed, split,
    drop_left, take_line, splitOn_count, last, nil_append]

theorem lines_eq (f : File) :
    (List.range (f.content.count lineFeed + 1)).map (fun l => f.line (l + 1)) = f.content.splitOn lineFeed := by
  have length := length_splitOn f.content
  refine ext_getElem? fun l => ?_
  by_cases inside : l < f.content.count lineFeed + 1
  · rw [getElem?_map, getElem?_range inside, line_eq f (Nat.le_of_lt_succ inside)]
    rfl
  · rw [getElem?_eq_none]
    all_goals simp [length]; omega

/-- Both ways of looking up an offset give the number of line feeds before it, and the column is what
stands behind the last one of them, as 32-bit numbers. The lines of a file are its content split at the
line feeds, and a byte of the content stands at its column in its line. -/
theorem line_lookup_exact (f : File) (offset : UInt32) (fits : f.size < 2 ^ 32) (inside : offset.toNat ≤ f.size) :
    let before := f.content.take offset.toNat
    let lines := (List.range (f.content.count lineFeed + 1)).map fun l => f.line (l + 1)
    f.position offset = ⟨(before.count lineFeed + 1).toUInt32, ((lastLine before).length + 1).toUInt32⟩ ∧
    (filePosition f offset.toNat).line = before.count lineFeed ∧
    lines = f.content.splitOn lineFeed ∧ [lineFeed].intercalate lines = f.content ∧
    ∀ b ≠ lineFeed, f.content[offset.toNat]? = some b →
      (f.line (f.position offset).line.toNat)[(f.position offset).col.toNat - 1]? = some b := by
  intro before lines
  have all : lines = f.content.splitOn lineFeed := lines_eq f
  refine ⟨position_eq f inside, ?_, all, by rw [all, List.intercalate_splitOn], fun b other found => ?_⟩
  · rw [filePosition_eq]
    rfl
  · obtain ⟨bound, here⟩ := List.getElem?_eq_some_iff.1 found
    have split : f.content = before ++ b :: f.content.drop (offset.toNat + 1) := by
      rw [← here, ← List.drop_eq_getElem_cons bound, List.take_append_drop]
    have length : before.length = offset.toNat := List.length_take_of_le inside
    have next : before.length + 1 < 2 ^ 32 := length ▸ Nat.lt_of_le_of_lt bound fits
    have few : before.count lineFeed ≤ before.length := List.count_le_length
    have short := (lastLine_suffix before).length_le
    have number : (f.position offset).line.toNat = before.count lineFeed + 1 := by
      rw [position_eq f inside]
      exact UInt32.toNat_ofNat_of_lt' (show before.count lineFeed + 1 < 2 ^ 32 by omega)
    have column : (f.position offset).col.toNat = (lastLine before).length + 1 := by
      rw [position_eq f inside]
      exact UInt32.toNat_ofNat_of_lt' (show (lastLine before).length + 1 < 2 ^ 32 by omega)
    have line := splitOn_count before (b :: f.content.drop (offset.toNat + 1))
    rw [← split, line_eq f ((List.take_sublist offset.toNat f.content).count_le lineFeed)] at line
    rw [number, column, Option.some.inj line, Nat.add_sub_cancel]
    simp [other]

def twoLines : File := File.make "a" (Bytes.ofString "x\nyz") true

theorem twoLines_found : twoLines.position 3 = ⟨2, 2⟩ ∧ (filePosition twoLines 3).line = 1 ∧
    [twoLines.line 1, twoLines.line 2] = twoLines.content.splitOn lineFeed ∧ (twoLines.line 2)[1]? = some 122 := by
  obtain ⟨position, line, lines, -, byte⟩ := line_lookup_exact twoLines 3 (by decide +kernel) (by decide +kernel)
  have found : twoLines.position 3 = ⟨2, 2⟩ := position.trans (by decide +kernel)
  have count : twoLines.content.count lineFeed = 1 := by decide +kernel
  have last := byte 122 (by decide) (by decide +kernel)
  rw [count] at lines
  rw [found] at last
  exact ⟨found, line.trans (by decide +kernel), lines, last⟩

end Lookup
end Peano.Editor
