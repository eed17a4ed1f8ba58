import Mathlib.Algebra.GroupWithZero.Nat
import Peano.Editor.Position
import Peano.Proofs.Text.Composed
namespace Peano.Editor
open List
open Source (File lineFeed lineFeedsFrom)
open Text (Rune Starts starts_cons runes leading? leading?_cases scalar? toNat_ofNat_small isTail runes_append
  runes_cons_small)

def lastLine : Bytes → Bytes
  | [] => []
  | b :: bs => if lineFeed ∈ b :: bs then lastLine bs else b :: bs

def column (bs : Bytes) : Nat := ((runes (lastLine bs)).map Rune.units).sum

def endPosition (bs : Bytes) : Position := ⟨bs.count lineFeed, column bs⟩

section Lines

variable {bs w rest : Bytes}

theorem lastLine_cons_of_mem (b : UInt8) (h : lineFeed ∈ bs) : lastLine (b :: bs) = lastLine bs := by
  rw [lastLine, if_pos (mem_cons_of_mem _ h)]

theorem lastLine_feed (bs : Bytes) : lastLine (lineFeed :: bs) = lastLine bs := by
  rw [lastLine, if_pos mem_cons_self]

theorem lastLine_of_not_mem (none : lineFeed ∉ bs) : lastLine bs = bs := by
  cases bs with
  | nil => rfl
  | cons b bs => rw [lastLine, if_neg none]

theorem not_mem_lastLine (bs : Bytes) : lineFeed ∉ lastLine bs := by
  induction bs with
  | nil => exact not_mem_nil
  | cons b bs ih =>
    unfold lastLine
    split
    · exact ih
    · assumption

theorem lastLine_suffix (bs : Bytes) : lastLine bs <:+ bs := by
  induction bs with
  | nil => exact suffix_rfl
  | cons b bs ih =>
    unfold lastLine
    split
    · exact ih.trans (suffix_cons b bs)
    · exact suffix_rfl

theorem lastLine_append (none : lineFeed ∉ w) (bs : Bytes) : lastLine (bs ++ w) = lastLine bs ++ w := by
  induction bs with
  | nil => exact lastLine_of_not_mem none
  | cons b bs ih =>
    by_cases feed : lineFeed ∈ b :: bs
    · have feed' : lineFeed ∈ b :: (bs ++ w) := mem_append_left w feed
      rw [cons_append, lastLine, if_pos feed', lastLine, if_pos feed, ih]
    · have none' : lineFeed ∉ b :: bs ++ w := fun mem => (mem_append.1 mem).elim feed none
      rw [lastLine_of_not_mem none', lastLine_of_not_mem feed]

theorem lastLine_append_feed (w bs : Bytes) : lastLine (w ++ lineFeed :: bs) = lastLine bs := by
  induction w with
  | nil => exact lastLine_feed bs
  | cons b w ih => rw [cons_append, lastLine_cons_of_mem b (by simp), ih]

/-- A text is split where a line starts. -/
theorem exists_line {l : Nat} (inside : l ≤ bs.count lineFeed) :
    ∃ pre rest, bs = pre ++ rest ∧ pre.count lineFeed = l ∧ lastLine pre = [] := by
  induction l generalizing bs with
  | zero => exact ⟨[], bs, rfl, rfl, rfl⟩
  | succ l ih =>
    have mem : lineFeed ∈ bs := count_pos_iff.1 (Nat.lt_of_lt_of_le (Nat.succ_pos l) inside)
    obtain ⟨w, later, rfl, none⟩ := eq_append_cons_of_mem mem
    rw [count_append, count_eq_zero.2 none, count_cons_self] at inside
    obtain ⟨pre, rest, rfl, count, last⟩ := @ih later (by omega)
    refine ⟨w ++ lineFeed :: pre, rest, by simp, ?_, by rw [lastLine_append_feed, last]⟩
    rw [count_append, count_eq_zero.2 none, count_cons_self, count, Nat.zero_add]

theorem afterLines?_append (bs rest : Bytes) :
    afterLines? (bs.count lineFeed) (bs ++ rest) = some (lastLine bs ++ rest) := by
  induction bs with
  | nil => cases rest <;> rfl
  | cons b bs ih =>
    by_cases feed : b = lineFeed
    · subst feed
      rw [count_cons_self, cons_append, afterLines?, if_pos rfl, ih, lastLine_feed]
    · by_cases more : lineFeed ∈ bs
      · obtain ⟨n, count⟩ := Nat.exists_eq_succ_of_ne_zero (Nat.ne_of_gt (count_pos_iff.2 more))
        rw [count] at ih
        rw [count_cons_of_ne feed, count, cons_append, afterLines?, if_neg feed, ih,
          lastLine_cons_of_mem b more]
      · have none : lineFeed ∉ b :: bs := fun mem => (mem_cons.1 mem).elim (feed ·.symm) more
        rw [count_eq_zero.2 none, lastLine_of_not_mem none]
        rfl

end Lines

section Feeds

theorem length_lineFeedsFrom (k : Nat) (bs : Bytes) : (lineFeedsFrom k bs).length = bs.count lineFeed := by
  induction bs generalizing k with
  | nil => rfl
  | cons b bs ih =>
    unfold lineFeedsFrom
    split
    next feed => rw [length_cons, ih, feed, count_cons_self]
    next other => rw [ih, count_cons_of_ne other]

theorem le_of_mem_lineFeedsFrom {k : Nat} {bs : Bytes} : ∀ x ∈ lineFeedsFrom k bs, k ≤ x := by
  induction bs generalizing k with
  | nil => exact nofun
  | cons b bs ih =>
    have later : ∀ x ∈ lineFeedsFrom (k + 1) bs, k ≤ x := fun x mem => Nat.le_of_succ_le (ih x mem)
    unfold lineFeedsFrom
    split
    · exact forall_mem_cons.2 ⟨Nat.le_refl k, later⟩
    · exact later

theorem lineFeedsFrom_lt_iff (k n : Nat) {bs : Bytes} {i : Nat} (inside : i < bs.count lineFeed) :
    (lineFeedsFrom k bs).getD i 0 < k + n ↔ i < (bs.take n).count lineFeed := by
  induction bs generalizing k n i with
  | nil => exact absurd inside (Nat.not_lt_zero i)
  | cons b bs ih =>
    cases n with
    | zero =>
      have bound : i < (lineFeedsFrom k (b :: bs)).length := by rwa [length_lineFeedsFrom]
      have far := le_of_mem_lineFeedsFrom _ (getElem_mem bound)
      rw [getD_eq_getElem?_getD, getElem?_eq_getElem bound, Option.getD_some, take_zero, count_nil]
      omega
    | succ n =>
      have shift : k + (n + 1) = k + 1 + n := by omega
      rw [take_succ_cons, lineFeedsFrom, shift]
      by_cases feed : b = lineFeed
      · subst feed
        rw [if_pos rfl, count_cons_self]
        rw [count_cons_self] at inside
        cases i with
        | zero =>
          rw [getD_cons_zero]
          omega
        | succ i => rw [getD_cons_succ, ih (k + 1) n (by omega), Nat.succ_lt_succ_iff]
      · rw [if_neg feed, count_cons_of_ne feed]
        rw [count_cons_of_ne feed] at inside
        exact ih (k + 1) n inside

theorem lastLine_start (k : Nat) (bs rest : Bytes) :
    (if bs.count lineFeed = 0 then k else (lineFeedsFrom k (bs ++ rest)).getD (bs.count lineFeed - 1) 0 + 1) +
      (lastLine bs).length = k + bs.length := by
  induction bs generalizing k with
  | nil => rfl
  | cons b bs ih =>
    have next := ih (k + 1)
    rw [cons_append, lineFeedsFrom, length_cons]
    by_cases feed : b = lineFeed
    · subst feed
      rw [if_pos rfl, count_cons_self, if_neg (Nat.succ_ne_zero _), Nat.add_sub_cancel, lastLine_feed]
      cases count : bs.count lineFeed with
      | zero =>
        rw [count, if_pos rfl] at next
        rw [getD_cons_zero]
        omega
      | succ n =>
        rw [count, if_neg (Nat.succ_ne_zero n), Nat.add_sub_cancel] at next
        rw [getD_cons_succ]
        omega
    · rw [if_neg feed, count_cons_of_ne feed]
      by_cases more : lineFeed ∈ bs
      · rw [if_neg (Nat.ne_of_gt (count_pos_iff.2 more))] at next ⊢
        rw [lastLine_cons_of_mem b more]
        omega
      · have none : lineFeed ∉ b :: bs := fun mem => (mem_cons.1 mem).elim (feed ·.symm) more
        rw [if_pos (count_eq_zero.2 more), lastLine_of_not_mem none, length_cons]

variable (f : File) (offset : Nat)

theorem length_feeds : f.feeds.length = f.content.count lineFeed := by
  rw [f.feeds_eq]
  exact length_lineFeedsFrom 0 f.content

theorem feeds_lt_iff {i : Nat} (inside : i < f.feeds.length) :
    f.feeds.getD i 0 < offset ↔ i < (f.content.take offset).count lineFeed := by
  rw [length_feeds] at inside
  have found := lineFeedsFrom_lt_iff 0 offset inside
  rw [Nat.zero_add] at found
  rw [f.feeds_eq]
  exact found

theorem lineStart_eq : f.lineStart ((f.content.take offset).count lineFeed) +
    (lastLine (f.content.take offset)).length = (f.content.take offset).length := by
  have start := lastLine_start 0 (f.content.take offset) (f.content.drop offset)
  rw [take_append_drop, Nat.zero_add] at start
  rw [File.lineStart, f.feeds_eq]
  exact start

theorem lineStart_of_split {f : File} {pre rest : Bytes} (split : f.content = pre ++ rest) (last : lastLine pre = []) :
    f.lineStart (pre.count lineFeed) = pre.length := by
  have start := lineStart_eq f pre.length
  rwa [split, take_left, last] at start

theorem count_take_le : (f.content.take offset).count lineFeed ≤ f.feeds.length := by
  rw [length_feeds]
  exact (take_sublist offset f.content).count_le lineFeed

theorem search_eq {test : Nat → Bool} {low high k : Nat} (passes : ∀ i < high, (test i ↔ k ≤ i))
    (least : low ≤ k) (most : k ≤ high) : search test low high = k := by
  fun_induction search test low high with
  | case1 low high more middle pass ih =>
    have inside : middle < high := by omega
    exact ih (fun i lt => passes i (by omega)) least ((passes middle inside).1 pass)
  | case2 low high more middle fail ih =>
    have inside : middle < high := by omega
    have later : ¬k ≤ middle := fun le => fail ((passes middle inside).2 le)
    exact ih passes (by omega) most
  | case3 low high none => omega

theorem foldl_units (n : Int) (rs : List Rune) :
    rs.foldl (fun n r => n + (r.units : Int)) n = n + ((rs.map Rune.units).sum : Nat) := by
  induction rs generalizing n with
  | nil => simp
  | cons r rs ih =>
    rw [foldl_cons, ih, map_cons, sum_cons]
    omega

/-- A position in a file is told by what stands before it. -/
theorem filePosition_eq : filePosition f offset = endPosition (f.content.take offset) := by
  have text : f.content.take (min offset f.size) = f.content.take offset := by
    rw [Nat.min_comm, ← take_take]
    exact take_of_length_le (length_take_le' offset f.content)
  have most := count_take_le f (min offset f.size)
  have line : search (fun i => min offset f.size ≤ f.feeds.getD i 0) 0 f.feeds.length =
      (f.content.take (min offset f.size)).count lineFeed := by
    refine search_eq (fun i inside => ?_) (Nat.zero_le _) most
    have before := feeds_lt_iff f (min offset f.size) inside
    rw [decide_eq_true_iff]
    omega
  have slice : f.slice (f.lineStart ((f.content.take (min offset f.size)).count lineFeed)) (min offset f.size) =
      lastLine (f.content.take (min offset f.size)) := by
    have start := lineStart_eq f (min offset f.size)
    obtain ⟨lines, split⟩ := lastLine_suffix (f.content.take (min offset f.size))
    have length := congrArg List.length split
    rw [length_append] at length
    rw [File.slice, ← drop_take]
    nth_rw 2 [← split]
    exact drop_left' (by omega)
  unfold filePosition
  dsimp only
  rw [line, slice, foldl_units, Int.zero_add, text]
  rfl

end Feeds

section Units

variable {b : UInt8} {bs : Bytes} {xs ys : List Rune}

theorem utf8Size_eq (c : Char) : c.utf8Size =
    if c.toNat ≤ 0x7F then 1 else if c.toNat ≤ 0x7FF then 2 else if c.toNat ≤ 0xFFFF then 3 else 4 := by
  rfl

theorem toNat_of_scalar? {least code : Nat} {c : Char} (h : scalar? least code = some c) :
    c.toNat = code ∧ least ≤ code := by
  unfold scalar? at h
  split at h
  next range =>
    rw [← Option.some.inj h, Char.ofNat, dif_pos range.2]
    exact ⟨rfl, range.1⟩
  · cases h

/-- A character takes the bytes it is read from, and is read from them alone. -/
theorem leading?_reads {c : Char} {n : Nat} (h : leading? b bs = some (c, n)) : c.utf8Size = n + 1 ∧
    ∃ own more, bs = own ++ more ∧ own.length = n ∧ ∀ w, leading? b (own ++ w) = some (c, n) := by
  have tail : ∀ d : UInt8, isTail d → d.toNat ≤ 0xBF := by
    intro d tail
    simp only [isTail, Bool.and_eq_true, decide_eq_true_eq] at tail
    exact tail.2
  have size : ∀ {least code n'}, (scalar? least code).map (fun c : Char => (c, (n' : Nat))) = some (c, n) →
      c.toNat = code ∧ least ≤ code ∧ n' = n := by
    intro least code n' made
    obtain ⟨c', found, same⟩ := Option.map_eq_some_iff.1 made
    obtain ⟨rfl, rfl⟩ := Prod.mk.inj same
    obtain ⟨code, low⟩ := toNat_of_scalar? found
    exact ⟨code, low, rfl⟩
  have lead := h
  rw [utf8Size_eq]
  unfold leading? at h
  dsimp only at h
  split at h
  next small =>
    obtain ⟨rfl, rfl⟩ := Prod.mk.inj (Option.some.inj h)
    rw [toNat_ofNat_small small, if_pos (by omega)]
    exact ⟨rfl, [], bs, rfl, rfl, Text.leading?_small small⟩
  next wide =>
  split at h
  next => cases h
  next first =>
  split at h
  next two =>
    split at h
    next d more =>
      split at h
      next ends =>
        obtain ⟨code, low, rfl⟩ := size h
        have := tail d ends
        rw [if_neg (by omega), if_pos (by omega)]
        refine ⟨rfl, [d], more, rfl, rfl, fun w => Eq.trans ?_ lead⟩
        simp only [leading?, if_pos two, cons_append]
      next => cases h
    next => cases h
  next long =>
  split at h
  next three =>
    split at h
    next d e more =>
      split at h
      next ends =>
        obtain ⟨code, low, rfl⟩ := size h
        rw [Bool.and_eq_true] at ends
        have := tail d ends.1
        have := tail e ends.2
        rw [if_neg (by omega), if_neg (by omega), if_pos (by omega)]
        refine ⟨rfl, [d, e], more, rfl, rfl, fun w => Eq.trans ?_ lead⟩
        simp only [leading?, if_pos three, cons_append]
      next => cases h
    next => cases h
  next longer =>
  split at h
  next four =>
    split at h
    next d e f more =>
      split at h
      next ends =>
        obtain ⟨code, low, rfl⟩ := size h
        rw [if_neg (by omega), if_neg (by omega), if_neg (by omega)]
        refine ⟨rfl, [d, e, f], more, rfl, rfl, fun w => Eq.trans ?_ lead⟩
        simp only [leading?, cons_append]
      next => cases h
    next => cases h
  next => cases h

theorem sum_sizes (bs : Bytes) : ((runes bs).map Rune.size).sum = bs.length := by
  induction bs using Text.runes.induct with
  | case1 =>
    rw [runes]
    rfl
  | case2 b rest c n lead ih =>
    have size : Rune.size (.char c) = n + 1 := (leading?_reads lead).1
    have within := Text.leading?_le lead
    rw [runes, lead, map_cons, sum_cons, ih, length_drop, length_cons]
    omega
  | case3 b rest lead ih =>
    rw [runes, lead, map_cons, sum_cons, length_cons, Rune.size]
    omega

theorem isFeed_runes (none : lineFeed ∉ bs) : ∀ r ∈ runes bs, isFeed r = false := by
  induction bs using Text.runes.induct with
  | case1 =>
    rw [runes]
    exact forall_mem_nil _
  | case2 b rest c n lead ih =>
    rw [mem_cons, not_or] at none
    rw [runes, lead]
    refine forall_mem_cons.2 ⟨?_, ih fun mem => none.2 (mem_of_mem_drop mem)⟩
    by_contra feed
    obtain rfl : c = '\n' := by simpa [isFeed] using feed
    rcases leading?_cases lead with ⟨small, same, -⟩ | ⟨-, high⟩
    · have code := congrArg Char.toNat same
      rw [toNat_ofNat_small small] at code
      exact none.1 (UInt8.toNat_inj.1 code)
    · exact absurd high (by decide)
  | case3 b rest lead ih =>
    rw [mem_cons, not_or] at none
    rw [runes, lead]
    exact forall_mem_cons.2 ⟨rfl, ih none.2⟩

theorem units_pos (r : Rune) : 0 < r.units := by
  cases r with
  | bad b => exact Nat.one_pos
  | char c =>
    unfold Rune.units
    dsimp only
    split <;> decide

theorem units_small (small : b < 0x80) : Rune.units (.char (Char.ofNat b.toNat)) = 1 := by
  have bound : b.toNat < 0x80 := small
  rw [Rune.units, toNat_ofNat_small small, if_neg (by omega)]

theorem advance_append (plain : ∀ r ∈ xs, isFeed r = false) (n : Nat) :
    advance ((xs.map Rune.units).sum + n) (xs ++ ys) = (xs.map Rune.size).sum + advance n ys := by
  induction xs with
  | nil => simp
  | cons x xs ih =>
    obtain ⟨first, others⟩ := forall_mem_cons.1 plain
    have more : (x.units + (xs.map Rune.units).sum + n) - x.units = (xs.map Rune.units).sum + n := by omega
    rw [map_cons, sum_cons, map_cons, sum_cons, cons_append, advance, if_neg ?_, more,
      ih others, Nat.add_assoc]
    simp [first]
    omega

theorem advance_zero (rs : List Rune) : advance 0 rs = 0 := by
  cases rs with
  | nil => rfl
  | cons r rs => rw [advance, if_pos (by simp [units_pos r])]

theorem size_pos (r : Rune) : 0 < r.size := by
  cases r with
  | bad b => exact Nat.one_pos
  | char c => exact c.utf8Size_pos

/-- A character of one code unit is reached after just the code units before it. -/
theorem advance_eq_iff {y : Rune} (plain : ∀ r ∈ xs, isFeed r = false) (next : isFeed y = false)
    (one : y.units = 1) (n : Nat) :
    advance n (xs ++ y :: ys) = (xs.map Rune.size).sum ↔ n = (xs.map Rune.units).sum := by
  induction xs generalizing n with
  | nil =>
    have pos := size_pos y
    rw [nil_append, advance, next]
    simp only [Bool.false_or, decide_eq_true_eq, map_nil, sum_nil]
    split <;> omega
  | cons x xs ih =>
    obtain ⟨first, others⟩ := forall_mem_cons.1 plain
    have pos := size_pos x
    rw [cons_append, advance, first, map_cons, sum_cons, map_cons, sum_cons]
    simp only [Bool.false_or, decide_eq_true_eq]
    split
    · omega
    · have rest := ih others (n - x.units)
      omega

end Units

section Offsets

variable {before after w : Bytes}

theorem offsetIn_line (before after : Bytes) (n : Nat) :
    offsetIn (before ++ after) ⟨before.count lineFeed, n⟩ + (lastLine before).length =
      before.length + advance n (runes (lastLine before ++ after)) := by
  have short := (lastLine_suffix before).length_le
  unfold offsetIn
  dsimp only
  rw [if_neg (by omega), Int.toNat_natCast, Int.toNat_natCast, afterLines?_append]
  dsimp only
  rw [length_append, length_append]
  omega

/-- The position behind a text is found where that text ends, in every text that goes on from it. -/
theorem offsetIn_endPosition
    (apart : runes (lastLine before ++ after) = runes (lastLine before) ++ runes after) :
    offsetIn (before ++ after) (endPosition before) = before.length := by
  have reached := @advance_append (runes (lastLine before)) (runes after)
    (isFeed_runes (not_mem_lastLine before)) 0
  have found := offsetIn_line before after (column before)
  rw [Nat.add_zero, advance_zero, sum_sizes, ← apart] at reached
  rw [column, reached] at found
  exact Nat.add_right_cancel found

/-- An ASCII character is found at the column that what stands before it has, and at no other one. -/
theorem offsetIn_eq_iff {k : UInt8} (small : k < 0x80) (other : k ≠ lineFeed) (n : Nat) :
    offsetIn (before ++ k :: after) ⟨before.count lineFeed, n⟩ = before.length ↔ n = column before := by
  have start : Starts (k :: after) := starts_cons small
  have next : isFeed (.char (Char.ofNat k.toNat)) = false := by
    have alone : lineFeed ∉ [k] := fun mem => other (mem_singleton.1 mem).symm
    refine isFeed_runes alone _ ?_
    rw [runes_cons_small small]
    exact mem_cons_self
  have found := offsetIn_line before (k :: after) n
  rw [runes_append start, runes_cons_small small] at found
  have reached := @advance_eq_iff _ (runes after) _ (isFeed_runes (not_mem_lastLine before)) next
    (units_small small) n
  rw [sum_sizes] at reached
  rw [column]
  omega

theorem runes_ascii_append (ascii : w.isAscii) (bs : Bytes) : runes (w ++ bs) = runes w ++ runes bs := by
  induction w with
  | nil =>
    rw [runes]
    rfl
  | cons b w ih =>
    rw [Bytes.isAscii, all_cons, Bool.and_eq_true, decide_eq_true_eq] at ascii
    rw [cons_append, runes_cons_small ascii.1, runes_cons_small ascii.1, ih ascii.2,
      cons_append]

theorem sum_units_ascii (ascii : w.isAscii) : ((runes w).map Rune.units).sum = w.length := by
  induction w with
  | nil =>
    rw [runes]
    rfl
  | cons b w ih =>
    rw [Bytes.isAscii, all_cons, Bool.and_eq_true, decide_eq_true_eq] at ascii
    rw [runes_cons_small ascii.1, map_cons, sum_cons, units_small ascii.1, ih ascii.2,
      length_cons, Nat.add_comm]

/-- An ASCII word takes one code unit for each byte. -/
theorem endPosition_append (ascii : w.isAscii) (none : lineFeed ∉ w) (bs : Bytes) :
    endPosition (bs ++ w) = ⟨bs.count lineFeed, (column bs + w.length : Nat)⟩ := by
  have start : Starts w := fun c head => of_decide_eq_true (all_eq_true.1 ascii c (mem_of_head? head))
  rw [endPosition, count_append, count_eq_zero.2 none, column, lastLine_append none,
    runes_append start, map_append, sum_append, sum_units_ascii ascii]
  rfl

theorem apply_word (ascii : w.isAscii) (full : w ≠ []) (none : lineFeed ∉ w) (before after text : Bytes) :
    Change.apply (before ++ (w ++ after)) ⟨some ⟨endPosition before, endPosition (before ++ w)⟩, text⟩ =
      before ++ (text ++ after) := by
  have start : Starts (w ++ after) := by
    intro c head
    obtain ⟨k, rest, rfl⟩ := exists_cons_of_ne_nil full
    exact of_decide_eq_true (all_eq_true.1 ascii c (Option.some.inj head ▸ mem_cons_self))
  have first : offsetIn (before ++ (w ++ after)) (endPosition before) = before.length :=
    offsetIn_endPosition (runes_append start _)
  have last : offsetIn (before ++ (w ++ after)) (endPosition (before ++ w)) = (before ++ w).length := by
    rw [← append_assoc]
    refine offsetIn_endPosition ?_
    have start' : Starts w := fun c head => start c (by rw [head?_append, head]; rfl)
    rw [lastLine_append none, append_assoc, runes_append start, runes_ascii_append ascii,
      runes_append start', append_assoc]
  unfold Change.apply
  dsimp only
  rw [first, last]
  have begins : min before.length (before ++ (w ++ after)).length = before.length := by simp
  have ends : min (max (before ++ w).length before.length) (before ++ (w ++ after)).length =
      (before ++ w).length := by
    simp only [length_append]
    omega
  rw [begins, ends, take_left, ← append_assoc before w, drop_left, append_assoc]

end Offsets

end Peano.Editor
