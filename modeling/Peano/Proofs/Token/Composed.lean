import Peano.Proofs.Text.Letters
import Peano.Proofs.Token.Swapped
namespace Peano.Token
open List
open Text (composed composed_append composed_firm composed_nil composed_of_isAscii composed_plain Starts)
open Bytes (isAscii)

/-- The second text has the bytes before the digits of the first one, with others between them, but none
where there were none. -/
inductive Refilled : Bytes → Bytes → Prop
  | nil : Refilled [] []
  | cons {b : UInt8} {u v bs bs' : Bytes} : b < 48 → (∀ c ∈ u, 48 ≤ c) → (∀ c ∈ v, 48 ≤ c) →
      (u = [] ↔ v = []) → Refilled bs bs' → Refilled (b :: (u ++ bs)) (b :: (v ++ bs'))

section Refilling

variable {b : UInt8} {bs bs' : Bytes}
variable {c : UInt8}

theorem exists_plain_part (bs : Bytes) :
    ∃ u rest, bs = u ++ rest ∧ (∀ c ∈ u, 48 ≤ c) ∧ ∀ c ∈ rest.head?, c < 48 := by
  induction bs with
  | nil => exact ⟨[], [], rfl, by simp, by simp⟩
  | cons b bs ih =>
    by_cases firm : b < 48
    · refine ⟨[], b :: bs, rfl, by simp, ?_⟩
      rintro c ⟨⟩
      exact firm
    · obtain ⟨u, rest, rfl, plain, next⟩ := ih
      exact ⟨b :: u, rest, rfl, forall_mem_cons.2 ⟨by grind, plain⟩, next⟩

theorem refilled_composed (first : ∀ b ∈ bs.head?, b < 48) : Refilled bs (composed bs) := by
  induction length : bs.length using Nat.strong_induction_on generalizing bs with
  | _ n ih =>
    cases bs with
    | nil =>
      rw [composed_nil]
      exact .nil
    | cons b bs =>
      have firm : b < 48 := first b rfl
      obtain ⟨u, rest, rfl, plain, next⟩ := exists_plain_part bs
      obtain ⟨v, result, others, same⟩ := composed_firm firm plain
      have start : Starts rest := by
        intro c mem
        grind
      have shorter : rest.length < n := by
        rw [← length, length_cons, length_append]
        omega
      rw [← cons_append, composed_append start, result]
      exact .cons firm plain others same (ih rest.length shorter next rfl)

theorem Refilled.cons_inv (h : Refilled (b :: bs) bs') : ∃ u v rest rest', bs = u ++ rest ∧
    bs' = b :: (v ++ rest') ∧ (∀ c ∈ u, 48 ≤ c) ∧ (∀ c ∈ v, 48 ≤ c) ∧ (u = [] ↔ v = []) ∧
      Refilled rest rest' := by
  generalize whole : b :: bs = text at h
  cases h with
  | nil => cases whole
  | @cons c u v rest rest' firm plain others same refilled =>
    obtain ⟨rfl, rfl⟩ := List.cons.inj whole
    exact ⟨u, v, rest, rest', rfl, rfl, plain, others, same, refilled⟩

/-- Nothing is put between two bytes before the digits. -/
theorem Refilled.tail {d : UInt8} (h : Refilled (b :: c :: bs) (d :: bs')) (firm : c < 48) :
    Refilled (c :: bs) bs' := by
  obtain ⟨u, v, rest, rest', split, split', plain, -, same, refilled⟩ := h.cons_inv
  cases u with
  | nil =>
    rw [same.1 rfl] at split'
    rw [split, (List.cons.inj split').2]
    exact refilled
  | cons d u =>
    obtain ⟨rfl, -⟩ := List.cons.inj split
    have := plain c mem_cons_self
    grind

theorem Refilled.mem {c : UInt8} (h : Refilled bs bs') (firm : c < 48) (mem : c ∈ bs') : c ∈ bs := by
  induction h with
  | nil => exact mem
  | @cons b u v bs bs' _ plain others same refilled ih =>
    rw [mem_cons, mem_append] at mem ⊢
    rcases mem with rfl | mem | mem
    · exact .inl rfl
    · grind
    · exact .inr (.inr (ih mem))

theorem count_plain (firm : c < 48) (plain : ∀ d ∈ bs, 48 ≤ d) : bs.count c = 0 := by
  refine count_eq_zero.2 fun mem => ?_
  grind

theorem Refilled.count (h : Refilled bs bs') (firm : c < 48) : bs'.count c = bs.count c := by
  induction h with
  | nil => rfl
  | @cons b u v bs bs' _ plain others same refilled ih =>
    rw [count_cons, count_cons, count_append, count_append, ih, count_plain firm plain,
      count_plain firm others]

/-- Composition keeps the number of every byte before the digits. -/
theorem count_composed (firm : c < 48) (bs : Bytes) : (composed bs).count c = bs.count c := by
  obtain ⟨u, rest, rfl, plain, next⟩ := exists_plain_part bs
  have start : Starts rest := by
    intro c mem
    grind
  rw [composed_append start, count_append, count_append, (refilled_composed next).count firm,
    count_plain firm plain, count_plain firm (composed_plain plain)]

theorem commentLength?_plain {u : Bytes} (plain : ∀ c ∈ u, 48 ≤ c) (bs : Bytes) :
    commentLength? (u ++ bs) = (commentLength? bs).map (· + u.length) := by
  induction u with
  | nil => simp
  | cons b u ih =>
    rw [forall_mem_cons] at plain
    have inside : ¬[42, 47] <+: b :: (u ++ bs) := by
      rw [cons_prefix_cons]
      rintro ⟨rfl, -⟩
      exact absurd plain.1 (by decide)
    rw [cons_append, commentLength?_cons inside, ih plain.2, Option.map_map]
    rfl

theorem Refilled.head?_eq (h : Refilled bs bs') : bs'.head? = bs.head? := by
  cases h <;> rfl

theorem Refilled.singleton (h : Refilled [b] bs') : bs' = [b] := by
  obtain ⟨u, v, rest, rest', split, rfl, -, -, same, refilled⟩ := h.cons_inv
  obtain ⟨rfl, rfl⟩ := append_eq_nil_iff.1 split.symm
  rw [same.1 rfl]
  cases refilled
  rfl

/-- Two bytes before the digits stand side by side in both texts or in neither one. -/
theorem pair_prefix_iff {x y : UInt8} {u : Bytes} (firm : y < 48) (plain : ∀ c ∈ u, 48 ≤ c) :
    [x, y] <+: b :: (u ++ bs) ↔ b = x ∧ u = [] ∧ bs.head? = some y := by
  cases u with
  | nil => cases bs <;> simp [eq_comm]
  | cons c u =>
    have other : y ≠ c := by
      rintro rfl
      have := plain y mem_cons_self
      grind
    simp [other]

/-- A comment ends where it did. -/
theorem Refilled.comment (h : Refilled bs bs') (closed : commentLength? bs = some bs.length) :
    commentLength? bs' = some bs'.length := by
  induction h with
  | nil => cases closed
  | @cons b u v bs bs' firm plain others same refilled ih =>
    by_cases closing : [42, 47] <+: b :: (u ++ bs)
    · obtain ⟨rfl, rfl, slash⟩ := (pair_prefix_iff (by decide) plain).1 closing
      obtain ⟨rest, rfl⟩ := head?_eq_some_iff.1 slash
      have last : rest = [] := by
        have two : some 2 = some (rest.length + 2) := closed
        have length := Option.some.inj two
        exact eq_nil_of_length_eq_zero (by omega)
      subst last
      rw [same.1 rfl, refilled.singleton]
      rfl
    · have goes : ¬[42, 47] <+: b :: (v ++ bs') := by
        rwa [pair_prefix_iff (by decide) others, ← same, refilled.head?_eq,
          ← pair_prefix_iff (by decide) plain]
      rw [commentLength?_cons closing, commentLength?_plain plain, Option.map_map] at closed
      obtain ⟨n, found, sum⟩ := Option.map_eq_some_iff.1 closed
      obtain rfl : n = bs.length := by
        rw [length_cons, length_append] at sum
        dsimp only [Function.comp_apply] at sum
        omega
      rw [commentLength?_cons goes, commentLength?_plain others, ih found, length_cons,
        length_append, Nat.add_comm v.length]
      rfl

end Refilling

section Comments

variable {w w' bs bs' : Bytes} {c : Lexeme.Class}

theorem all_of_countWhile {p : UInt8 → Bool} (h : countWhile p (w ++ bs) = w.length) :
    w.all p ∧ Ends p bs := by
  induction w with
  | nil => exact ⟨rfl, countWhile_eq_zero_iff.1 h⟩
  | cons b w ih =>
    rw [cons_append, countWhile_cons] at h
    split at h
    next more =>
      obtain ⟨all, stop⟩ := ih (Nat.succ.inj h)
      exact ⟨by rw [all_cons, more, all, Bool.and_self], stop⟩
    · cases h

theorem Refilled.cutComment?_eq (h : Refilled (47 :: w) (47 :: w'))
    (next : (∀ b ∈ bs.head?, b < 48) → bs'.head? = bs.head?) (closed : c ≠ .spacing (.blockComment false))
    (whole : cutComment? (w ++ bs) = some (c, w.length)) : cutComment? (w' ++ bs') = some (c, w'.length) := by
  rw [cutComment?_eq_some_iff closed] at whole ⊢
  rcases whole with ⟨u, rfl, rfl, line⟩ | ⟨u, rfl, rfl, block⟩
  · obtain ⟨v, v', rest, rest', rfl, rfl, plain, others, -, refilled⟩ := (h.tail (by decide)).cons_inv
    obtain ⟨all, stop⟩ := all_of_countWhile line
    refine .inl ⟨v' ++ rest', rfl, rfl, countWhile_append ?_ ?_⟩
    · rw [all_eq_true] at all ⊢
      intro b mem
      by_contra feed
      obtain rfl : b = 10 := by simpa using feed
      rcases mem_append.1 mem with mem | mem
      · exact absurd (others 10 mem) (by decide)
      · exact feed (all 10 (mem_append_right _ (refilled.mem (by decide) mem)))
    · have feeds : ∀ b ∈ bs.head?, b < 48 := by
        intro b mem
        obtain rfl : b = 10 := by simpa using stop b mem
        decide
      rwa [Ends, next feeds]
  · obtain ⟨v, v', rest, rest', rfl, rfl, plain, others, -, refilled⟩ := (h.tail (by decide)).cons_inv
    have alone : commentLength? (v ++ rest ++ []) = some (v ++ rest).length := commentLength?_append block le_rfl
    have ends : commentLength? rest = some rest.length := by
      rw [append_nil, commentLength?_plain plain, Option.map_eq_some_iff] at alone
      obtain ⟨n, found, sum⟩ := alone
      rw [found, length_append] at *
      congr 1
      omega
    have ends' : commentLength? (v' ++ rest' ++ []) = some (v' ++ rest').length := by
      rw [append_nil, commentLength?_plain others, refilled.comment ends, length_append,
        Nat.add_comm]
      rfl
    exact .inr ⟨v' ++ rest', rfl, rfl, commentLength?_append ends' le_rfl⟩

end Comments

section Lexemes

variable {b : UInt8} {bs : Bytes}

theorem isAscii_append (s t : Bytes) : (s ++ t).isAscii = (s.isAscii && t.isAscii) := all_append

theorem isAscii_takeWhile {p : UInt8 → Bool} (small : ∀ b, p b → b < 0x80) (bs : Bytes) :
    isAscii (bs.take (countWhile p bs)) := by
  rw [take_countWhile, isAscii, all_eq_true]
  intro b mem
  exact decide_eq_true (small b (all_eq_true.1 all_takeWhile b mem))

theorem small_of_isSpaceOrNewline (b : UInt8) (h : isSpaceOrNewline b) : b < 0x80 := by
  unfold isSpaceOrNewline isBlank at h
  grind

theorem isAscii_logTail {n : Nat} (h : logTail? bs = some n) : isAscii (bs.take n) := by
  obtain ⟨_, tail, ⟨s, t, rfl, spaces⟩, rfl, -, rfl⟩ := logTail?_eq_some_iff.1 h
  rw [forall_mem_append] at spaces
  rw [take_left]
  simpa [isAscii] using
    ⟨fun b hb => small_of_isSpaceOrNewline b (spaces.1 b hb), fun b hb => small_of_isSpaceOrNewline b (spaces.2 b hb)⟩

theorem isAscii_cutWord (start : isWordStart b) : isAscii (b :: bs.take (cutWord b bs).2) := by
  have letter : b < 0x80 := small_of_isWordByte (by simp [isWordByte, start])
  have word := isAscii_takeWhile (fun _ => small_of_isWordByte) bs
  have rest : isAscii (bs.take (cutWord b bs).2) := by
    unfold cutWord
    dsimp only
    split
    next tail found =>
      split at found
      · rw [take_add, isAscii_append, word, isAscii_logTail found]
        rfl
      · cases found
    · exact word
  simpa [isAscii, letter] using rest

/-- Only a comment may hold other characters. -/
theorem isAscii_or_comment (valid : (cut b bs).1 ≠ .token .invalid) :
    isAscii (b :: bs.take (cut b bs).2) ∨ b = 47 ∧ cutComment? bs = some (cut b bs) := by
  have run : ∀ {p : UInt8 → Bool}, b < 0x80 → (∀ b, p b → b < 0x80) →
      isAscii (b :: bs.take (countWhile p bs)) := by
    intro p letter small
    have rest := isAscii_takeWhile small bs
    simpa [isAscii, letter] using rest
  have way := cut_cases b bs
  generalize cut b bs = piece at way valid ⊢
  cases way with
  | space blank =>
    have small : ∀ b, isBlank b → b < 0x80 := fun b h =>
      small_of_isSpaceOrNewline b (by simp [isSpaceOrNewline, h])
    exact .inl (run (small b blank) small)
  | newline line =>
    subst line
    exact .inl (run (by decide) fun b h => small_of_isSpaceOrNewline b (by simp [isSpaceOrNewline, h]))
  | word letter => exact .inl (isAscii_cutWord letter)
  | digits digit => exact .inl (run (small_of_isDigit digit) fun _ => small_of_isDigit)
  | comment slash found => exact .inr ⟨slash, found⟩
  | sign => exact .inl ((cutSign_cases b bs).resolve_left valid).2

theorem small_of_cut (valid : (cut b bs).1 ≠ .token .invalid) : b < 0x80 := by
  rcases isAscii_or_comment valid with ascii | ⟨rfl, -⟩
  · rw [isAscii, all_cons, Bool.and_eq_true, decide_eq_true_eq] at ascii
    exact ascii.1
  · decide

theorem Lexeme.valid {text : Bytes} {c : Lexeme.Class} (clean : Lexeme.fault? ⟨c, text⟩ = none) :
    c ≠ .token .invalid ∧ c ≠ .spacing (.blockComment false) := by
  refine ⟨?_, ?_⟩
  · rintro rfl
    cases clean
  · rintro rfl
    cases clean

theorem starts_of_clean (clean : ∀ l ∈ lexemes bs, l.fault? = none) : Starts bs := by
  intro b head
  obtain ⟨rest, rfl⟩ := head?_eq_some_iff.1 head
  rw [lexemes_cons, forall_mem_cons] at clean
  exact small_of_cut (Lexeme.valid clean.1).1

theorem composed_comment {w : Bytes} {c : Lexeme.Class} (closed : c ≠ .spacing (.blockComment false))
    (whole : cutComment? (w ++ bs) = some (c, w.length))
    (normal : composed (47 :: w) ++ composed bs = 47 :: w ++ bs) : composed (47 :: w) = 47 :: w := by
  have refilled : Refilled (47 :: w) (composed (47 :: w)) := refilled_composed (by simp)
  obtain ⟨_, v, _, rest, -, split, -⟩ := refilled.cons_inv
  rw [split] at refilled normal ⊢
  have again := refilled.cutComment?_eq (fun feeds => (refilled_composed feeds).head?_eq) closed whole
  have same : v ++ rest ++ composed bs = w ++ bs := (List.cons.inj normal).2
  rw [same, whole] at again
  have length : w.length = (v ++ rest).length := congrArg Prod.snd (Option.some.inj again)
  rw [append_inj_left same length.symm]

theorem cons_eq_cut (b : UInt8) (rest : Bytes) :
    b :: rest = b :: rest.take (cut b rest).2 ++ rest.drop (cut b rest).2 := by
  rw [cons_append, take_append_drop]

theorem composed_lexemes (clean : ∀ l ∈ lexemes bs, l.fault? = none) (normal : composed bs = bs) :
    ∀ l ∈ lexemes bs, composed l.text = l.text := by
  induction bs using lexemes.induct with
  | case1 => simp [lexemes]
  | case2 b rest piece =>
    rename_i ih
    rw [lexemes_cons, forall_mem_cons] at clean
    obtain ⟨clean, others⟩ := clean
    obtain ⟨valid, closed⟩ := Lexeme.valid clean
    rw [cons_eq_cut, composed_append (starts_of_clean others)] at normal
    have first : composed (b :: rest.take (cut b rest).2) = b :: rest.take (cut b rest).2 := by
      rcases isAscii_or_comment valid with ascii | ⟨rfl, comment⟩
      · exact composed_of_isAscii ascii
      · refine composed_comment closed ?_ normal
        rw [take_append_drop, comment, length_take_of_le (cut_le _ rest)]
    rw [first] at normal
    rw [lexemes_cons]
    exact forall_mem_cons.2 ⟨first, ih others (append_cancel_left normal)⟩

theorem composed_of_lexemes (clean : ∀ l ∈ lexemes bs, l.fault? = none)
    (normal : ∀ l ∈ lexemes bs, composed l.text = l.text) : composed bs = bs := by
  induction bs using lexemes.induct with
  | case1 => exact composed_nil
  | case2 b rest piece =>
    rename_i ih
    rw [lexemes_cons, forall_mem_cons] at clean normal
    rw [cons_eq_cut, composed_append (starts_of_clean clean.2), normal.1, ih clean.2 normal.2]

theorem composed_exchanged {l l' : Lexeme} (h : Exchanged l l') (normal : composed l.text = l.text) :
    composed l'.text = l'.text := by
  rcases h with rfl | ⟨-, k, exit, rfl⟩
  · exact normal
  · apply composed_of_isAscii
    revert exit
    cases k <;> with_unfolding_all decide

theorem composed_exchanges {ls ls' : List Lexeme} (h : List.Forall₂ Exchanged ls ls')
    (normal : ∀ l ∈ ls, composed l.text = l.text) : ∀ l ∈ ls', composed l.text = l.text := by
  induction h with
  | nil => simp
  | cons first _ ih =>
    rw [forall_mem_cons] at normal
    exact forall_mem_cons.2 ⟨composed_exchanged first normal.1, ih normal.2⟩

end Lexemes

end Peano.Token
