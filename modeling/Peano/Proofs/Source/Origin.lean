import Peano.Proofs.Source.Unchanged
namespace Peano.Source
open List
open Text (Starts composed composed_append composed_word compose_eq eq_nil_of_composed isLetter
  small_of_isLetter)

variable {bs pre post w given : Bytes} {b : UInt8}

section Marks

theorem dropMark_cases (bs : Bytes) : (∃ rest, bs = 0xEF :: 0xBB :: 0xBF :: rest ∧ dropMark bs = rest) ∨
    dropMark bs = bs := by
  unfold dropMark
  split
  · exact .inl ⟨_, rfl, rfl⟩
  · exact .inr rfl

/-- A mark does not go on into ASCII text. -/
theorem dropMark_append (start : Starts bs) (w : Bytes) : dropMark (w ++ bs) = dropMark w ++ bs := by
  rcases dropMark_cases (w ++ bs) with ⟨rest, split, dropped⟩ | same
  · have small : ∀ c : UInt8, 0x80 ≤ c → bs.head? ≠ some c := fun c high head =>
      absurd (start c head) (Nat.not_lt_of_le high)
    match w, split with
    | [], split => exact absurd (congrArg List.head? split) (small _ (by decide))
    | [_], split => exact absurd (congrArg List.head? (List.cons.inj split).2) (small _ (by decide))
    | [_, _], split =>
      have tail := (List.cons.inj (List.cons.inj split).2).2
      exact absurd (congrArg List.head? tail) (small _ (by decide))
    | x :: y :: z :: w, split =>
      obtain ⟨rfl, rfl, rfl, -⟩ := split
      rfl
  · rcases dropMark_cases w with ⟨rest, rfl, -⟩ | same'
    · have shorter := congrArg List.length same
      simp only [cons_append, dropMark, length_cons] at shorter
      omega
    · rw [same, same']

theorem dropMark_split (start : Starts post) (h : dropMark bs = pre ++ post) :
    ∃ before, bs = before ++ post ∧ dropMark before = pre := by
  rcases dropMark_cases bs with ⟨rest, rfl, dropped⟩ | same
  · obtain rfl := dropped.symm.trans h
    exact ⟨0xEF :: 0xBB :: 0xBF :: pre, rfl, rfl⟩
  · obtain rfl := same.symm.trans h
    rw [dropMark_append start] at h
    exact ⟨pre, rfl, append_cancel_right h⟩

end Marks

section Lines

theorem single_of_apart {rest : Bytes} (apart : ∀ tail, b = 13 → rest = 10 :: tail → False) :
    ¬[13, 10] <+: b :: rest := by
  rintro ⟨tail, split⟩
  obtain ⟨rfl, rfl⟩ := List.cons.inj split
  exact apart tail rfl rfl

theorem joinLineEnds_concat (next : bs.head? ≠ some lineFeed) (w : Bytes) :
    joinLineEnds (w ++ bs) = joinLineEnds w ++ joinLineEnds bs := by
  induction w using joinLineEnds.induct with
  | case1 rest ih =>
    rw [cons_append, cons_append, joinLineEnds, ih]
    rfl
  | case2 b rest apart ih =>
    have single := single_of_apart apart
    have single' : ¬[13, 10] <+: b :: (rest ++ bs) := by
      rintro ⟨tail, split⟩
      obtain ⟨same, split⟩ := List.cons.inj split
      cases rest with
      | nil => exact next (congrArg List.head? split).symm
      | cons c rest => exact single ⟨rest, by rw [← same, ← (List.cons.inj split).1]; rfl⟩
    rw [cons_append, joinLineEnds_cons single', joinLineEnds_cons single, ih, cons_append]
  | case3 => rfl

theorem joinLineEnds_split (other : b ≠ lineFeed) (h : joinLineEnds bs = pre ++ b :: post) :
    ∃ x y, bs = x ++ b :: y ∧ joinLineEnds x = pre ∧ joinLineEnds y = post := by
  induction bs using joinLineEnds.induct generalizing pre with
  | case1 rest ih =>
    cases pre with
    | nil => exact (other (List.cons.inj h).1.symm).elim
    | cons c pre =>
      obtain ⟨rfl, tail⟩ := List.cons.inj h
      obtain ⟨x, y, rfl, rfl, rfl⟩ := ih tail
      exact ⟨13 :: 10 :: x, y, rfl, rfl, rfl⟩
  | case2 c rest apart ih =>
    have single := single_of_apart apart
    rw [joinLineEnds_cons single] at h
    cases pre with
    | nil =>
      obtain ⟨rfl, rfl⟩ := List.cons.inj h
      exact ⟨[], rest, rfl, rfl, rfl⟩
    | cons d pre =>
      obtain ⟨rfl, tail⟩ := List.cons.inj h
      obtain ⟨x, y, rfl, rfl, rfl⟩ := ih tail
      refine ⟨c :: x, y, rfl, joinLineEnds_cons fun pair => single ?_, rfl⟩
      exact pair.trans ⟨b :: y, rfl⟩
  | case3 => exact absurd h (by simp [joinLineEnds])

theorem eq_nil_of_joinLineEnds (h : joinLineEnds bs = []) : bs = [] := by
  cases bs using joinLineEnds.induct with
  | case1 rest => cases h
  | case2 c rest apart =>
    rw [joinLineEnds_cons (single_of_apart apart)] at h
    cases h
  | case3 => rfl

theorem joinLineEnds_word (letters : ∀ c ∈ w, isLetter c.toNat) (full : w ≠ [])
    (h : joinLineEnds bs = pre ++ (w ++ post)) :
    ∃ x y, bs = x ++ (w ++ y) ∧ joinLineEnds x = pre ∧ joinLineEnds y = post := by
  induction w generalizing bs pre with
  | nil => exact (full rfl).elim
  | cons k w ih =>
    obtain ⟨letter, letters⟩ := forall_mem_cons.1 letters
    have other : k ≠ lineFeed := by
      rintro rfl
      exact absurd letter (by decide)
    obtain ⟨x, y, rfl, before, after⟩ := joinLineEnds_split other h
    by_cases last : w = []
    · subst last
      exact ⟨x, y, rfl, before, after⟩
    · obtain ⟨x', y', rfl, first, after'⟩ := ih letters last (after.trans (nil_append _).symm)
      rw [eq_nil_of_joinLineEnds first]
      exact ⟨x, y', rfl, before, after'⟩

theorem count_joinLineEnds (bs : Bytes) : (joinLineEnds bs).count lineFeed = bs.count lineFeed := by
  induction bs using joinLineEnds.induct with
  | case1 rest ih =>
    rw [joinLineEnds, count_cons_self, ih]
    exact count_cons_self.symm
  | case2 c rest apart ih =>
    rw [joinLineEnds_cons (single_of_apart apart), count_cons, count_cons, ih]
  | case3 => rfl

theorem count_dropMark (bs : Bytes) : (dropMark bs).count lineFeed = bs.count lineFeed := by
  rcases dropMark_cases bs with ⟨rest, rfl, dropped⟩ | same
  · rw [dropped, count_cons_of_ne (by decide), count_cons_of_ne (by decide),
      count_cons_of_ne (by decide)]
  · rw [same]

theorem count_normalize (bs : Bytes) : (normalize bs).count lineFeed = bs.count lineFeed := by
  rw [normalize, compose_eq, Token.count_composed (by decide), count_joinLineEnds, count_dropMark]

end Lines

section Words

theorem isAscii_of_letters (letters : ∀ c ∈ w, isLetter c.toNat) : w.isAscii :=
  all_eq_true.2 fun c mem => decide_eq_true (small_of_isLetter (letters c mem))

theorem lineFeed_not_mem (letters : ∀ c ∈ w, isLetter c.toNat) : lineFeed ∉ w :=
  fun mem => absurd (letters _ mem) (by decide)

theorem starts_word (letters : ∀ c ∈ w, isLetter c.toNat) (full : w ≠ []) (bs : Bytes) : Starts (w ++ bs) := by
  intro b head
  obtain ⟨k, rest, rfl⟩ := exists_cons_of_ne_nil full
  exact Option.some.inj head ▸ small_of_isLetter (letters k mem_cons_self)

/-- Line ends before and behind a word are joined apart from each other. -/
theorem joinLineEnds_around (letters : ∀ c ∈ w, isLetter c.toNat) (full : w ≠ []) (x y : Bytes) :
    joinLineEnds (x ++ (w ++ y)) = joinLineEnds x ++ (w ++ joinLineEnds y) := by
  have next : (w ++ y).head? ≠ some lineFeed := by
    obtain ⟨k, rest, rfl⟩ := exists_cons_of_ne_nil full
    intro head
    exact lineFeed_not_mem letters (Option.some.inj head ▸ mem_cons_self)
  have single : (13 : UInt8) ∉ w := fun mem => absurd (letters _ mem) (by decide)
  rw [joinLineEnds_concat next, joinLineEnds_append single]

/-- A word of the content has been given as it is. Another word in its place would change nothing else. -/
theorem normalize_word (letters : ∀ c ∈ w, isLetter c.toNat) (full : w ≠ []) (start : Starts post)
    (h : normalize given = pre ++ (w ++ post)) : ∃ before after, given = before ++ (w ++ after) ∧
      normalize before = pre ∧ ∀ w' : Bytes, (∀ c ∈ w', isLetter c.toNat) → w' ≠ [] →
        normalize (before ++ (w' ++ after)) = pre ++ (w' ++ post) := by
  rw [normalize, compose_eq] at h
  obtain ⟨x, y, joined, rfl, exchange⟩ := composed_word letters full start h
  obtain ⟨x, y, unmarked, rfl, rfl⟩ := joinLineEnds_word letters full joined
  obtain ⟨before, rfl, rfl⟩ := dropMark_split (starts_word letters full y) unmarked
  refine ⟨before, y, rfl, compose_eq _, fun w' letters' full' => ?_⟩
  rw [normalize, compose_eq, dropMark_append (starts_word letters' full' y), joinLineEnds_around letters' full',
    composed_append (starts_word letters' full' _), exchange w' (isAscii_of_letters letters') full']

/-- Parts of a text that ASCII text comes behind are the same if they compose to the same. -/
theorem eq_of_composed {x x' y y' : Bytes} (start : Starts y) (start' : Starts y') (same : x ++ y = x' ++ y')
    (h : composed x = composed x') : x = x' := by
  have between : ∀ {x y z : Bytes}, Starts (z ++ y) → composed (x ++ z) = composed x → z = [] := by
    intro x y z start h
    have start : Starts z := fun b head => start b (by rw [head?_append, head]; rfl)
    rw [composed_append start] at h
    exact eq_nil_of_composed (append_right_eq_self.1 h)
  rcases append_eq_append_iff.1 same with ⟨z, rfl, rfl⟩ | ⟨z, rfl, rfl⟩
  · rw [between start h.symm, append_nil]
  · rw [between start' h, append_nil]

end Words

end Peano.Source
