import Peano.Proofs.Text.Composed
import Peano.Proofs.Token.Lexing
namespace Peano.Token
open List
open Bytes (isAscii ofString toText)

/-- Whether a token of this kind is the keyword of a statement that hands over a value. -/
def Kind.isExit : Kind → Bool
  | .returnWord | .continueWord | .breakWord => true
  | _ => false

def Lexeme.isExit (l : Lexeme) : Bool :=
  match l.cls with
  | .token k => k.isExit
  | .spacing _ => false

/-- The second text has keywords of such statements where the first one has them, maybe others. -/
inductive Swapped : Bytes → Bytes → Prop
  | nil : Swapped [] []
  | same (b : UInt8) {bs bs' : Bytes} : Swapped bs bs' → Swapped (b :: bs) (b :: bs')
  | swap {k k' : Kind} {bs bs' : Bytes} : k.isExit = true → k'.isExit = true → Swapped bs bs' →
      Swapped (Bytes.ofString k.name ++ bs) (Bytes.ofString k'.name ++ bs')

/-- The first letters of the keywords. -/
def isExitStart (b : UInt8) : Bool := b == 98 || b == 99 || b == 114

/-- A test that gives all first letters of the keywords the same answer. -/
def Blunt (p : UInt8 → Bool) : Prop := p 98 = p 99 ∧ p 99 = p 114

section Swaps

variable {p : UInt8 → Bool} {bs bs' w : Bytes}

theorem Blunt.eq {b b' : UInt8} (blunt : Blunt p) (start : isExitStart b)
    (start' : isExitStart b') : p b' = p b := by
  obtain ⟨first, second⟩ := blunt
  unfold isExitStart at start start'
  grind

theorem blunt_isWordByte : Blunt isWordByte := ⟨rfl, rfl⟩

theorem exit_bytes {k : Kind} (exit : k.isExit) : ∃ b w, ofString k.name = b :: w ∧ isExitStart b := by
  have start : (ofString k.name).head?.any isExitStart := by
    revert exit
    cases k <;> with_unfolding_all decide
  obtain ⟨b, head, start⟩ := (Option.any_eq_true _ _).1 start
  obtain ⟨w, bytes⟩ := head?_eq_some_iff.1 head
  exact ⟨b, w, bytes, start⟩

theorem Swapped.cases_head (h : Swapped bs bs') :
    (bs = [] ∧ bs' = []) ∨ (∃ b r r', bs = b :: r ∧ bs' = b :: r' ∧ Swapped r r') ∨
      ∃ b b' r r', bs = b :: r ∧ bs' = b' :: r' ∧ isExitStart b ∧ isExitStart b' := by
  cases h with
  | nil => exact .inl ⟨rfl, rfl⟩
  | same b rest => exact .inr (.inl ⟨b, _, _, rfl, rfl, rest⟩)
  | swap exit exit' _ =>
    obtain ⟨b, w, bytes, start⟩ := exit_bytes exit
    obtain ⟨b', w', bytes', start'⟩ := exit_bytes exit'
    exact .inr (.inr ⟨b, b', _, _, by rw [bytes]; rfl, by rw [bytes']; rfl, start, start'⟩)

theorem Swapped.append_left (h : Swapped bs bs') (w : Bytes) : Swapped (w ++ bs) (w ++ bs') := by
  induction w with
  | nil => exact h
  | cons b w ih => exact .same b ih

theorem Swapped.ends_iff (h : Swapped bs bs') (blunt : Blunt p) : Ends p bs' ↔ Ends p bs := by
  rcases h.cases_head with ⟨rfl, rfl⟩ | ⟨b, r, r', rfl, rfl, -⟩ | ⟨b, b', r, r', rfl, rfl, start, start'⟩
  · rfl
  · rfl
  · simp [blunt.eq start start']

theorem countWhile_le (p : UInt8 → Bool) (bs : Bytes) : countWhile p bs ≤ bs.length :=
  IsPrefix.length_le <| takeWhile_prefix p

/-- A run of bytes that ends within a text is as long if the text goes on in another way. -/
theorem countWhile_congr (stop : Ends p bs → Ends p bs')
    (within : countWhile p (w ++ bs) ≤ w.length) : countWhile p (w ++ bs') = countWhile p (w ++ bs) := by
  induction w with
  | nil =>
    have none : countWhile p bs = 0 := Nat.le_zero.1 within
    change countWhile p bs' = countWhile p bs
    rw [none]
    rw [countWhile_eq_zero_iff] at none ⊢
    exact stop none
  | cons b w ih =>
    rw [cons_append, countWhile_cons] at within
    rw [cons_append, cons_append, countWhile_cons, countWhile_cons]
    by_cases more : p b
    · rw [if_pos more, length_cons] at within
      rw [if_pos more, if_pos more, ih (by omega)]
    · rw [if_neg more, if_neg more]

end Swaps

section Cuts

variable {b : UInt8} {bs bs' w : Bytes} {c : Lexeme.Class}

/-- Bytes that no keyword starts with are first in both texts or in neither one. -/
theorem Swapped.strip {x : Bytes} (h : Swapped bs bs') (plain : x.any isExitStart = false) :
    (∃ r r', bs = x ++ r ∧ bs' = x ++ r' ∧ Swapped r r') ∨ ¬x <+: bs ∧ ¬x <+: bs' := by
  induction x generalizing bs bs' with
  | nil => exact .inl ⟨bs, bs', rfl, rfl, h⟩
  | cons b x ih =>
    rw [any_cons, Bool.or_eq_false_iff] at plain
    rcases h.cases_head with ⟨rfl, rfl⟩ | ⟨c, r, r', rfl, rfl, rest⟩ | ⟨c, c', r, r', rfl, rfl, start, start'⟩
    · exact .inr ⟨by simp, by simp⟩
    · by_cases first : b = c
      · subst first
        rcases ih rest plain.2 with ⟨s, s', rfl, rfl, last⟩ | ⟨no, no'⟩
        · exact .inl ⟨s, s', rfl, rfl, last⟩
        · exact .inr ⟨by simpa using no, by simpa using no'⟩
      · exact .inr ⟨by simp [first], by simp [first]⟩
    · have other : ∀ c, isExitStart c → b ≠ c := by
        rintro c start rfl
        rw [plain.1] at start
        cases start
      exact .inr ⟨by simp [other c start],
        by simp [other c' start']⟩

theorem Swapped.prefix_iff {x : Bytes} (h : Swapped bs bs') (plain : x.any isExitStart = false) :
    x <+: bs' ↔ x <+: bs := by
  rcases h.strip plain with ⟨r, r', rfl, rfl, -⟩ | ⟨no, no'⟩
  · simp
  · simp [no, no']

/-- What makes the word `console` a logging token: spacing, a dot, spacing again and `log`. -/
def IsLogTail (u : Bytes) : Prop :=
  ∃ s t : Bytes, u = s ++ 46 :: (t ++ [108, 111, 103]) ∧ ∀ b ∈ s ++ t, isSpaceOrNewline b = true

theorem logTail?_eq_some_iff {n : Nat} : logTail? bs = some n ↔
    ∃ u tail, IsLogTail u ∧ bs = u ++ tail ∧ Ends isWordByte tail ∧ u.length = n := by
  constructor
  · intro h
    unfold logTail? at h
    dsimp only at h
    split at h
    next rest dot =>
      split at h
      next tail log =>
        split at h
        · cases h
        next stop =>
          refine ⟨bs.takeWhile isSpaceOrNewline ++ 46 :: (rest.takeWhile isSpaceOrNewline ++ [108, 111, 103]),
            tail, ⟨_, _, rfl, fun b hb => ?_⟩, ?_, by simpa [ends_iff_any] using stop, ?_⟩
          · rcases mem_append.1 hb with hb | hb <;>
              exact all_eq_true.1 all_takeWhile b hb
          · have first := take_append_drop (countWhile isSpaceOrNewline bs) bs
            have second := take_append_drop (countWhile isSpaceOrNewline rest) rest
            rw [take_countWhile, dot] at first
            rw [take_countWhile, log] at second
            simpa [second] using first.symm
          · rw [← Option.some.inj h]
            simp [countWhile]
            omega
      · cases h
    · cases h
  · rintro ⟨_, tail, ⟨s, t, rfl, spaces⟩, rfl, stop, rfl⟩
    rw [forall_mem_append] at spaces
    have first : countWhile isSpaceOrNewline (s ++ (46 :: (t ++ 108 :: 111 :: 103 :: tail))) = s.length :=
      countWhile_append (all_eq_true.2 spaces.1) (by simp [isSpaceOrNewline, isBlank])
    have second : countWhile isSpaceOrNewline (t ++ 108 :: 111 :: 103 :: tail) = t.length :=
      countWhile_append (all_eq_true.2 spaces.2) (by simp [isSpaceOrNewline, isBlank])
    simp [logTail?, first, second, ends_iff_any.1 stop]
    omega

theorem Swapped.logTail?_eq_none (h : Swapped bs bs') (none : logTail? bs = none) : logTail? bs' = .none := by
  rw [Option.eq_none_iff_forall_ne_some] at none ⊢
  intro n found
  obtain ⟨_, tail, ⟨s, t, rfl, spaces⟩, rfl, stop, -⟩ := logTail?_eq_some_iff.1 found
  have plain : (s ++ 46 :: (t ++ [108, 111, 103])).any isExitStart = false := by
    have space : ∀ b, isSpaceOrNewline b → (¬b = 98 ∧ ¬b = 99) ∧ ¬b = 114 := by
      unfold isSpaceOrNewline isBlank
      grind
    rw [forall_mem_append] at spaces
    simpa [isExitStart] using ⟨fun b hb => space b (spaces.1 b hb), fun b hb => space b (spaces.2 b hb)⟩
  rcases h.strip plain with ⟨r, r', rfl, same, rest⟩ | ⟨-, no⟩
  · obtain rfl := append_cancel_left same
    rw [rest.ends_iff blunt_isWordByte] at stop
    exact none _ (logTail?_eq_some_iff.2 ⟨_, r, ⟨s, t, rfl, spaces⟩, rfl, stop, rfl⟩)
  · exact no (prefix_append _ _)

/-- The bytes of signs behind the first one. -/
def isSignTail (b : UInt8) : Bool := b == 61 || b == 62 || b == 43 || b == 38 || b == 124

/-- A lexeme that is no spacing and comes before the first text is cut off from the second one alike. -/
structure Unseen (bs bs' : Bytes) : Prop where
  word : Ends isWordByte bs → Ends isWordByte bs'
  digit : Ends isDigit bs → Ends isDigit bs'
  line : Ends (· != 10) bs → Ends (· != 10) bs'
  sign : ∀ w x : Bytes, x.all isSignTail = true → (x <+: w ++ bs' ↔ x <+: w ++ bs)

theorem Swapped.unseen (h : Swapped bs bs') : Unseen bs bs' where
  word := (h.ends_iff blunt_isWordByte).2
  digit := (h.ends_iff ⟨rfl, rfl⟩).2
  line := (h.ends_iff ⟨rfl, rfl⟩).2
  sign w x tail := (h.append_left w).prefix_iff <| by
    have sign : ∀ b, isSignTail b → isExitStart b = false := by
      unfold isSignTail isExitStart
      grind
    rw [all_eq_true] at tail
    exact any_eq_false.2 fun b hb => by simp [sign b (tail b hb)]

theorem countWhile_le_cutWord (b : UInt8) (bs : Bytes) : countWhile isWordByte bs ≤ (cutWord b bs).2 := by
  unfold cutWord
  dsimp only
  split
  · exact Nat.le_add_right _ _
  · exact le_rfl

theorem Unseen.cutWord_eq (h : Unseen bs bs')
    (apart : c = .token .ident → toText (b :: w) = "console" → logTail? bs = none → logTail? bs' = none)
    (whole : cutWord b (w ++ bs) = (c, w.length)) : cutWord b (w ++ bs') = (c, w.length) := by
  have within : countWhile isWordByte (w ++ bs) ≤ w.length := by
    have := countWhile_le_cutWord b (w ++ bs)
    rwa [whole] at this
  unfold cutWord at whole ⊢
  dsimp only at whole ⊢
  rw [countWhile_congr h.word within]
  set more := countWhile isWordByte (w ++ bs)
  rw [take_append_of_le_length within, drop_append_of_le_length within] at whole ⊢
  by_cases console : toText (b :: w.take more) = "console"
  · rw [console] at whole ⊢
    cases found : logTail? (w.drop more ++ bs) with
    | some n =>
      rw [found] at whole
      obtain ⟨rfl, length⟩ := Prod.mk.inj whole
      obtain ⟨u, r, log, split, stop, rfl⟩ := logTail?_eq_some_iff.1 found
      obtain ⟨rfl, rfl⟩ := append_inj split (by rw [length_drop]; omega)
      rw [logTail?_eq_some_iff.2 ⟨_, bs', log, rfl, h.word stop, rfl⟩]
      exact whole
    | none =>
      rw [found] at whole
      have all : more = w.length := congrArg Prod.snd whole
      rw [all] at whole
      rw [all, drop_length, nil_append] at found ⊢
      rw [all, take_length] at console
      rw [apart (congrArg Prod.fst whole).symm console found]
      exact whole
  · rw [beq_eq_false_iff_ne.2 console] at whole ⊢
    exact whole

theorem cutSign_equals (bs : Bytes) : cutSign 61 bs =
    if [61, 61] <+: bs then (.token .equal, 2) else if [61] <+: bs then (.token .equal, 1)
    else if [62] <+: bs then (.token .fatArrow, 1) else (.token .assign, 0) := by
  unfold cutSign
  split <;> simp_all [cons_prefix_iff]

theorem cutSign_bang (bs : Bytes) : cutSign 33 bs =
    if [61, 61] <+: bs then (.token .unequal, 2) else if [61] <+: bs then (.token .unequal, 1)
    else (.token .bang, 0) := by
  unfold cutSign
  split <;> simp_all [cons_prefix_iff]

theorem cutSign_plus (bs : Bytes) :
    cutSign 43 bs = if [43] <+: bs then (.token .plusPlus, 1) else (.token .plus, 0) := by
  unfold cutSign
  split <;> simp_all [cons_prefix_iff]

theorem cutSign_cases (b : UInt8) (bs : Bytes) : (cutSign b bs).1 = .token .invalid ∨
    (∃ k : Kind, (cutSign b bs).1 = .token k ∧ k.isExit = false) ∧
      isAscii (b :: bs.take (cutSign b bs).2) := by
  unfold cutSign
  split
  case h_23 => exact .inl (by split <;> rfl)
  all_goals simp [isAscii, Kind.isExit]

/-- The signs for connectives are written twice or not at all. -/
theorem prefix_of_cutSign (pair : b = 38 ∨ b = 124) (sign : (cutSign b bs).1 ≠ .token .invalid) :
    [b] <+: bs := by
  unfold cutSign at sign
  rcases pair with rfl | rfl
  all_goals
    split at sign
    all_goals first | contradiction | simp_all

theorem cutSign_slash (bs : Bytes) : (cutSign 47 bs).1 = .token .invalid := by
  unfold cutSign
  split
  all_goals first | contradiction | skip
  split <;> rfl

theorem cutSign_single (single : b ∉ [(61 : UInt8), 33, 43, 38, 124])
    (sign : (cutSign b bs).1 ≠ .token .invalid) : cutSign b bs' = cutSign b bs := by
  unfold cutSign at sign
  split at sign
  all_goals first | contradiction | rfl | skip
  split at sign <;> exact absurd rfl sign

/-- A sign looks at two more bytes at most. -/
theorem Unseen.cutSign_eq (h : Unseen bs bs') (sign : (cutSign b (w ++ bs)).1 ≠ .token .invalid) :
    cutSign b (w ++ bs') = cutSign b (w ++ bs) := by
  by_cases single : b ∉ [(61 : UInt8), 33, 43, 38, 124]
  · exact cutSign_single single sign
  · simp only [mem_cons, not_mem_nil, or_false, not_not] at single
    rcases single with rfl | rfl | rfl | pair
    · simp only [cutSign_equals, h.sign w [61, 61] rfl, h.sign w [61] rfl, h.sign w [62] rfl]
    · simp only [cutSign_bang, h.sign w [61, 61] rfl, h.sign w [61] rfl]
    · simp only [cutSign_plus, h.sign w [43] rfl]
    · have plain : [b].all isSignTail := by rcases pair with rfl | rfl <;> rfl
      have twice := prefix_of_cutSign pair sign
      obtain ⟨r', same'⟩ := (h.sign w [b] plain).2 twice
      obtain ⟨r, same⟩ := twice
      rw [← same, ← same']
      rcases pair with rfl | rfl <;> rfl

theorem commentLength?_cons (within : ¬[42, 47] <+: b :: bs) :
    commentLength? (b :: bs) = (commentLength? bs).map (· + 1) := by
  rw [commentLength?]
  rintro rest rfl rfl
  exact within ⟨rest, rfl⟩

theorem commentLength?_bounds {n : Nat} (h : commentLength? bs = some n) : 2 ≤ n ∧ n ≤ bs.length := by
  induction bs generalizing n with
  | nil => cases h
  | cons b bs ih =>
    by_cases closing : [42, 47] <+: b :: bs
    · obtain ⟨rest, same⟩ := closing
      rw [← same] at h ⊢
      cases h
      simp
    · rw [commentLength?_cons closing, Option.map_eq_some_iff] at h
      obtain ⟨m, rest, rfl⟩ := h
      obtain ⟨two, within⟩ := ih rest
      exact ⟨Nat.le_succ_of_le two, Nat.succ_le_succ within⟩

/-- A comment that is closed does not look at what comes behind it. -/
theorem commentLength?_append {n : Nat} (h : commentLength? (w ++ bs) = some n) (within : n ≤ w.length) :
    commentLength? (w ++ bs') = some n := by
  have two := (commentLength?_bounds h).1
  induction w generalizing n with
  | nil => exact absurd (two.trans within) (by simp)
  | cons b w ih =>
    by_cases closing : [42, 47] <+: b :: w
    · obtain ⟨rest, same⟩ := closing
      rw [← same] at h ⊢
      exact h
    · cases w with
      | nil => exact absurd (two.trans within) (by simp)
      | cons c w =>
        have inside : ∀ bs : Bytes, ¬[42, 47] <+: b :: (c :: w ++ bs) := by
          simpa [cons_prefix_cons] using closing
        rw [cons_append, commentLength?_cons (inside bs), Option.map_eq_some_iff] at h
        obtain ⟨m, rest, rfl⟩ := h
        rw [cons_append, commentLength?_cons (inside bs'),
          ih rest (Nat.le_of_succ_le_succ within) (commentLength?_bounds rest).1]
        rfl

theorem cutComment?_eq_some_iff (closed : c ≠ .spacing (.blockComment false)) :
    cutComment? (w ++ bs) = some (c, w.length) ↔
      (∃ u, w = 47 :: u ∧ c = .spacing .lineComment ∧ countWhile (· != 10) (u ++ bs) = u.length) ∨
      ∃ u, w = 42 :: u ∧ c = .spacing (.blockComment true) ∧ commentLength? (u ++ bs) = some u.length := by
  constructor
  · intro whole
    cases w with
    | nil =>
      unfold cutComment? at whole
      split at whole
      · simp at whole
      · split at whole <;> simp at whole
      · cases whole
    | cons b w =>
      rw [cons_append] at whole
      unfold cutComment? at whole
      split at whole
      next rest line =>
        obtain ⟨rfl, rfl⟩ := cons.inj line
        simp only [Option.some.injEq, Prod.mk.injEq, length_cons] at whole
        exact .inl ⟨w, rfl, whole.1.symm, by omega⟩
      next rest block =>
        obtain ⟨rfl, rfl⟩ := cons.inj block
        split at whole
        next n found =>
          simp only [Option.some.injEq, Prod.mk.injEq, length_cons] at whole
          refine .inr ⟨w, rfl, whole.1.symm, ?_⟩
          rw [found]
          congr 1
          omega
        next => exact absurd (congrArg Prod.fst (Option.some.inj whole)).symm closed
      next => cases whole
  · rintro (⟨u, rfl, rfl, line⟩ | ⟨u, rfl, rfl, block⟩)
    · rw [cons_append, cutComment?, line, length_cons, Nat.add_comm]
    · rw [cons_append, cutComment?, block, length_cons]
      simp only [Nat.add_comm]

/-- A comment is cut off alike, as one of a line goes on to the end of it. -/
theorem Unseen.cutComment?_eq (h : Unseen bs bs') (closed : c ≠ .spacing (.blockComment false))
    (whole : cutComment? (w ++ bs) = some (c, w.length)) : cutComment? (w ++ bs') = some (c, w.length) := by
  rw [cutComment?_eq_some_iff closed] at whole ⊢
  rcases whole with ⟨u, rfl, rfl, line⟩ | ⟨u, rfl, rfl, block⟩
  · exact .inl ⟨u, rfl, rfl, (countWhile_congr h.line line.le).trans line⟩
  · exact .inr ⟨u, rfl, rfl, commentLength?_append block le_rfl⟩

theorem isSpaceOrNewline_eq_false_iff : isSpaceOrNewline b = false ↔ isBlank b = false ∧ (b == 10) = false :=
  Bool.or_eq_false_iff

theorem Unseen.cut_eq (h : Unseen bs bs') (clean : Lexeme.fault? ⟨c, b :: w⟩ = none)
    (solid : isSpaceOrNewline b = false)
    (apart : c = .token .ident → toText (b :: w) = "console" → logTail? bs = none → logTail? bs' = none)
    (whole : cut b (w ++ bs) = (c, w.length)) : cut b (w ++ bs') = (c, w.length) := by
  obtain ⟨blank, line⟩ := isSpaceOrNewline_eq_false_iff.1 solid
  -- The cases come as `cut` tries them: words, numerals, comments, signs.
  simp only [cut, blank, line, Bool.false_eq_true, if_false] at whole ⊢
  split at whole
  next letter =>
    rw [if_pos letter]
    exact h.cutWord_eq apart whole
  next letter =>
  rw [if_neg letter]
  split at whole
  next digit =>
    rw [if_pos digit]
    obtain ⟨rfl, length⟩ := Prod.mk.inj whole
    rw [countWhile_congr h.digit length.le, length]
  next digit =>
  rw [if_neg digit]
  have valid : c ≠ .token .invalid := by
    rintro rfl
    cases clean
  by_cases slash : b = 47
  · subst slash
    have closed : c ≠ .spacing (.blockComment false) := by
      rintro rfl
      cases clean
    cases found : cutComment? (w ++ bs) with
    | none =>
      simp only [beq_self_eq_true, if_true, found] at whole
      have wrong := cutSign_slash (w ++ bs)
      rw [whole] at wrong
      exact absurd wrong valid
    | some comment =>
      simp only [beq_self_eq_true, if_true, found] at whole ⊢
      rw [h.cutComment?_eq closed (found.trans (congrArg some whole))]
  · simp only [beq_eq_false_iff_ne.2 slash] at whole ⊢
    exact (h.cutSign_eq (congrArg Prod.fst whole ▸ valid)).trans whole

theorem Swapped.cut_eq (h : Swapped bs bs') (clean : Lexeme.fault? ⟨c, b :: w⟩ = none)
    (whole : cut b (w ++ bs) = (c, w.length)) : cut b (w ++ bs') = (c, w.length) := by
  have run : ∀ {p : UInt8 → Bool} {k : Lexeme.Class}, Blunt p → (k, countWhile p (w ++ bs)) = (c, w.length) →
      (k, countWhile p (w ++ bs')) = (c, w.length) := by
    intro p k blunt whole
    obtain ⟨rfl, length⟩ := Prod.mk.inj whole
    rw [countWhile_congr (h.ends_iff blunt).2 length.le, length]
  cases blank : isBlank b with
  | true =>
    rw [cut, if_pos blank] at whole ⊢
    exact run ⟨rfl, rfl⟩ whole
  | false =>
    cases line : b == 10 with
    | true =>
      simp only [cut, blank, line] at whole ⊢
      exact run ⟨rfl, rfl⟩ whole
    | false =>
      exact h.unseen.cut_eq clean (isSpaceOrNewline_eq_false_iff.2 ⟨blank, line⟩)
        (fun _ _ => h.logTail?_eq_none) whole

end Cuts

section Lexemes

variable {b : UInt8} {bs : Bytes} {k : Kind}

theorem head?_drop_countWhile (p : UInt8 → Bool) (bs : Bytes) : Ends p (bs.drop (countWhile p bs)) := by
  induction bs with
  | nil => simp
  | cons b bs ih =>
    rw [countWhile_cons]
    by_cases more : p b
    · rwa [if_pos more]
    · rw [if_neg more]
      simpa using more

theorem name_of_ofWord {word : String} (exit : k.isExit) (h : Kind.ofWord word = k) : word = k.name := by
  subst h
  unfold Kind.ofWord at exit ⊢
  split at exit <;> first | rfl | cases exit

theorem isWordStart_of_exit (exit : k.isExit) (cls : (cut b bs).1 = .token k) : isWordStart b := by
  have way := cut_cases b bs
  generalize cut b bs = piece at way cls
  cases way with
  | space | newline | comment => cases cls
  | word start => exact start
  | digits =>
    cases cls
    cases exit
  | sign =>
    rcases cutSign_cases b bs with invalid | ⟨⟨k', sign, other⟩, -⟩
    · cases invalid.symm.trans cls
      cases exit
    · cases sign.symm.trans cls
      rw [other] at exit
      cases exit

/-- A keyword is cut off as it is spelled, and nothing of a word comes behind it. -/
theorem cut_exit (exit : k.isExit) (cls : (cut b bs).1 = .token k) :
    b :: bs.take (cut b bs).2 = ofString k.name ∧ Ends isWordByte (bs.drop (cut b bs).2) := by
  have start := isWordStart_of_exit exit cls
  rw [cut_eq_cutWord start] at cls ⊢
  unfold cutWord at cls ⊢
  dsimp only at cls ⊢
  split at cls
  -- `console` with its tail is no keyword.
  · cases cls
    cases exit
  next plain =>
    have word := name_of_ofWord exit (Lexeme.Class.token.inj cls)
    have letters : isWordText (b :: bs.take (countWhile isWordByte bs)) := by
      rw [isWordText, isTextOf, start, take_countWhile]
      exact all_takeWhile
    exact ⟨by rw [← word, Bytes.ofString_toText (isAscii_of_isWordText letters)],
      head?_drop_countWhile isWordByte bs⟩

theorem le_of_logTail? {n : Nat} (h : logTail? bs = some n) : n ≤ bs.length := by
  obtain ⟨u, tail, -, rfl, -, rfl⟩ := logTail?_eq_some_iff.1 h
  simp

theorem cutComment?_le {comment : Lexeme.Class × Nat} (h : cutComment? bs = some comment) :
    comment.2 ≤ bs.length := by
  unfold cutComment? at h
  split at h
  next rest =>
    have line := countWhile_le (· != 10) rest
    cases h
    rw [length_cons]
    omega
  next rest =>
    split at h
    next n found =>
      have block := (commentLength?_bounds found).2
      cases h
      rw [length_cons]
      omega
    · cases h
      rw [length_cons]
      omega
  · cases h

theorem cutSign_le (b : UInt8) (bs : Bytes) : (cutSign b bs).2 ≤ bs.length := by
  unfold cutSign
  split
  case h_23 =>
    split
    next lead => exact Text.leading?_le lead
    · exact Nat.zero_le _
  all_goals simp

/-- What is cut off never goes beyond the end of the text. -/
theorem cut_le (b : UInt8) (bs : Bytes) : (cut b bs).2 ≤ bs.length := by
  have way := cut_cases b bs
  generalize cut b bs = piece at way ⊢
  cases way with
  | space | newline | digits => exact countWhile_le _ bs
  | word =>
    unfold cutWord
    dsimp only
    split
    next tail found =>
      split at found
      · have rest := le_of_logTail? found
        have word := countWhile_le isWordByte bs
        rw [length_drop] at rest
        omega
      · cases found
    · exact countWhile_le _ bs
  | comment _ found => exact cutComment?_le found
  | sign => exact cutSign_le b bs

/-- The second lexeme may stand in the place of the first one. -/
def Exchanged (l l' : Lexeme) : Prop :=
  l' = l ∨ l.isExit = true ∧ ∃ k : Kind, k.isExit = true ∧ l' = ⟨.token k, Bytes.ofString k.name⟩

theorem Lexeme.exists_kind {l : Lexeme} (exit : l.isExit) : ∃ k, l.cls = .token k ∧ k.isExit := by
  unfold isExit at exit
  split at exit
  next k cls => exact ⟨k, cls, exit⟩
  next => cases exit

theorem lexemes_exit (exit : k.isExit) (stop : Ends isWordByte bs) :
    lexemes (ofString k.name ++ bs) = ⟨.token k, ofString k.name⟩ :: lexemes bs := by
  have keyword : k.isKeyword := by
    revert exit
    cases k <;> decide
  obtain ⟨word, kind, plain⟩ := isWord_keyword keyword
  rw [lexemes_word word stop (fun console => absurd console plain), kind]

/-- The text of lexemes with exchanged keywords is cut into just them. -/
theorem lexemes_exchanged {ls : List Lexeme} (clean : ∀ l ∈ lexemes bs, l.fault? = none)
    (h : Forall₂ Exchanged (lexemes bs) ls) :
    Swapped bs (ls.flatMap Lexeme.text) ∧ lexemes (ls.flatMap Lexeme.text) = ls := by
  induction bs using lexemes.induct generalizing ls with
  | case1 =>
    rw [lexemes, forall₂_nil_left_iff] at h
    subst h
    exact ⟨.nil, by simp [lexemes]⟩
  | case2 b rest piece =>
    rename_i ih
    rw [lexemes_cons] at clean h
    obtain ⟨clean, others⟩ := forall_mem_cons.1 clean
    obtain ⟨l, ls, first, tail, rfl⟩ := forall₂_cons_left_iff.1 h
    obtain ⟨swapped, again⟩ := ih others tail
    have within := cut_le b rest
    rw [flatMap_cons]
    rcases first with rfl | ⟨exit, k', exit', rfl⟩
    · have whole : cut b (rest.take (cut b rest).2 ++ rest.drop (cut b rest).2) =
          ((cut b rest).1, (rest.take (cut b rest).2).length) := by
        rw [take_append_drop, length_take_of_le within]
      refine ⟨?_, ?_⟩
      · nth_rw 1 [← take_append_drop (cut b rest).2 rest]
        exact .same b (swapped.append_left _)
      · rw [lexemes_of_cut (swapped.cut_eq clean whole), again]
    · obtain ⟨k, cls, exit⟩ := Lexeme.exists_kind exit
      obtain ⟨spelled, stop⟩ := cut_exit exit cls
      have next : Ends isWordByte (ls.flatMap Lexeme.text) := (swapped.ends_iff blunt_isWordByte).2 stop
      refine ⟨?_, ?_⟩
      · have split : b :: rest = ofString k.name ++ rest.drop (cut b rest).2 := by
          rw [← spelled, cons_append, take_append_drop]
        rw [split]
        exact .swap exit exit' swapped
      · rw [lexemes_exit exit' next, again]

end Lexemes

end Peano.Token
