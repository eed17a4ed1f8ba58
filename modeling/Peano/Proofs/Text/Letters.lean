import Peano.Proofs.Text.Composed
namespace Peano.Text
open List

def Rune.Wide : Rune → Prop
  | .char c => 0x80 ≤ c.toNat
  | .bad b => 0x80 ≤ b

def Rune.Small : Rune → Prop
  | .char c => c.toNat < 0x80
  | .bad _ => False

def isLetter (code : Nat) : Prop := 97 ≤ code ∧ code ≤ 122

/-- No other character is taken apart into such a one alone. -/
def isFirm (code : Nat) : Prop := code < 48 ∨ isLetter code

theorem isFirm.small {code : Nat} (firm : isFirm code) : code < 0x80 := by
  rcases firm with low | letter
  · omega
  · exact Nat.lt_of_le_of_lt letter.2 (by decide)

def Rune.Firm : Rune → Prop
  | .char c => isFirm c.toNat
  | .bad _ => False

section Tables

/-- ASCII, and ranges around the characters that are taken apart into an ASCII character and others. -/
def Latin (code : Nat) : Prop :=
  code < 0x80 ∨ 0xC0 ≤ code ∧ code < 0x240 ∨ code = 0x37E ∨ 0x1E00 ≤ code ∧ code < 0x2300

instance (code : Nat) : Decidable (Latin code) := inferInstanceAs (Decidable (_ ∨ _))

instance (code : Nat) : Decidable (isLetter code) := inferInstanceAs (Decidable (_ ∧ _))

instance (code : Nat) : Decidable (isFirm code) := inferInstanceAs (Decidable (_ ∨ _))

theorem decompositions_latin : ∀ x ∈ decompositions, ¬Latin x.2.2 ∧ (Latin x.2.1 → Latin x.1) := by
  unfold decompositions composites compositions separations entriesOf
  simp only [flatMap_cons]
  repeat rw [charsOf_cons]
  decide +kernel

theorem singletons_latin : ∀ x ∈ singletons, ¬isFirm x.2 ∧ (Latin x.2 → Latin x.1) := by
  unfold singletons replacements
  simp only [flatMap_cons]
  repeat rw [charsOf_cons]
  decide +kernel

theorem rangesOf_cons (row : List Char) (rows : List String) :
    rangesOf (String.ofList row :: rows) = rangesFrom 0 none 0 row ++ rangesOf rows := by
  rw [rangesOf, flatMap_cons, String.toList_ofList]
  rfl

theorem looseEdges_latin : ∀ x ∈ looseEdges, x.1 ≠ 0 → ∀ range ∈ x.2.2, 0x2300 ≤ range.1 := by
  unfold looseEdges
  simp only [map_cons]
  repeat rw [rangesOf_cons]
  decide +kernel

variable {code : Nat}

/-- Only the first part of a character may be ASCII, and a firm one is not all of it. -/
def Parted (code : Nat) (parts : List Nat) : Prop :=
  ∃ first others, parts = first :: others ∧ (∀ x ∈ others, 0x80 ≤ x) ∧ (first < 0x80 → Latin code) ∧
    (isFirm first → others ≠ [] ∨ first = code)

theorem Parted.ne_nil {parts : List Nat} (h : Parted code parts) : parts ≠ [] := by
  obtain ⟨first, others, rfl, -⟩ := h
  exact cons_ne_nil _ _

theorem Parted.all {parts : List Nat} (h : Parted code parts) (other : ¬Latin code) :
    ∀ x ∈ parts, 0x80 ≤ x := by
  obtain ⟨first, others, rfl, wide, latin, -⟩ := h
  refine forall_mem_cons.2 ⟨?_, wide⟩
  by_contra small
  exact other (latin (by omega))

theorem parted_self (code : Nat) : Parted code [code] := ⟨code, [], rfl, nofun, .inl, fun _ => .inr rfl⟩

theorem decomposeWithin_parted (depth code : Nat) : Parted code (decomposeWithin depth code) := by
  induction depth generalizing code with
  | zero => exact parted_self code
  | succ depth ih =>
    rw [decomposeWithin_succ]
    split
    · exact parted_self code
    split
    next parts found =>
      obtain ⟨x, xs, rfl⟩ := exists_cons_of_ne_nil (syllableParts?_ne_nil found)
      have wide : ∀ y ∈ x :: xs, 0x80 ≤ y := fun y mem => (syllableParts?_ordinary found y mem).2
      obtain ⟨first, others⟩ := forall_mem_cons.1 wide
      refine ⟨x, xs, rfl, others, fun small => by omega, fun firm => ?_⟩
      have := firm.small
      omega
    split
    next parts found =>
      rcases mappingOf?_cases found with ⟨a, b, row, rfl⟩ | ⟨a, row, rfl⟩
      · obtain ⟨other, latin⟩ := decompositions_latin _ row
        have second : ∀ x ∈ decomposeWithin depth b, 0x80 ≤ x := (ih b).all other
        obtain ⟨first, others, split, wide, latin', -⟩ := ih a
        rw [flatMap_cons, flatMap_singleton, split]
        exact ⟨first, others ++ decomposeWithin depth b, rfl, forall_mem_append.2 ⟨wide, second⟩,
          fun small => latin (latin' small), fun _ => .inl (append_ne_nil_of_right_ne_nil _ (ih b).ne_nil)⟩
      · obtain ⟨plain, latin⟩ := singletons_latin _ row
        rw [flatMap_singleton]
        obtain ⟨first, others, split, wide, latin', more⟩ := ih a
        exact ⟨first, others, split, wide, fun small => latin (latin' small), fun firm =>
          .inl ((more firm).resolve_right fun same => plain (same ▸ firm))⟩
    · exact parted_self code

theorem attaches_wide (h : attaches code) : 0x80 ≤ code := by
  rw [attaches, Bool.or_eq_true, bne_iff_ne] at h
  rcases h with mark | joins
  · by_contra small
    exact mark (if_pos (by omega))
  · rw [joinsBefore, Bool.or_eq_true, Bool.or_eq_true] at joins
    rcases joins with (vowel | consonant) | joins
    · simp only [Bool.and_eq_true, decide_eq_true_eq] at vowel
      omega
    · simp only [Bool.and_eq_true, decide_eq_true_eq] at consonant
      omega
    · rw [any_eq_true] at joins
      obtain ⟨x, mem, same⟩ := joins
      obtain rfl : x.2.2 = code := by simpa only [beq_iff_eq] using same
      exact Nat.le_of_not_lt fun small => (decompositions_latin x (mem_append_left _ mem)).1 (.inl small)

end Tables

section Parts

variable {r : Rune}

/-- What runes of a text are: bytes that belong to no character are not ASCII. -/
def Rune.Sound (r : Rune) : Prop := r.Wide ∨ r.Small

theorem sound_char (c : Char) : Rune.Sound (.char c) := (Nat.lt_or_ge c.toNat 0x80).elim .inr .inl

theorem Rune.Wide.not_firm (wide : r.Wide) : ¬r.Firm := by
  intro firm
  cases r with
  | bad b => exact firm
  | char c => exact absurd firm.small (Nat.not_lt_of_le wide)

theorem Rune.Wide.plain (wide : r.Wide) : 48 ≤ r.code := by
  cases r with
  | bad b => exact (by decide : 48 ≤ (Rune.bad 0).code)
  | char c => exact Nat.le_trans (by decide) wide

theorem toNat_ofNat {code : Nat} (valid : code.isValidChar) : (Char.ofNat code).toNat = code := by
  rw [Char.ofNat, dif_pos valid]
  rfl

/-- Only the first part of a rune may be ASCII, and if that is firm, it is not the only one or it is
the rune itself. Characters before the digits are not taken apart and no parts of others. -/
theorem parts_split (sound : r.Sound) : ∃ first others, r.parts = first :: others ∧ first.Sound ∧
    (∀ x ∈ others, x.Wide) ∧ (first.Firm → others ≠ [] ∨ first = r) ∧
    (48 ≤ first.code ∧ 48 ≤ r.code ∨ first = r) := by
  cases r with
  | bad b => exact ⟨.bad b, [], rfl, sound, nofun, fun _ => .inr rfl, .inr rfl⟩
  | char c =>
    by_cases small : c.toNat < 0x80
    · exact ⟨.char c, [], parts_small (by omega), sound, nofun, fun _ => .inr rfl, .inr rfl⟩
    · have wide : 0x80 ≤ c.toNat := Nat.le_of_not_lt small
      obtain ⟨first, others, split, wide', -, more⟩ := decomposeWithin_parted 4 c.toNat
      have ordinary := decomposeWithin_ordinary 4 (show Ordinary c.toNat from ⟨by omega, c.valid⟩)
      rw [split] at ordinary
      obtain ⟨valid, valid'⟩ := forall_mem_cons.1 ordinary
      refine ⟨.char (Char.ofNat first), others.map fun code => .char (Char.ofNat code), ?_, sound_char _, ?_,
        fun firm => ?_, .inl ⟨?_, Nat.le_trans (by decide) wide⟩⟩
      · rw [Rune.parts, decompose, split, map_cons]
      · intro x mem
        obtain ⟨code, hc, rfl⟩ := mem_map.1 mem
        rw [Rune.Wide, toNat_ofNat (valid' code hc).2]
        exact wide' code hc
      · rw [Rune.Firm, toNat_ofNat valid.2] at firm
        exact (more firm).imp (by simpa using ·) fun same => by rw [same, Char.ofNat_toNat]
      · rw [Rune.code, Rune.shown, toNat_ofNat valid.2]
        exact valid.1

theorem parts_ne_nil (r : Rune) : r.parts ≠ [] := by
  cases r with
  | bad b => exact cons_ne_nil _ _
  | char c =>
    obtain ⟨first, others, split, -⟩ := parts_split (sound_char c)
    exact split ▸ cons_ne_nil _ _

theorem flatMap_parts_ne_nil {rs : List Rune} (h : rs ≠ []) : rs.flatMap Rune.parts ≠ [] := by
  obtain ⟨r, rest, rfl⟩ := exists_cons_of_ne_nil h
  exact append_ne_nil_of_left_ne_nil (parts_ne_nil r) _

/-- A rune that brings nothing that is ASCII to what stands before it. -/
def Rune.Attached (r : Rune) : Prop := ∀ x ∈ r.parts, x.Wide

theorem attached_of_parts {c : Char} (h : ∀ x ∈ decompose c.toNat, 0x80 ≤ x) (low : 48 ≤ c.toNat) :
    Rune.Attached (.char c) := by
  intro x mem
  obtain ⟨code, hc, rfl⟩ := mem_map.1 mem
  rw [Rune.Wide, toNat_ofNat (decomposeWithin_ordinary 4 ⟨low, c.valid⟩ code hc).2]
  exact h code hc

theorem wide_divider : divider.Wide := (by decide : 0x80 ≤ (Char.ofNat 0x34F).toNat)

theorem attached_divider : divider.Attached := by
  refine attached_of_parts ?_ (by decide)
  exact (decomposeWithin_parted 4 _).all (by decide)

theorem attached_of_front (sound : r.Sound) (front : (edges r.code).1 ≠ 0) : r.Attached := by
  cases r with
  | bad b =>
    intro x mem
    rw [mem_singleton.1 mem]
    exact sound.resolve_right id
  | char c =>
    have code : Rune.code (.char c) = c.toNat := rfl
    rw [code, edges] at front
    split at front
    · exact (front rfl).elim
    next low =>
      have parted : Parted c.toNat (decompose c.toNat) := decomposeWithin_parted 4 _
      refine attached_of_parts ?_ (by omega)
      split at front
      next row found =>
        have within := find?_some found
        obtain ⟨range, mem, inside⟩ := any_eq_true.1 within
        have := looseEdges_latin _ (mem_of_find?_eq_some found) front range mem
        simp only [Bool.and_eq_true, decide_eq_true_eq] at inside
        refine parted.all ?_
        unfold Latin
        omega
      next =>
        obtain ⟨first, others, split, wide, -⟩ := parted
        rw [split] at front ⊢
        refine forall_mem_cons.2 ⟨attaches_wide ?_, wide⟩
        by_contra plain
        dsimp only at front
        rw [takeWhile_cons_of_neg plain] at front
        exact front rfl

end Parts

section Segments

variable {rs current : List Rune} {r : Rune}

theorem composeSegment_ne_nil (h : rs ≠ []) : composeSegment rs ≠ [] := by
  apply recompose_ne_nil
  intro none
  have perm := reorder_perm (rs.flatMap Rune.parts)
  rw [none] at perm
  exact flatMap_parts_ne_nil h (nil_perm.1 perm)

/-- Behind the first rune of a segment come runes that are not ASCII. That one may become such a rune
too, unless it is before the digits; otherwise it stays, and the others do not vanish. -/
theorem add_head {s : Composing} {f : Rune} {tail : List Rune} (h : s.runes = f :: tail)
    (others : ∀ x ∈ tail, x.Wide) (wide : r.Wide) : ∃ f' tail', (s.add r).runes = f' :: tail' ∧
      (∀ x ∈ tail', x.Wide) ∧ (f'.Wide ∧ 48 ≤ f.code ∨ f' = f ∧ tail' ≠ []) := by
  rcases add_cases s r with result | ⟨before, base, after, code, split, ⟨ordinary, high⟩, free, result⟩
  · refine ⟨f, tail ++ [r], by rw [result, h, cons_append], ?_, .inr ⟨rfl, by simp⟩⟩
    exact forall_mem_append.2 ⟨others, forall_mem_singleton.2 wide⟩
  · have joined : Rune.Wide (.char (Char.ofNat code)) := by
      rw [Rune.Wide, toNat_ofNat ordinary.2]
      exact high
    rw [h] at split
    cases before with
    | nil =>
      obtain ⟨rfl, rfl⟩ := cons.inj split
      exact ⟨_, tail, result, others, .inl ⟨joined, free⟩⟩
    | cons x before =>
      rw [cons_append] at split
      obtain ⟨rfl, rfl⟩ := cons.inj split
      rw [forall_mem_append, forall_mem_cons] at others
      refine ⟨f, before ++ .char (Char.ofNat code) :: after, result, ?_, .inr ⟨rfl, by simp⟩⟩
      exact forall_mem_append.2 ⟨others.1, forall_mem_cons.2 ⟨joined, others.2.2⟩⟩

theorem foldl_add_head {s : Composing} {f : Rune} {tail rs : List Rune} (h : s.runes = f :: tail)
    (inside : ∀ x ∈ tail, x.Wide) (others : ∀ x ∈ rs, x.Wide) :
    ∃ f' tail', (rs.foldl Composing.add s).runes = f' :: tail' ∧ (∀ x ∈ tail', x.Wide) ∧
      (f'.Wide ∧ 48 ≤ f.code ∨ f' = f ∧ (tail ≠ [] ∨ rs ≠ [] → tail' ≠ [])) := by
  induction rs generalizing s f tail with
  | nil => exact ⟨f, tail, h, inside, .inr ⟨rfl, by simp⟩⟩
  | cons r rs ih =>
    rw [forall_mem_cons] at others
    obtain ⟨g, next, kept, wide, head⟩ := add_head h inside others.1
    obtain ⟨f', tail', result, wide', head'⟩ := ih kept wide others.2
    refine ⟨f', tail', result, wide', ?_⟩
    rcases head' with ⟨joined, free⟩ | ⟨rfl, more⟩
    · exact .inl ⟨joined, head.elim And.right fun same => same.1 ▸ free⟩
    · exact head.imp_right fun ⟨same, kept⟩ => ⟨same, fun _ => more (.inl kept)⟩

theorem recompose_head {f : Rune} {rs : List Rune} (h : ∀ x ∈ rs, x.Wide) :
    ∃ f' tail, recompose (f :: rs) = f' :: tail ∧ (∀ x ∈ tail, x.Wide) ∧
      (f'.Wide ∧ 48 ≤ f.code ∨ f' = f ∧ (rs ≠ [] → tail ≠ [])) := by
  obtain ⟨f', tail, result, wide, head⟩ := @foldl_add_head (.start f) f [] rs rfl nofun h
  exact ⟨f', tail, result, wide, head.imp_right fun ⟨same, more⟩ => ⟨same, fun some => more (.inr some)⟩⟩

/-- What a segment is made of. -/
def Segment (rs : List Rune) : Prop :=
  rs = [] ∨ ∃ r marks, rs = r :: marks ∧ r.Sound ∧ ∀ x ∈ marks, x.Attached

theorem segment_singleton (sound : r.Sound) : Segment [r].reverse := .inr ⟨r, [], rfl, sound, nofun⟩

theorem Segment.concat (h : Segment rs) (sound : r.Sound) (attached : r.Attached) : Segment (rs ++ [r]) := by
  rcases h with rfl | ⟨first, marks, rfl, sound', others⟩
  · exact segment_singleton sound
  · refine .inr ⟨first, marks ++ [r], rfl, sound', ?_⟩
    exact forall_mem_append.2 ⟨others, forall_mem_singleton.2 attached⟩

theorem combining_small (small : r.Small) : r.combining = 0 := by
  cases r with
  | bad b => exact small.elim
  | char c =>
    have low : c.toNat < 0x80 := small
    exact if_pos (show c.toNat < 0x300 by omega)

/-- A segment composes to runes of which only the first one may be ASCII. If that is firm, it is all of
the segment or has something behind it. Before the digits, it stays. -/
theorem composeSegment_head {marks : List Rune} (sound : r.Sound) (h : ∀ x ∈ marks, x.Attached) :
    ∃ f tail, composeSegment (r :: marks) = f :: tail ∧ f.Sound ∧ (∀ x ∈ tail, x.Wide) ∧
      (f.Firm → r :: marks = [f] ∨ tail ≠ []) ∧ (48 ≤ f.code ∧ 48 ≤ r.code ∨ f = r) := by
  obtain ⟨p, ps, parts, sound', wide, more, same⟩ := parts_split sound
  have whole : (r :: marks).flatMap Rune.parts = p :: (ps ++ marks.flatMap Rune.parts) := by
    rw [flatMap_cons, parts, cons_append]
  have others : ∀ x ∈ ps ++ marks.flatMap Rune.parts, x.Wide := by
    refine forall_mem_append.2 ⟨wide, fun x mem => ?_⟩
    obtain ⟨m, hm, hx⟩ := mem_flatMap.1 mem
    exact h m hm x hx
  have plain : 48 ≤ p.code → 48 ≤ r.code := fun high => same.elim And.right (· ▸ high)
  rw [composeSegment, whole]
  by_cases base : p.combining = 0
  · obtain ⟨ys, ordered, perm⟩ := reorder_cons base (ps ++ marks.flatMap Rune.parts)
    obtain ⟨f, tail, result, wide', head⟩ := @recompose_head p ys fun x mem => others x (perm.subset mem)
    rw [ordered]
    rcases head with ⟨joined, free⟩ | ⟨rfl, kept⟩
    · exact ⟨f, tail, result, .inl joined, wide', fun firm => (joined.not_firm firm).elim,
        .inl ⟨joined.plain, plain free⟩⟩
    · refine ⟨f, tail, result, sound', wide', fun firm => ?_, same⟩
      have some : ps ++ marks.flatMap Rune.parts ≠ [] → tail ≠ [] := fun some => kept fun none => by
        rw [none] at perm
        exact some (nil_perm.1 perm)
      rcases more firm with more | rfl
      · exact .inr (some (append_ne_nil_of_left_ne_nil more _))
      · by_cases alone : marks = []
        · exact .inl (by rw [alone])
        · exact .inr (some (append_ne_nil_of_right_ne_nil _ (flatMap_parts_ne_nil alone)))
  · -- A mark in front: nothing here is ASCII, in whichever order it comes.
    have mark : p.Wide := sound'.resolve_right fun small => base (combining_small small)
    have perm := reorder_perm (p :: (ps ++ marks.flatMap Rune.parts))
    have all : ∀ x ∈ reorder (p :: (ps ++ marks.flatMap Rune.parts)), x.Wide := fun x mem =>
      forall_mem_cons.2 ⟨mark, others⟩ x (perm.subset mem)
    cases ordered : reorder (p :: (ps ++ marks.flatMap Rune.parts)) with
    | nil =>
      rw [ordered] at perm
      exact absurd (nil_perm.1 perm) (cons_ne_nil _ _)
    | cons g ys =>
      rw [ordered, forall_mem_cons] at all
      obtain ⟨f, tail, result, wide', head⟩ := @recompose_head g ys all.2
      have joined : f.Wide := head.elim And.left fun same => same.1 ▸ all.1
      exact ⟨f, tail, result, .inl joined, wide', fun firm => (joined.not_firm firm).elim,
        .inl ⟨joined.plain, plain mark.plain⟩⟩

theorem Segment.composed (h : Segment rs) : ∀ x ∈ composeSegment rs, x.Sound ∧
    ((∀ y ∈ rs, 48 ≤ y.code) → 48 ≤ x.code) := by
  rcases h with rfl | ⟨r, marks, rfl, sound, others⟩
  · exact forall_mem_nil _
  · obtain ⟨f, tail, result, sound', wide, -, same⟩ := composeSegment_head sound others
    rw [result]
    refine forall_mem_cons.2 ⟨⟨sound', fun plain => ?_⟩, fun x mem => ⟨.inl (wide x mem),
      fun _ => (wide x mem).plain⟩⟩
    exact same.elim And.left fun same => same ▸ plain r mem_cons_self

theorem segments_cons (count : Nat) (current : List Rune) (r : Rune) (rest : List Rune) :
    segments count current (r :: rest) = if (edges r.code).1 = 0 then
        current.reverse :: segments (edges r.code).2 [r] rest
      else if count + (edges r.code).1 > longestRun then
        (divider :: current).reverse :: segments (edges r.code).1 [r] rest
      else segments (count + (edges r.code).1) (r :: current) rest := by
  rw [segments]

theorem segments_segment (count : Nat) (fit : Segment current.reverse) (sound : ∀ r ∈ rs, r.Sound) :
    ∀ segment ∈ segments count current rs, Segment segment := by
  induction rs generalizing count current with
  | nil => exact forall_mem_singleton.2 fit
  | cons r rs ih =>
    obtain ⟨first, others⟩ := forall_mem_cons.1 sound
    rw [segments_cons]
    split
    · exact forall_mem_cons.2 ⟨fit, ih _ (segment_singleton first) others⟩
    next front =>
    split
    · refine forall_mem_cons.2 ⟨?_, ih _ (segment_singleton first) others⟩
      rw [reverse_cons]
      exact fit.concat (sound_char _) attached_divider
    · refine ih _ ?_ others
      rw [reverse_cons]
      exact fit.concat first (attached_of_front first front)

/-- The rune is a segment by itself, and what is behind it composes to `after`. -/
def Alone (k : Rune) (rs after : List Rune) : Prop :=
  ∃ more, segments 0 [k] rs = [k] :: more ∧ more.flatMap composeSegment = after

variable {k : Rune} {before after : List Rune}

theorem edges_firm (firm : k.Firm) : edges k.code = (0, 0) := by
  cases k with
  | bad b => exact firm.elim
  | char c => exact edges_small firm.small

/-- A firm rune among what a segment and others compose to, with no rune behind it that is not ASCII. -/
theorem firm_split {segment rest : List Rune} (fit : Segment segment) (firm : k.Firm)
    (stop : ∀ x ∈ after.head?, ¬x.Wide) (h : composeSegment segment ++ rest = before ++ k :: after) :
    (segment = [k] ∧ before = [] ∧ rest = after) ∨
      ∃ between, before = composeSegment segment ++ between ∧ rest = between ++ k :: after := by
  rcases append_eq_append_iff.1 h with later | ⟨inside, split, tail⟩
  · exact .inr later
  cases inside with
  | nil => exact .inr ⟨[], by simpa using split.symm, tail.symm⟩
  | cons x inside =>
    obtain ⟨rfl, rfl⟩ := cons.inj tail
    rcases fit with rfl | ⟨r, marks, rfl, sound, others⟩
    · exact absurd split (by simp [composeSegment_nil])
    · obtain ⟨f, wide, result, -, all, more, -⟩ := composeSegment_head sound others
      rw [result] at split
      cases before with
      | nil =>
        obtain ⟨rfl, rfl⟩ := cons.inj split
        cases wide with
        | nil => exact .inl ⟨(more firm).resolve_right (absurd rfl), rfl, rfl⟩
        | cons y wide => exact (stop y rfl (all y mem_cons_self)).elim
      | cons y before =>
        obtain ⟨rfl, rfl⟩ := cons.inj split
        exact ((all k (by simp)).not_firm firm).elim

/-- A firm rune of a composed text has been there before, as a segment by itself. -/
theorem firm_of_segments (count : Nat) (firm : k.Firm) (stop : ∀ x ∈ after.head?, ¬x.Wide)
    (fit : Segment current.reverse) (sound : ∀ r ∈ rs, r.Sound)
    (h : (segments count current rs).flatMap composeSegment = before ++ k :: after) :
    (current = [k] ∧ before = [] ∧ (count = 0 → Alone k rs after)) ∨
      ∃ xs ys, rs = xs ++ k :: ys ∧ (segments count current xs).flatMap composeSegment = before ∧
        Alone k ys after := by
  induction rs generalizing count current before with
  | nil =>
    rcases firm_split fit firm stop h with ⟨alone, rfl, rfl⟩ | ⟨between, -, none⟩
    · refine .inl ⟨reverse_eq_iff.1 alone, rfl, fun _ => ⟨[], rfl, rfl⟩⟩
    · exact absurd none (by simp)
  | cons r rs ih =>
    obtain ⟨first, others⟩ := forall_mem_cons.1 sound
    by_cases front : (edges r.code).1 = 0
    · -- The rune begins a segment of its own; the firm one is before it, or it is here, or behind it.
      have step : ∀ current xs, segments count current (r :: xs) =
          current.reverse :: segments (edges r.code).2 [r] xs := by
        intro current xs
        rw [segments_cons, if_pos front]
      rw [step] at h
      rcases firm_split fit firm stop h with ⟨alone, rfl, rest⟩ | ⟨between, rfl, rest⟩
      · refine .inl ⟨reverse_eq_iff.1 alone, rfl, fun zero => ⟨_, ?_, rest⟩⟩
        subst zero
        exact step [k] rs
      rcases ih _ (segment_singleton first) others rest with ⟨same, rfl, alone⟩ | ⟨xs, ys, rfl, composed, alone⟩
      · obtain rfl := (cons.inj same).1
        refine .inr ⟨[], rs, rfl, by simp [segments], alone ?_⟩
        rw [edges_firm firm]
      · refine .inr ⟨r :: xs, ys, rfl, ?_, alone⟩
        rw [step, flatMap_cons, composed]
    have other : r ≠ k := by
      rintro rfl
      rw [edges_firm firm] at front
      exact front rfl
    by_cases long : count + (edges r.code).1 > longestRun
    · have step : ∀ xs, segments count current (r :: xs) =
          (divider :: current).reverse :: segments (edges r.code).1 [r] xs := by
        intro xs
        rw [segments_cons, if_neg front, if_pos long]
      have fit' : Segment (divider :: current).reverse := by
        rw [reverse_cons]
        exact fit.concat (sound_char _) attached_divider
      rw [step] at h
      rcases firm_split fit' firm stop h with ⟨alone, -, -⟩ | ⟨between, rfl, rest⟩
      · obtain rfl := (cons.inj (reverse_eq_iff.1 alone)).1
        exact (wide_divider.not_firm firm).elim
      rcases ih _ (segment_singleton first) others rest with ⟨same, -, -⟩ | ⟨xs, ys, rfl, composed, alone⟩
      · exact (other (cons.inj same).1).elim
      · refine .inr ⟨r :: xs, ys, rfl, ?_, alone⟩
        rw [step, flatMap_cons, composed]
    · have step : ∀ xs, segments count current (r :: xs) =
          segments (count + (edges r.code).1) (r :: current) xs := by
        intro xs
        rw [segments_cons, if_neg front, if_neg long]
      have fit' : Segment (r :: current).reverse := by
        rw [reverse_cons]
        exact fit.concat first (attached_of_front first front)
      rw [step] at h
      rcases ih _ fit' others h with ⟨same, -, -⟩ | ⟨xs, ys, rfl, composed, alone⟩
      · exact (other (cons.inj same).1).elim
      · refine .inr ⟨r :: xs, ys, rfl, ?_, alone⟩
        rw [step, composed]

end Segments

section Bytes

variable {k : UInt8} {bs pre post : Bytes}
variable {rs : List Rune}

theorem small_of_isLetter (letter : isLetter k.toNat) : k < 0x80 :=
  UInt8.lt_iff_toNat_lt.2 (isFirm.small (.inr letter))

theorem sound_runes (bs : Bytes) : ∀ r ∈ runes bs, r.Sound := by
  induction bs using runes.induct with
  | case1 =>
    rw [runes]
    exact forall_mem_nil _
  | case2 b rest c n lead ih =>
    rw [runes, lead]
    exact forall_mem_cons.2 ⟨sound_char c, ih⟩
  | case3 b rest lead ih =>
    rw [runes, lead]
    refine forall_mem_cons.2 ⟨.inl ?_, ih⟩
    by_contra small
    cases lead.symm.trans (leading?_small (Nat.lt_of_not_le small) rest)

theorem runes_split {xs ys : List Rune} (small : k < 0x80)
    (h : runes bs = xs ++ .char (Char.ofNat k.toNat) :: ys) :
    ∃ a b, bs = a ++ k :: b ∧ runes a = xs ∧ runes b = ys := by
  induction bs using runes.induct generalizing xs with
  | case1 =>
    rw [runes] at h
    exact absurd h (by simp)
  | case2 b rest c n lead ih =>
    rw [runes, lead] at h
    cases xs with
    | nil =>
      obtain ⟨same, rfl⟩ := cons.inj h
      cases same
      rcases leading?_cases lead with ⟨byte, same, rfl⟩ | ⟨-, high⟩
      · have code := congrArg Char.toNat same
        rw [toNat_ofNat_small small, toNat_ofNat_small byte] at code
        obtain rfl := UInt8.toNat_inj.1 code
        exact ⟨[], rest, rfl, by rw [runes], rfl⟩
      · rw [toNat_ofNat_small small] at high
        exact absurd small (Nat.not_lt_of_le high)
    | cons x xs =>
      obtain ⟨rfl, tail⟩ := cons.inj h
      obtain ⟨a, b', split, rfl, rfl⟩ := ih tail
      have whole : rest = rest.take n ++ a ++ k :: b' := by
        rw [append_assoc, ← split, take_append_drop]
      have lead' : leading? b (rest.take n ++ a) = some (c, n) := by
        rw [← leading?_append (starts_cons small), ← whole, lead]
      refine ⟨b :: (rest.take n ++ a), b', congrArg (b :: ·) whole, ?_, rfl⟩
      rw [runes, lead']
      dsimp only
      rw [drop_left' (length_take_of_le (leading?_le lead))]
  | case3 b rest lead ih =>
    rw [runes, lead] at h
    cases xs with
    | nil => cases (cons.inj h).1
    | cons x xs =>
      obtain ⟨rfl, tail⟩ := cons.inj h
      obtain ⟨a, b', rfl, rfl, rfl⟩ := ih tail
      rw [leading?_append (starts_cons small)] at lead
      refine ⟨b :: a, b', rfl, ?_, rfl⟩
      rw [runes, lead]

theorem bytes_wide {r : Rune} (wide : r.Wide) : ∀ c ∈ r.bytes, 0x80 ≤ c := by
  cases r with
  | bad b => exact forall_mem_singleton.2 wide
  | char c => exact bytes_of_high wide

theorem bytes_split (small : k < 0x80) (sound : ∀ r ∈ rs, r.Sound)
    (h : rs.flatMap Rune.bytes = pre ++ k :: post) : ∃ xs ys, rs = xs ++ .char (Char.ofNat k.toNat) :: ys ∧
      xs.flatMap Rune.bytes = pre ∧ ys.flatMap Rune.bytes = post := by
  induction rs generalizing pre with
  | nil => exact absurd h (by simp)
  | cons r rs ih =>
    obtain ⟨first, others⟩ := forall_mem_cons.1 sound
    have later : ∀ between, pre = r.bytes ++ between → rs.flatMap Rune.bytes = between ++ k :: post →
        ∃ xs ys, r :: rs = xs ++ .char (Char.ofNat k.toNat) :: ys ∧ xs.flatMap Rune.bytes = pre ∧
          ys.flatMap Rune.bytes = post := by
      rintro between rfl rest
      obtain ⟨xs, ys, rfl, rfl, rfl⟩ := ih others rest
      exact ⟨r :: xs, ys, rfl, flatMap_cons, rfl⟩
    rcases append_eq_append_iff.1 h with ⟨between, before, rest⟩ | ⟨inside, split, tail⟩
    · exact later between before rest
    cases inside with
    | nil => exact later [] (by simpa using split.symm) tail.symm
    | cons x inside =>
      obtain ⟨rfl, rfl⟩ := cons.inj tail
      have mem : k ∈ r.bytes := by
        rw [split]
        simp
      rcases first with wide | ascii
      · exact absurd small (Nat.not_lt_of_le (bytes_wide wide k mem))
      · cases r with
        | bad b => exact ascii.elim
        | char c =>
          obtain ⟨b, byte, rfl⟩ := exists_byte ascii
          rw [bytes_small byte] at split mem
          obtain rfl := mem_singleton.1 mem
          cases pre with
          | nil =>
            obtain rfl := (cons.inj split).2
            exact ⟨[], rs, rfl, rfl, rfl⟩
          | cons y pre => exact absurd (cons.inj split).2 (by simp)

theorem not_wide_of_starts (start : Starts (rs.flatMap Rune.bytes)) : ∀ x ∈ rs.head?, ¬x.Wide := by
  intro x head wide
  obtain ⟨rest, rfl⟩ := head?_eq_some_iff.1 head
  obtain ⟨b, bytes, split⟩ := exists_cons_of_ne_nil (bytes_ne_nil x)
  have high := bytes_wide wide b (by rw [split]; exact mem_cons_self)
  have low : b < 0x80 := start b (by rw [flatMap_cons, split]; rfl)
  exact absurd low (Nat.not_lt_of_le high)

/-- The first segment goes on from what there is, and all others are made of what comes. -/
theorem segments_head (count : Nat) (current rs : List Rune) : ∃ marks rest,
    segments count current rs = (current.reverse ++ marks) :: rest ∧
      ∀ x ∈ marks ++ rest.flatten, x = divider ∨ x ∈ rs := by
  induction rs generalizing count current with
  | nil => exact ⟨[], [], by rw [segments, append_nil], nofun⟩
  | cons r rs ih =>
    have next : ∀ count current, ∃ marks rest,
        segments count (r :: current) rs = (current.reverse ++ r :: marks) :: rest ∧
          ∀ x ∈ r :: marks ++ rest.flatten, x = divider ∨ x ∈ r :: rs := by
      intro count current
      obtain ⟨marks, rest, result, inside⟩ := ih count (r :: current)
      refine ⟨marks, rest, by rw [result, reverse_cons, append_assoc, singleton_append], ?_⟩
      exact forall_mem_cons.2 ⟨.inr mem_cons_self, fun x mem =>
        (inside x mem).imp_right (mem_cons_of_mem r)⟩
    rw [segments_cons]
    split
    · obtain ⟨marks, rest, result, inside⟩ := next (edges r.code).2 []
      exact ⟨[], _, by rw [append_nil], by rw [result]; exact inside⟩
    split
    · obtain ⟨marks, rest, result, inside⟩ := next (edges r.code).1 []
      refine ⟨[divider], _, by rw [reverse_cons], ?_⟩
      rw [result]
      exact forall_mem_cons.2 ⟨.inl rfl, inside⟩
    · obtain ⟨marks, rest, result, inside⟩ := next (count + (edges r.code).1) current
      exact ⟨r :: marks, rest, result, inside⟩

theorem flatMap_composeSegment_ne_nil (count : Nat) {current : List Rune} (some : current ≠ [])
    (rs : List Rune) : (segments count current rs).flatMap composeSegment ≠ [] := by
  obtain ⟨marks, rest, result, -⟩ := segments_head count current rs
  have first : current.reverse ++ marks ≠ [] :=
    append_ne_nil_of_left_ne_nil (reverse_ne_nil_iff.2 some) _
  rw [result]
  exact append_ne_nil_of_left_ne_nil (composeSegment_ne_nil first) _

/-- What is behind a segment of one character begins a segment of its own. -/
theorem Alone.cases {k : Rune} {rs after : List Rune} (h : Alone k rs after) : (rs = [] ∧ after = []) ∨
    ∃ r rest, rs = r :: rest ∧ (edges r.code).1 = 0 ∧
      (segments (edges r.code).2 [r] rest).flatMap composeSegment = after := by
  obtain ⟨more, first, rfl⟩ := h
  cases rs with
  | nil =>
    obtain rfl := (cons.inj first).2
    exact .inl ⟨rfl, rfl⟩
  | cons r rs =>
    rw [segments_cons] at first
    split at first
    next front => exact .inr ⟨r, rs, rfl, front, by rw [(cons.inj first).2]⟩
    split at first
    · cases (cons.inj first).1
    · obtain ⟨marks, rest, result, -⟩ := segments_head (0 + (edges r.code).1) [r, k] rs
      rw [result] at first
      cases (cons.inj first).1

theorem Alone.exchange {k : Rune} {after : List Rune} (h : Alone k rs after) (k' : Rune) :
    Alone k' rs after := by
  rcases h.cases with ⟨rfl, rfl⟩ | ⟨r, rest, rfl, front, result⟩
  · exact ⟨[], rfl, rfl⟩
  · exact ⟨_, by rw [segments_cons, if_pos front]; rfl, result⟩

theorem Alone.eq_nil {k : Rune} (h : Alone k rs []) : rs = [] := by
  rcases h.cases with ⟨rfl, -⟩ | ⟨r, rest, -, -, none⟩
  · rfl
  · exact (flatMap_composeSegment_ne_nil _ (cons_ne_nil r []) rest none).elim

/-- Nothing but an empty text composes to nothing. -/
theorem eq_nil_of_composed (h : composed bs = []) : bs = [] := by
  by_contra some
  obtain ⟨r, rs, split⟩ := exists_cons_of_ne_nil (runes_ne_nil some)
  have runes : (segments 0 [] (r :: rs)).flatMap composeSegment ≠ [] := by
    have later := fun count => flatMap_composeSegment_ne_nil count (cons_ne_nil r []) rs
    rw [segments_cons]
    split
    · exact append_ne_nil_of_right_ne_nil _ (later _)
    split
    · exact append_ne_nil_of_right_ne_nil _ (later _)
    · exact later _
  obtain ⟨x, xs, split'⟩ := exists_cons_of_ne_nil runes
  rw [composed, split, split'] at h
  exact bytes_ne_nil x (append_eq_nil_iff.1 h).1

/-- A firm character of a composed text with ASCII text behind it has been there before. Another ASCII
character in its place would not change anything else. -/
theorem composed_character (firm : isFirm k.toNat) (start : Starts post) (h : composed bs = pre ++ k :: post) :
    ∃ a b, bs = a ++ k :: b ∧ composed a = pre ∧ (∀ c < 0x80, composed (c :: b) = c :: post) ∧
      (post = [] → b = []) := by
  have small : k < 0x80 := UInt8.lt_iff_toNat_lt.2 firm.small
  have sound := sound_runes bs
  have segment : Segment ([] : List Rune).reverse := .inl rfl
  have sound' : ∀ x ∈ (segments 0 [] (runes bs)).flatMap composeSegment, x.Sound := by
    intro x mem
    obtain ⟨s, hs, hx⟩ := mem_flatMap.1 mem
    exact ((segments_segment 0 segment sound s hs).composed x hx).1
  obtain ⟨xs, ys, split, rfl, rfl⟩ := bytes_split small sound' h
  have firm' : Rune.Firm (.char (Char.ofNat k.toNat)) := by
    rw [Rune.Firm, toNat_ofNat_small small]
    exact firm
  rcases firm_of_segments 0 firm' (not_wide_of_starts start) segment sound split with
    ⟨none, -⟩ | ⟨rs, rs', runes, before, alone⟩
  · cases none
  · obtain ⟨a, b, rfl, rfl, rfl⟩ := runes_split small runes
    refine ⟨a, b, rfl, by rw [composed, before], fun c small' => ?_, fun none => ?_⟩
    · obtain ⟨more, first, rest⟩ := alone.exchange (.char (Char.ofNat c.toNat))
      rw [composed_cons small', first, flatMap_cons, rest, composeSegment_singleton small',
        singleton_append, flatMap_cons, bytes_small small', singleton_append]
    · have last : ys = [] := by
        cases ys with
        | nil => rfl
        | cons y ys =>
          exact (bytes_ne_nil y (append_eq_nil_iff.1 none).1).elim
      subst last
      by_contra some
      exact runes_ne_nil some alone.eq_nil

theorem eq_singleton_of_composed (firm : isFirm k.toNat) (h : composed bs = [k]) : bs = [k] := by
  obtain ⟨a, b, rfl, before, -, after⟩ := @composed_character k bs [] [] firm nofun h
  rw [eq_nil_of_composed before, after rfl]
  rfl

/-- A word of a composed text with ASCII text behind it has been there before. Other ASCII text in its
place would not change anything else. -/
theorem composed_word {w : Bytes} (letters : ∀ c ∈ w, isLetter c.toNat) (some : w ≠ []) (start : Starts post)
    (h : composed bs = pre ++ (w ++ post)) : ∃ a b, bs = a ++ (w ++ b) ∧ composed a = pre ∧
      ∀ w' : Bytes, w'.isAscii → w' ≠ [] → composed (w' ++ b) = w' ++ post := by
  induction w generalizing bs pre with
  | nil => exact (some rfl).elim
  | cons k w ih =>
    obtain ⟨letter, letters⟩ := forall_mem_cons.1 letters
    cases w with
    | nil =>
      obtain ⟨a, b, rfl, before, exchange, -⟩ := composed_character (.inr letter) start h
      refine ⟨a, b, rfl, before, fun w' ascii some => ?_⟩
      obtain ⟨init, c, rfl⟩ := (eq_nil_or_concat w').resolve_left some
      rw [Bytes.isAscii, concat_eq_append, all_append, Bool.and_eq_true] at ascii
      have small : c < 0x80 := by simpa using ascii.2
      rw [concat_eq_append, append_assoc, singleton_append, composed_append (starts_cons small),
        composed_of_isAscii ascii.1, exchange c small, append_assoc, singleton_append]
    | cons k' w =>
      have next : Starts (k' :: w ++ post) := starts_cons (small_of_isLetter (letters k' mem_cons_self))
      obtain ⟨a, b, rfl, before, exchange, -⟩ := composed_character (.inr letter) next h
      obtain ⟨a', b', split, first, exchange'⟩ :=
        @ih (k :: b) [k] letters (cons_ne_nil _ _) (exchange k (small_of_isLetter letter))
      rw [eq_singleton_of_composed (.inr letter) first] at split
      refine ⟨a, b', ?_, before, exchange'⟩
      rw [(cons.inj split).2]
      rfl

theorem runes_plain (h : ∀ c ∈ bs, 48 ≤ c) : ∀ r ∈ runes bs, 48 ≤ r.code := by
  intro r mem
  rcases sound_runes bs r mem with wide | small
  · exact wide.plain
  · cases r with
    | bad b => exact small.elim
    | char c =>
      obtain ⟨b, byte, rfl⟩ := exists_byte small
      obtain ⟨xs, ys, split⟩ := append_of_mem mem
      obtain ⟨pre, post, rfl, -⟩ := runes_split byte split
      have plain : 48 ≤ b := h b (by simp)
      exact Nat.le_trans plain (Nat.le_of_eq (toNat_ofNat_small byte).symm)

theorem bytes_plain {r : Rune} (sound : r.Sound) (plain : 48 ≤ r.code) : ∀ c ∈ r.bytes, 48 ≤ c := by
  rcases sound with wide | small
  · exact fun c mem => UInt8.le_trans (by decide) (bytes_wide wide c mem)
  · cases r with
    | bad b => exact small.elim
    | char c =>
      obtain ⟨b, byte, rfl⟩ := exists_byte small
      rw [Rune.code, Rune.shown, toNat_ofNat_small byte] at plain
      rw [bytes_small byte]
      exact forall_mem_singleton.2 plain

theorem flatMap_bytes_plain (h : ∀ r ∈ rs, r.Sound ∧ 48 ≤ r.code) : ∀ c ∈ rs.flatMap Rune.bytes, 48 ≤ c := by
  intro c mem
  obtain ⟨r, hr, hc⟩ := mem_flatMap.1 mem
  exact bytes_plain (h r hr).1 (h r hr).2 c hc

/-- Segments of runes that are not before the digits. -/
theorem flatMap_composeSegment_plain {segments : List (List Rune)} (fit : ∀ s ∈ segments, Segment s)
    (h : ∀ x ∈ segments.flatten, x = divider ∨ 48 ≤ x.code) :
    ∀ x ∈ segments.flatMap composeSegment, x.Sound ∧ 48 ≤ x.code := by
  intro x mem
  obtain ⟨s, hs, hx⟩ := mem_flatMap.1 mem
  have ⟨sound, plain⟩ := (fit s hs).composed x hx
  refine ⟨sound, plain fun y hy => ?_⟩
  exact (h y (mem_flatten_of_mem hs hy)).elim (fun same => same ▸ wide_divider.plain) id

/-- Nothing gets before the digits. -/
theorem composed_plain (h : ∀ c ∈ bs, 48 ≤ c) : ∀ c ∈ composed bs, 48 ≤ c := by
  refine flatMap_bytes_plain (flatMap_composeSegment_plain (segments_segment 0 (.inl rfl) (sound_runes bs)) ?_)
  obtain ⟨marks, rest, split, inside⟩ := segments_head 0 [] (runes bs)
  rw [split]
  exact fun x mem => (inside x mem).imp_right (runes_plain h x)

/-- A byte before the digits stays, and what comes behind it neither vanishes nor gets before the
digits. -/
theorem composed_firm {b : UInt8} (low : b < 48) (h : ∀ c ∈ bs, 48 ≤ c) :
    ∃ tail, composed (b :: bs) = b :: tail ∧ (∀ c ∈ tail, 48 ≤ c) ∧ (bs = [] ↔ tail = []) := by
  have small : b < 0x80 := UInt8.lt_trans low (by decide)
  have code : Rune.code (.char (Char.ofNat b.toNat)) < 48 := by
    rw [Rune.code, Rune.shown, toNat_ofNat_small small]
    exact low
  obtain ⟨marks, rest, split, inside⟩ := segments_head 0 [.char (Char.ofNat b.toNat)] (runes bs)
  rw [reverse_singleton, singleton_append] at split
  have fit := segments_segment 0 (segment_singleton (sound_char (Char.ofNat b.toNat))) (sound_runes bs)
  rw [split] at fit
  obtain ⟨first, others⟩ := forall_mem_cons.1 fit
  rcases first with none | ⟨r, marks', same, sound, attached⟩
  · cases none
  cases same
  obtain ⟨f, tail, result, -, wide, -, head⟩ := composeSegment_head sound attached
  obtain rfl := head.resolve_left fun plain => by omega
  have later := flatMap_composeSegment_plain others fun x mem =>
    (inside x (mem_append_right _ mem)).imp_right (runes_plain h x)
  have whole : composed (b :: bs) = b :: (tail ++ rest.flatMap composeSegment).flatMap Rune.bytes := by
    rw [composed_cons small, split, flatMap_cons, result,
      cons_append, flatMap_cons, bytes_small small, singleton_append]
  refine ⟨_, whole, flatMap_bytes_plain ?_, ?_, fun none => ?_⟩
  · exact forall_mem_append.2 ⟨fun x mem => ⟨.inl (wide x mem), (wide x mem).plain⟩, later⟩
  · rintro rfl
    rw [composed_singleton small] at whole
    exact (cons.inj whole).2.symm
  · rw [none] at whole
    exact (cons.inj (eq_singleton_of_composed (.inl low) whole)).2

end Bytes

end Peano.Text
