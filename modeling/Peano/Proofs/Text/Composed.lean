import Peano.Proofs.Text.Bytes
import Peano.Text.Normal
namespace Peano.Text
open List

/-- Canonical composition without a way round for ASCII text. -/
def composed (bs : Bytes) : Bytes :=
  ((segments 0 [] (runes bs)).flatMap composeSegment).flatMap Rune.bytes

/-- A text that no character goes on into. -/
def Starts (bs : Bytes) : Prop := ∀ b ∈ bs.head?, b < 0x80

theorem starts_cons {b : UInt8} {bs : Bytes} (small : b < 0x80) : Starts (b :: bs) := by
  rintro _ ⟨⟩
  exact small

section Runes

variable {b : UInt8} {bs rest : Bytes}

theorem isTail_of_small (h : b < 0x80) : isTail b = false := by
  unfold isTail
  grind

theorem leading?_append (start : Starts bs) : leading? b (rest ++ bs) = leading? b rest := by
  cases bs with
  | nil => rw [append_nil]
  | cons c bs =>
    have stop := isTail_of_small (start c rfl)
    unfold leading?
    -- A character has three more bytes at most.
    match rest with
    | [] => rcases bs with _ | ⟨x, _ | ⟨y, bs⟩⟩ <;> simp [stop]
    | [d] => rcases bs with _ | ⟨x, bs⟩ <;> simp [stop]
    | [d, e] => simp [stop]
    | d :: e :: f :: rest => rfl

theorem leading?_le {c : Char} {n : Nat} (h : leading? b rest = some (c, n)) : n ≤ rest.length := by
  unfold leading? at h
  dsimp only at h
  repeat' split at h
  all_goals simp_all <;> omega

theorem runes_append (start : Starts bs) (rest : Bytes) : runes (rest ++ bs) = runes rest ++ runes bs := by
  induction rest using runes.induct with
  | case1 => rw [runes]; rfl
  | case2 b rest c n lead ih =>
    rw [cons_append, runes, leading?_append start, runes, lead]
    dsimp only
    rw [cons_append, drop_append_of_le_length (leading?_le lead), ih]
  | case3 b rest lead ih =>
    rw [cons_append, runes, leading?_append start, runes, lead, cons_append, ih]

theorem leading?_small (small : b < 0x80) (rest : Bytes) :
    leading? b rest = some (Char.ofNat b.toNat, 0) := by
  have : b.toNat < 0x80 := small
  simp [leading?, this]

theorem runes_cons_small (small : b < 0x80) (rest : Bytes) :
    runes (b :: rest) = .char (Char.ofNat b.toNat) :: runes rest := by
  rw [runes, leading?_small small]
  rfl

theorem toNat_ofNat_small (small : b < 0x80) : (Char.ofNat b.toNat).toNat = b.toNat := by
  have bound : b.toNat < 0x80 := small
  have valid : b.toNat.isValidChar := .inl (by omega)
  rw [Char.ofNat, dif_pos valid]
  rfl

end Runes

section Segments

theorem segments_append {r : Rune} (front : edges r.code = (0, 0)) (count : Nat) (current xs ys : List Rune) :
    segments count current (xs ++ r :: ys) = segments count current xs ++ segments 0 [r] ys := by
  induction xs generalizing count current with
  | nil => simp [segments, front]
  | cons x xs ih =>
    rw [cons_append, segments, segments]
    dsimp only
    split
    · rw [ih, cons_append]
    · split
      · rw [ih, cons_append]
      · rw [ih]

theorem edges_small {code : Nat} (small : code < 0x80) : edges code = (0, 0) := by
  rw [edges, if_pos (by omega)]

theorem edges_ofNat {b : UInt8} (small : b < 0x80) :
    edges (Rune.code (.char (Char.ofNat b.toNat))) = (0, 0) := by
  apply edges_small
  rw [Rune.code, Rune.shown, toNat_ofNat_small small]
  exact small

theorem composeSegment_nil : composeSegment [] = [] := rfl

theorem composed_nil : composed [] = [] := by
  rw [composed, runes]
  rfl

theorem composed_cons {b : UInt8} (small : b < 0x80) (bs : Bytes) : composed (b :: bs) =
    ((segments 0 [.char (Char.ofNat b.toNat)] (runes bs)).flatMap composeSegment).flatMap Rune.bytes := by
  rw [composed, runes_cons_small small]
  simp [segments, edges_ofNat small, composeSegment_nil]

/-- Text that starts with an ASCII character is composed by itself. -/
theorem composed_append {bs : Bytes} (start : Starts bs) (rest : Bytes) :
    composed (rest ++ bs) = composed rest ++ composed bs := by
  cases bs with
  | nil => rw [composed_nil, append_nil, append_nil]
  | cons b bs =>
    have small : b < 0x80 := start b rfl
    rw [composed_cons small, composed, composed, runes_append start, runes_cons_small small,
      segments_append (edges_ofNat small), flatMap_append, flatMap_append]

end Segments

section Tables

variable {parts : List Nat}

/-- The code of a character that is not before the digits. -/
def Ordinary (code : Nat) : Prop := 48 ≤ code ∧ code.isValidChar

instance (code : Nat) : Decidable (Ordinary code) := inferInstanceAs (Decidable (_ ∧ _))

theorem charsOf_cons (row : List Char) (rows : List String) :
    charsOf (String.ofList row :: rows) = row ++ charsOf rows := by
  rw [charsOf, flatMap_cons, String.toList_ofList]
  rfl

theorem decompositions_ordinary : ∀ x ∈ decompositions,
    (Ordinary x.1 ∧ 0x80 ≤ x.1) ∧ Ordinary x.2.1 ∧ Ordinary x.2.2 ∧ 48 ≤ x.2.1 % 0x10000 := by
  unfold decompositions composites compositions separations entriesOf
  simp only [flatMap_cons]
  repeat rw [charsOf_cons]
  decide +kernel

theorem singletons_ordinary : ∀ x ∈ singletons, Ordinary x.2 := by
  unfold singletons replacements
  simp only [flatMap_cons]
  repeat rw [charsOf_cons]
  decide +kernel

variable {code : Nat}

theorem syllableParts?_ordinary (h : syllableParts? code = some parts) :
    ∀ x ∈ parts, Ordinary x ∧ 0x80 ≤ x := by
  unfold syllableParts? at h
  split at h
  next range =>
    intro x mem
    rw [← Option.some.inj h] at mem
    have each : x = 0x1100 + (code - 0xAC00) / 588 ∨ x = 0x1161 + (code - 0xAC00) % 588 / 28 ∨
        x = 0x11A7 + (code - 0xAC00) % 28 := by
      split at mem
      · simp only [mem_cons, not_mem_nil, or_false] at mem
        exact mem.imp_right .inl
      · simpa only [cons_append, nil_append, mem_cons, not_mem_nil, or_false] using mem
    have low : 0x80 ≤ x := by omega
    have high : x < 0xD800 := by omega
    exact ⟨⟨by omega, .inl high⟩, low⟩
  · cases h

/-- A mapping is a row of one of the tables. -/
theorem mappingOf?_cases (h : mappingOf? code = some parts) :
    (∃ a b, (code, a, b) ∈ decompositions ∧ parts = [a, b]) ∨
      ∃ a, (code, a) ∈ singletons ∧ parts = [a] := by
  unfold mappingOf? at h
  split at h
  next c a b found =>
    have row := mem_of_find?_eq_some found
    have same := find?_some found
    obtain rfl : c = code := by simpa only [beq_iff_eq] using same
    exact .inl ⟨a, b, row, (Option.some.inj h).symm⟩
  · obtain ⟨⟨c, a⟩, found, made⟩ := Option.map_eq_some_iff.1 h
    have row := mem_of_find?_eq_some found
    have same := find?_some found
    obtain rfl : c = code := by simpa only [beq_iff_eq] using same
    exact .inr ⟨a, row, made.symm⟩

theorem mappingOf?_ordinary (h : mappingOf? code = some parts) : ∀ x ∈ parts, Ordinary x := by
  rcases mappingOf?_cases h with ⟨a, b, row, rfl⟩ | ⟨a, row, rfl⟩
  · obtain ⟨-, first, second, -⟩ := decompositions_ordinary _ row
    exact forall_mem_cons.2 ⟨first, forall_mem_singleton.2 second⟩
  · exact forall_mem_singleton.2 (singletons_ordinary _ row)

theorem decomposeWithin_succ (depth code : Nat) : decomposeWithin (depth + 1) code =
    if code < 0xC0 then [code]
    else match syllableParts? code with
      | some parts => parts
      | none =>
        match mappingOf? code with
        | some parts => parts.flatMap (decomposeWithin depth)
        | none => [code] :=
  rfl

theorem decomposeWithin_ordinary (depth : Nat) (h : Ordinary code) :
    ∀ x ∈ decomposeWithin depth code, Ordinary x := by
  induction depth generalizing code with
  | zero => exact forall_mem_singleton.2 h
  | succ depth ih =>
    rw [decomposeWithin_succ]
    split
    · exact forall_mem_singleton.2 h
    split
    next parts found => exact fun x mem => (syllableParts?_ordinary found x mem).1
    split
    next parts found =>
      intro x mem
      obtain ⟨y, hy, hx⟩ := mem_flatMap.1 mem
      exact ih (mappingOf?_ordinary found y hy) x hx
    · exact forall_mem_singleton.2 h

theorem syllableParts?_ne_nil (h : syllableParts? code = some parts) : parts ≠ [] := by
  unfold syllableParts? at h
  split at h
  · rw [← Option.some.inj h]
    split <;> exact cons_ne_nil _ _
  · cases h

theorem composePair?_ordinary {a b : Nat} (h : composePair? a b = some code) :
    (Ordinary code ∧ 0x80 ≤ code) ∧ 48 ≤ a := by
  obtain ⟨⟨c, x, y⟩, found, rfl⟩ := Option.map_eq_some_iff.1 h
  have row := decompositions_ordinary _ (mem_append_left _ (mem_of_find?_eq_some found))
  have fits := find?_some found
  simp only [Bool.and_eq_true, beq_iff_eq] at fits
  have low : 48 ≤ x % 0x10000 := row.2.2.2
  exact ⟨row.1, by omega⟩

theorem composeSyllable?_ordinary {a b : Nat} (h : composeSyllable? a b = some code) :
    (Ordinary code ∧ 0x80 ≤ code) ∧ 48 ≤ a := by
  unfold composeSyllable? at h
  split at h
  · have sum := Option.some.inj h
    have low : 0x80 ≤ code := by omega
    have high : code < 0xD800 := by omega
    exact ⟨⟨⟨by omega, .inl high⟩, low⟩, by omega⟩
  split at h
  · have sum := Option.some.inj h
    have low : 0x80 ≤ code := by omega
    have high : code < 0xD800 := by omega
    exact ⟨⟨⟨by omega, .inl high⟩, low⟩, by omega⟩
  · cases h

end Tables

section Order

theorem insertMark_perm (r : Rune) (run : List Rune) : (insertMark r run).Perm (run ++ [r]) := by
  induction run with
  | nil => exact .rfl
  | cons x run ih =>
    unfold insertMark
    split
    · exact ih.cons x
    · exact (perm_append_singleton r (x :: run)).symm

/-- What is done stays, and the rest comes behind it in some order. -/
theorem foldl_reorderStep (done run rs : List Rune) : ∃ ys,
    ((rs.foldl reorderStep (done, run)).2.reverse ++ (rs.foldl reorderStep (done, run)).1).reverse =
      done.reverse ++ ys ∧ ys.Perm (run ++ rs) := by
  induction rs generalizing done run with
  | nil => exact ⟨run, by simp, by simp⟩
  | cons r rs ih =>
    rw [foldl_cons]
    by_cases base : r.combining = 0
    · have step : reorderStep (done, run) r = (r :: (run.reverse ++ done), []) := if_pos base
      obtain ⟨ys, result, perm⟩ := ih (r :: (run.reverse ++ done)) []
      refine ⟨run ++ r :: ys, ?_, (perm.cons r).append_left run⟩
      rw [step, result]
      simp
    · have step : reorderStep (done, run) r = (done, insertMark r run) := if_neg base
      obtain ⟨ys, result, perm⟩ := ih done (insertMark r run)
      rw [step]
      refine ⟨ys, result, perm.trans ?_⟩
      have marks := (insertMark_perm r run).append_right rs
      rwa [append_assoc] at marks

theorem reorder_perm (rs : List Rune) : (reorder rs).Perm rs := by
  obtain ⟨ys, result, perm⟩ := foldl_reorderStep [] [] rs
  have same : reorder rs = ys := result
  rwa [same]

theorem reorder_cons {r : Rune} (base : r.combining = 0) (rs : List Rune) :
    ∃ ys, reorder (r :: rs) = r :: ys ∧ ys.Perm rs := by
  obtain ⟨ys, result, perm⟩ := foldl_reorderStep [r] [] rs
  have step : reorderStep ([], []) r = ([r], []) := if_pos base
  refine ⟨ys, ?_, perm⟩
  rw [← step] at result
  exact result

end Order

section Composition

variable {s : Composing} {r : Rune}

theorem runes_rebase (s : Composing) : s.rebase.runes = s.runes := by
  unfold Composing.rebase
  split
  · rfl
  next last between after => simp [Composing.runes, after]

/-- A character is put behind all others, or it is joined to the base. -/
theorem add_cases (s : Composing) (r : Rune) : (s.add r).runes = s.runes ++ [r] ∨
    ∃ before base after code, s.runes = before ++ base :: after ∧ (Ordinary code ∧ 0x80 ≤ code) ∧
      48 ≤ base.code ∧ (s.add r).runes = before ++ .char (Char.ofNat code) :: after := by
  unfold Composing.add
  dsimp only
  split
  · have same : (if s.last.combining = 0 then s.rebase else s).runes = s.runes := by
      split
      · exact runes_rebase s
      · rfl
    generalize (if s.last.combining = 0 then s.rebase else s) = based at same ⊢
    split
    next code joined =>
      have ordinary : (Ordinary code ∧ 0x80 ≤ code) ∧ 48 ≤ based.base.code := by
        split at joined
        · cases joined
        split at joined
        · exact composeSyllable?_ordinary joined
        · exact composePair?_ordinary joined
      exact .inr ⟨based.before.reverse, based.base, based.after.reverse, code, same.symm, ordinary.1,
        ordinary.2, rfl⟩
    · rw [← same]
      simp [Composing.runes]
  · exact .inl (by simp [Composing.runes])

theorem recompose_ne_nil {rs : List Rune} (h : rs ≠ []) : recompose rs ≠ [] := by
  cases rs with
  | nil => exact absurd rfl h
  | cons r rest => exact append_ne_nil_of_right_ne_nil _ (cons_ne_nil _ _)

theorem parts_small {c : Char} (small : c.toNat < 0xC0) : Rune.parts (.char c) = [.char c] := by
  have whole : decompose c.toNat = [c.toNat] := by
    rw [decompose, decomposeWithin_succ, if_pos small]
  rw [Rune.parts, whole, map_singleton, Char.ofNat_toNat]

end Composition

section Bytes

variable {b : UInt8} {bs : Bytes}
variable {c : Char}

theorem le_of_scalar? {least code : Nat} (h : scalar? least code = some c) : least ≤ c.toNat := by
  unfold scalar? at h
  split at h
  next range =>
    rw [← Option.some.inj h, Char.ofNat, dif_pos range.2]
    exact range.1
  · cases h

/-- A character is an ASCII byte by itself, or it is not ASCII. -/
theorem leading?_cases {n : Nat} (h : leading? b bs = some (c, n)) :
    (b < 0x80 ∧ c = Char.ofNat b.toNat ∧ n = 0) ∨ (0x80 ≤ b ∧ 0x80 ≤ c.toNat) := by
  have wide : ∀ {least code n'}, 0x80 ≤ least →
      (scalar? least code).map (fun c : Char => (c, (n' : Nat))) = some (c, n) → 0x80 ≤ c.toNat := by
    intro least code n' low made
    obtain ⟨c', found, same⟩ := Option.map_eq_some_iff.1 made
    rw [← (Prod.mk.inj same).1]
    exact Nat.le_trans low (le_of_scalar? found)
  unfold leading? at h
  dsimp only at h
  split at h
  next small =>
    obtain ⟨rfl, rfl⟩ := Prod.mk.inj (Option.some.inj h)
    exact .inl ⟨small, rfl, rfl⟩
  next high =>
    refine .inr ⟨Nat.le_of_not_lt high, ?_⟩
    repeat' split at h
    all_goals first | exact wide (by decide) h | cases h

theorem bytes_char (c : Char) : Rune.bytes (.char c) = String.utf8EncodeChar c := by
  have whole := Bytes.ofString_eq (String.singleton c)
  rw [String.toList_singleton, flatMap_singleton] at whole
  exact whole

/-- No byte of a character that is not ASCII is ASCII. -/
theorem bytes_of_high (high : 0x80 ≤ c.toNat) : ∀ b ∈ Rune.bytes (.char c), 0x80 ≤ b := by
  have low : 0x80 ≤ c.val.toNat := high
  have byte : ∀ n, 0x80 ≤ n → n < 256 → 0x80 ≤ UInt8.ofNat n := by
    intro n low high
    rw [UInt8.le_iff_toNat_le, UInt8.toNat_ofNat_of_lt' high]
    exact low
  rw [bytes_char, String.utf8EncodeChar]
  split
  · omega
  split
  · exact forall_mem_cons.2 ⟨byte _ (by omega) (by omega),
      forall_mem_singleton.2 (byte _ (by omega) (by omega))⟩
  split
  · exact forall_mem_cons.2 ⟨byte _ (by omega) (by omega), forall_mem_cons.2
      ⟨byte _ (by omega) (by omega), forall_mem_singleton.2 (byte _ (by omega) (by omega))⟩⟩
  · exact forall_mem_cons.2 ⟨byte _ (by omega) (by omega), forall_mem_cons.2
      ⟨byte _ (by omega) (by omega), forall_mem_cons.2
        ⟨byte _ (by omega) (by omega), forall_mem_singleton.2 (byte _ (by omega) (by omega))⟩⟩⟩

theorem bytes_small (small : b < 0x80) : Rune.bytes (.char (Char.ofNat b.toNat)) = [b] := by
  rw [bytes_char, Bytes.encode_of_small small]

theorem exists_byte (small : c.toNat < 0x80) : ∃ b : UInt8, b < 0x80 ∧ c = Char.ofNat b.toNat := by
  have code : (UInt8.ofNat c.toNat).toNat = c.toNat :=
    UInt8.toNat_ofNat_of_lt' (show c.toNat < 256 by omega)
  refine ⟨UInt8.ofNat c.toNat, ?_, by rw [code, Char.ofNat_toNat]⟩
  rw [UInt8.lt_iff_toNat_lt, code]
  exact small

theorem bytes_ne_nil (r : Rune) : r.bytes ≠ [] := by
  cases r with
  | bad b => exact cons_ne_nil _ _
  | char c =>
    rw [bytes_char, String.utf8EncodeChar]
    repeat' split
    all_goals exact cons_ne_nil _ _

theorem runes_ne_nil (h : bs ≠ []) : runes bs ≠ [] := by
  obtain ⟨b, rest, rfl⟩ := exists_cons_of_ne_nil h
  rw [runes]
  split <;> exact cons_ne_nil _ _

theorem composeSegment_singleton (small : b < 0x80) :
    composeSegment [.char (Char.ofNat b.toNat)] = [.char (Char.ofNat b.toNat)] := by
  have code : (Char.ofNat b.toNat).toNat < 0x80 := by
    rw [toNat_ofNat_small small]
    exact small
  have order : reorder [.char (Char.ofNat b.toNat)] = [.char (Char.ofNat b.toNat)] :=
    perm_singleton.1 (reorder_perm _)
  rw [composeSegment, flatMap_singleton, parts_small (by omega), order]
  rfl

theorem composed_singleton (small : b < 0x80) : composed [b] = [b] := by
  rw [composed_cons small, runes]
  simp [segments, composeSegment_singleton small, bytes_small small]

/-- ASCII text is its own normal form. -/
theorem composed_of_isAscii (h : bs.isAscii) : composed bs = bs := by
  induction bs with
  | nil => exact composed_nil
  | cons b bs ih =>
    rw [Bytes.isAscii, all_cons, Bool.and_eq_true, decide_eq_true_eq] at h
    have start : Starts bs := by
      intro c head
      exact of_decide_eq_true (all_eq_true.1 h.2 c (mem_of_head? head))
    rw [← singleton_append, composed_append start, composed_singleton h.1, ih h.2]

theorem compose_eq (bs : Bytes) : compose bs = composed bs := by
  unfold compose
  split
  next ascii => exact (composed_of_isAscii ascii).symm
  · rfl

end Bytes

end Peano.Text
