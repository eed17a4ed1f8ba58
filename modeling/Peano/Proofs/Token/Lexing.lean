import Peano.Proofs.Token.Stroke
namespace Peano.Token
open List

section Lexemes

/-- Names look like words, and numerals have digits only. -/
structure Lexeme.Formed (l : Lexeme) : Prop where
  word : l.cls = .token .ident →
    isWordText l.text = true ∧ Kind.ofWord (Bytes.toText l.text) = .ident
  digits : l.cls = .token .num → isDigitText l.text = true

theorem take_countWhile (p : UInt8 → Bool) (bs : Bytes) : bs.take (countWhile p bs) = bs.takeWhile p :=
  (prefix_iff_eq_take.1 <| takeWhile_prefix p).symm

variable {b : UInt8} {bs : Bytes}

theorem formed_cutWord (start : isWordStart b) :
    Lexeme.Formed ⟨(cutWord b bs).1, b :: bs.take (cutWord b bs).2⟩ := by
  unfold cutWord
  dsimp only
  split
  -- `console` with its tail is a logging token.
  · constructor <;> rintro ⟨⟩
  · refine ⟨fun ident => ⟨?_, by simpa using ident⟩, fun num => ?_⟩
    · rw [isWordText, isTextOf, start, take_countWhile]
      exact all_takeWhile
    · revert num
      unfold Kind.ofWord
      split <;> rintro ⟨⟩

theorem formed_cutSign {text : Bytes} : Lexeme.Formed ⟨(cutSign b bs).1, text⟩ := by
  have other : (cutSign b bs).1 ≠ .token .ident ∧ (cutSign b bs).1 ≠ .token .num := by
    unfold cutSign
    split <;> first | decide | (split <;> simp)
  exact ⟨fun ident => (other.1 ident).elim, fun num => (other.2 num).elim⟩

/-- How a lexeme is cut off, in the order the ways are tried. -/
inductive Cut (b : UInt8) (bs : Bytes) : Lexeme.Class × Nat → Prop
  | space (blank : isBlank b = true) : Cut b bs (.spacing .space, countWhile isBlank bs)
  | newline (line : b = 10) : Cut b bs (.spacing .newline, countWhile (· == 10) bs)
  | word (start : isWordStart b = true) : Cut b bs (cutWord b bs)
  | digits (digit : isDigit b = true) : Cut b bs (.token .num, countWhile isDigit bs)
  | comment {s : Spacing} {n : Nat} (slash : b = 47) (found : cutComment? bs = some (.spacing s, n)) :
      Cut b bs (.spacing s, n)
  | sign : Cut b bs (cutSign b bs)

theorem spacing_of_cutComment? {piece : Lexeme.Class × Nat} (h : cutComment? bs = some piece) :
    ∃ s n, piece = (.spacing s, n) := by
  unfold cutComment? at h
  split at h
  · cases h
    exact ⟨_, _, rfl⟩
  · split at h <;> (cases h; exact ⟨_, _, rfl⟩)
  · cases h

theorem cut_cases (b : UInt8) (bs : Bytes) : Cut b bs (cut b bs) := by
  unfold cut
  split
  next blank => exact .space blank
  split
  next line => exact .newline (beq_iff_eq.1 line)
  split
  next start => exact .word start
  split
  next digit => exact .digits digit
  split
  next comment found =>
    split at found
    next slash =>
      obtain ⟨s, n, rfl⟩ := spacing_of_cutComment? found
      exact .comment (beq_iff_eq.1 slash) found
    · cases found
  · exact .sign

theorem formed_cut : Lexeme.Formed ⟨(cut b bs).1, b :: bs.take (cut b bs).2⟩ := by
  have way := cut_cases b bs
  generalize cut b bs = piece at way ⊢
  cases way with
  | space | newline | comment => exact ⟨nofun, nofun⟩
  | word start => exact formed_cutWord start
  | digits digit =>
    refine ⟨nofun, fun _ => ?_⟩
    rw [isDigitText, isTextOf, digit, take_countWhile]
    exact all_takeWhile
  | sign => exact formed_cutSign

theorem lexemes_formed (bs : Bytes) : ∀ l ∈ lexemes bs, l.Formed := by
  induction bs using lexemes.induct with
  | case1 => simp [lexemes]
  | case2 b rest piece ih =>
    rw [lexemes_cons]
    exact forall_mem_cons.2 ⟨formed_cut, ih⟩

theorem lexemes_suffix {ls ls' : List Lexeme} (split : lexemes bs = ls ++ ls') :
    ∃ rest, ls' = lexemes rest ∧ bs = ls.flatMap Lexeme.text ++ rest := by
  induction bs using lexemes.induct generalizing ls with
  | case1 =>
    rw [lexemes, eq_comm, append_eq_nil_iff] at split
    obtain ⟨rfl, rfl⟩ := split
    exact ⟨[], by rw [lexemes], rfl⟩
  | case2 b rest piece =>
    rename_i ih
    cases ls with
    | nil => exact ⟨b :: rest, split.symm, rfl⟩
    | cons l ls =>
      rw [lexemes_cons] at split
      obtain ⟨rfl, tail⟩ := List.cons.inj split
      obtain ⟨rest', rfl, whole⟩ := ih tail
      refine ⟨rest', rfl, ?_⟩
      rw [flatMap_cons, append_assoc, ← whole]
      exact (congrArg (b :: ·) (take_append_drop _ rest)).symm

theorem small_of_isDigit (h : isDigit b) : b < 0x80 := by
  unfold isDigit at h
  grind

theorem small_of_isWordByte (h : isWordByte b) : b < 0x80 := by
  unfold isWordByte isWordStart isDigit at h
  grind

theorem isAscii_of_isWordText (h : isWordText bs) : bs.isAscii := by
  obtain ⟨b, w, rfl, start, all⟩ := isTextOf_eq h
  have first : isWordByte b := by simp [isWordByte, start]
  have small : ∀ c ∈ b :: w, c < 0x80 := forall_mem_cons.2
    ⟨small_of_isWordByte first, fun c hc => small_of_isWordByte (all_eq_true.1 all c hc)⟩
  simpa [Bytes.isAscii] using small

theorem isAscii_of_isDigitText (h : isDigitText bs) : bs.isAscii := by
  obtain ⟨b, w, rfl, first, all⟩ := isTextOf_eq h
  have small : ∀ c ∈ b :: w, c < 0x80 := forall_mem_cons.2
    ⟨small_of_isDigit first, fun c hc => small_of_isDigit (all_eq_true.1 all c hc)⟩
  simpa [Bytes.isAscii] using small

theorem Lexeme.Formed.isName {l : Lexeme} (formed : l.Formed) (ident : l.cls = .token .ident)
    (clean : l.fault? = none) : IsName (Bytes.toText l.text) := by
  obtain ⟨word, kind⟩ := formed.word ident
  -- The bytes come back from the name, as none is above those of single-byte characters.
  have bytes := Bytes.ofString_toText (isAscii_of_isWordText word)
  refine ⟨⟨by rwa [bytes], by rw [bytes]⟩, kind, ?_⟩
  simpa [Lexeme.fault?, ident] using clean

theorem Lexeme.Formed.isNumeral {l : Lexeme} (formed : l.Formed) (num : l.cls = .token .num) :
    IsNumeral (Bytes.toText l.text) := by
  have digits := formed.digits num
  have bytes := Bytes.ofString_toText (isAscii_of_isDigitText digits)
  exact ⟨by rwa [bytes], by rw [bytes]⟩

end Lexemes

section Tokens

variable {ls : List Lexeme}

theorem faultsFrom_eq_nil_iff {offset : Nat} : faultsFrom offset ls = [] ↔ ∀ l ∈ ls, l.fault? = none := by
  induction ls generalizing offset with
  | nil => simp [faultsFrom]
  | cons l ls ih =>
    rw [faultsFrom, forall_mem_cons]
    cases l.fault? <;> simp [ih]

theorem faults_eq_nil_iff {content : Bytes} : faults content = [] ↔ ∀ l ∈ lexemes content, l.fault? = none :=
  faultsFrom_eq_nil_iff

/-- What a lexeme that is no spacing leaves in a token. -/
def Lexeme.piece? (l : Lexeme) : Option (Kind × Bytes) :=
  match l.cls with
  | .token k => some (k, l.text)
  | .spacing _ => none

def piece (t : Token) : Kind × Bytes := (t.kind, t.text)

/-- The tokens of a text are its lexemes without the spacing, and a mark of the end. -/
theorem ofLexemes_eq (offset : Nat) (held : List Trivia) (ls : List Lexeme) :
    ∃ ts stop, ofLexemes offset held ls = ts ++ [stop] ∧ stop.kind = .eof ∧
      ts.map piece = ls.filterMap Lexeme.piece? := by
  induction ls generalizing offset held with
  | nil => exact ⟨[], _, rfl, rfl, rfl⟩
  | cons l ls ih =>
    obtain ⟨cls, text⟩ := l
    cases cls with
    | spacing s =>
      obtain ⟨ts, stop, split, last, same⟩ := ih (offset + text.length)
        (held ++ [⟨s, ⟨offset, offset + text.length⟩, text⟩])
      exact ⟨ts, stop, split, last, same⟩
    | token k =>
      obtain ⟨ts, stop, split, last, same⟩ := ih (offset + text.length) []
      refine ⟨⟨k, ⟨offset, offset + text.length⟩, text, held⟩ :: ts, stop, ?_, last, ?_⟩
      · rw [ofLexemes, split]
        rfl
      · rw [map_cons, same]
        rfl

structure Sound (t : Token) : Prop where
  name : t.kind = .ident → IsName t.name
  numeral : t.kind = .num → IsNumeral t.name

def dotsAmong (tokens : List Token) : Nat := tokens.countP fun t => t.kind = .dot

theorem dotsAmong_append (s t : List Token) : dotsAmong (s ++ t) = dotsAmong s + dotsAmong t :=
  countP_append

variable {content : Bytes} {tokens : List Token}

theorem exists_lexeme_of_piece (h : tokens.map piece = ls.filterMap Lexeme.piece?) {t : Token}
    (ht : t ∈ tokens) : ∃ l ∈ ls, l.cls = .token t.kind ∧ l.text = t.text := by
  have mem : piece t ∈ ls.filterMap Lexeme.piece? := h ▸ mem_map_of_mem ht
  obtain ⟨⟨cls, text⟩, hl, same⟩ := mem_filterMap.1 mem
  cases cls with
  | spacing s => cases same
  | token k =>
    cases same
    exact ⟨_, hl, rfl, rfl⟩

theorem sound_of_faults (clean : faults content = [])
    (h : tokens.map piece = (lexemes content).filterMap Lexeme.piece?) : ∀ t ∈ tokens, t.Sound := by
  intro t ht
  obtain ⟨l, hl, cls, text⟩ := exists_lexeme_of_piece h ht
  have formed := lexemes_formed content l hl
  have fault := faults_eq_nil_iff.1 clean l hl
  refine ⟨fun ident => ?_, fun num => ?_⟩
  · rw [name, ← text]
    exact formed.isName (ident ▸ cls) fault
  · rw [name, ← text]
    exact formed.isNumeral (num ▸ cls)

theorem dotsAmong_eq (h : tokens.map piece = ls.filterMap Lexeme.piece?) : dotsAmong tokens = dots ls := by
  calc dotsAmong tokens
      = (tokens.map piece).countP (·.1 = .dot) := by
        rw [countP_map]
        rfl
    _ = dots ls := by
        rw [h, countP_filterMap]
        refine countP_congr fun l _ => ?_
        obtain ⟨cls, text⟩ := l
        cases cls <;> simp [Lexeme.piece?]

end Tokens

section Spelling

abbrev Spell := Kind × String

def spell (t : Token) : Spell := (t.kind, t.name)

abbrev Kind.spell (k : Kind) : Spell := (k, k.name)

def Stroke.spells : Stroke → List Spell
  | space | newline => []
  | mark k => [k.spell]
  | name n => [(.ident, n)]
  | digits d => [(.num, d)]
  | field n => [Kind.dot.spell, (.ident, n)]

def Lexeme.spell? (l : Lexeme) : Option Spell := l.piece?.map fun p => (p.1, Bytes.toText p.2)

theorem map_spell_eq {tokens : List Token} {ls : List Lexeme}
    (h : tokens.map piece = ls.filterMap Lexeme.piece?) : tokens.map spell = ls.filterMap Lexeme.spell? := by
  calc tokens.map spell
      = (tokens.map piece).map fun p => (p.1, Bytes.toText p.2) := by
        rw [map_map]
        rfl
    _ = ls.filterMap Lexeme.spell? := by
        rw [h, map_filterMap]
        rfl

theorem toText_mark {k : Kind} : Bytes.toText (Bytes.ofString k.name) = k.name := by
  cases k <;> with_unfolding_all decide

theorem Stroke.spells_lexemes {s : Stroke} (legal : s.Legal) :
    s.lexemes.filterMap Lexeme.spell? = s.spells := by
  have dot : Bytes.toText [46] = Kind.dot.name := by with_unfolding_all decide
  cases s with
  | space | newline => rfl
  | mark k => simp [lexemes, Lexeme.spell?, Lexeme.piece?, spells, toText_mark]
  | name n => simp [lexemes, Lexeme.spell?, Lexeme.piece?, spells, (IsName.toIsWord legal).text_eq]
  | digits d => simp [lexemes, Lexeme.spell?, Lexeme.piece?, spells, IsNumeral.text_eq legal]
  | field n => simp [lexemes, Lexeme.spell?, Lexeme.piece?, spells, (IsName.toIsWord legal).text_eq, dot]

theorem Stroke.fault?_lexemes {s : Stroke} (legal : s.Legal) : ∀ l ∈ s.lexemes, l.fault? = none := by
  have named : ∀ n, IsName n → Lexeme.fault? ⟨.token .ident, Bytes.ofString n⟩ = none := fun n name => by
    simpa [Lexeme.fault?, name.text_eq] using name.allowed
  cases s with
  | space | newline | digits d => simp [lexemes, Lexeme.fault?]
  | mark k =>
    obtain ⟨-, kind⟩ := legal
    revert kind
    cases k <;> simp [lexemes, Lexeme.fault?, Kind.isKeyword, Kind.isPunctuation]
  | name n => simpa [lexemes] using named n legal
  | field n => simpa [lexemes, Lexeme.fault?] using named n legal

end Spelling

end Peano.Token
