import Peano.Proofs.Diagnostic.KeywordEdits
namespace Peano.Token
open List
open Source (Extent Span)
open Diagnostic (flatMap_text_lexemes text_ne_nil)

/-- A token and the trivia before it, piece by piece: where each is in its file, and its text. -/
def stretches (file : UInt32) (t : Token) : List (Span × Bytes) :=
  t.leading.map (fun l => (l.extent.inFile file, l.text)) ++ [(t.extent.inFile file, t.text)]

def fullText (t : Token) : Bytes := t.leading.flatMap Trivia.text ++ t.text

/-- Each piece starts where the one before it stops, holds at least one byte, and has the text that is
there. -/
inductive Tiles (content : Bytes) : Nat → List (Span × Bytes) → Nat → Prop
  | nil (offset : Nat) : Tiles content offset [] offset
  | cons {span : Span} {text : Bytes} {rest : List (Span × Bytes)} {offset stop : Nat}
    (start : span.start.toNat = offset) (proper : span.start < span.stop)
    (under : text = (content.take span.stop.toNat).drop offset)
    (more : Tiles content span.stop.toNat rest stop) : Tiles content offset ((span, text) :: rest) stop

section Kinds

variable {b : UInt8} {bs : Bytes}

theorem cut_ne_eof : (cut b bs).1 ≠ .token .eof := by
  have way := cut_cases b bs
  generalize cut b bs = piece at way ⊢
  cases way with
  | space | newline | digits | comment => exact nofun
  | word =>
    unfold cutWord
    dsimp only
    split
    · exact nofun
    · unfold Kind.ofWord
      split <;> exact nofun
  | sign =>
    unfold cutSign
    split <;> first | decide | (split <;> simp)

theorem lexemes_ne_eof (bs : Bytes) : ∀ l ∈ lexemes bs, l.cls ≠ .token .eof := by
  induction bs using lexemes.induct with
  | case1 => simp [lexemes]
  | case2 b rest piece ih =>
    rw [lexemes_cons]
    exact forall_mem_cons.2 ⟨cut_ne_eof, ih⟩

end Kinds

section Placed

def placed (file : UInt32) (offset : Nat) : List Lexeme → List (Span × Bytes)
  | [] => []
  | l :: rest =>
    let stop := offset + l.text.length
    (Extent.inFile file ⟨offset, stop⟩, l.text) :: placed file stop rest

theorem flatMap_stretches (file : UInt32) (offset : Nat) (held : List Trivia) (ls : List Lexeme) :
    (ofLexemes offset held ls).flatMap (stretches file) =
      held.map (fun l => (l.extent.inFile file, l.text)) ++ placed file offset ls ++
        [(let stop := offset + (ls.flatMap Lexeme.text).length; (Extent.inFile file ⟨stop, stop⟩, []))] := by
  induction ls generalizing offset held with
  | nil => simp [ofLexemes, stretches, placed]
  | cons l ls ih =>
    obtain ⟨cls, text⟩ := l
    rw [flatMap_cons, length_append, ← Nat.add_assoc]
    cases cls with
    | spacing s => simp [ofLexemes, ih, placed]
    | token k => simp [ofLexemes, ih, placed, stretches]

theorem flatMap_fullText (offset : Nat) (held : List Trivia) (ls : List Lexeme) :
    (ofLexemes offset held ls).flatMap fullText = held.flatMap Trivia.text ++ ls.flatMap Lexeme.text := by
  induction ls generalizing offset held with
  | nil => simp [ofLexemes, fullText]
  | cons l ls ih =>
    obtain ⟨cls, text⟩ := l
    cases cls <;> simp [ofLexemes, ih, fullText]

theorem tiles_placed (file : UInt32) (pre : Bytes) {ls : List Lexeme} (some : ∀ l ∈ ls, l.text ≠ [])
    (small : (pre ++ ls.flatMap Lexeme.text).length < 2 ^ 32) :
    Tiles (pre ++ ls.flatMap Lexeme.text) pre.length (placed file pre.length ls)
      (pre ++ ls.flatMap Lexeme.text).length := by
  induction ls generalizing pre with
  | nil =>
    rw [flatMap_nil, append_nil]
    exact .nil _
  | cons l ls ih =>
    obtain ⟨here, later⟩ := forall_mem_cons.1 some
    have long := length_pos_iff.2 here
    rw [flatMap_cons, ← append_assoc] at small ⊢
    have rest := ih (pre ++ l.text) later small
    rw [length_append, length_append] at small
    have start : (Extent.inFile file ⟨pre.length, (pre ++ l.text).length⟩).start.toNat = pre.length :=
      UInt32.toNat_ofNat_of_lt' (show pre.length < 2 ^ 32 by omega)
    have stop : (Extent.inFile file ⟨pre.length, (pre ++ l.text).length⟩).stop.toNat = (pre ++ l.text).length :=
      UInt32.toNat_ofNat_of_lt' (show (pre ++ l.text).length < 2 ^ 32 by rw [length_append]; omega)
    rw [placed, ← length_append]
    refine .cons start ?_ ?_ ?_
    · rw [UInt32.lt_iff_toNat_lt, start, stop, length_append]
      omega
    · rw [stop, take_left, drop_left]
    · rw [stop]
      exact rest

end Placed

/-- Every text with room for its places is cut into tokens, the last of which and no other marks the end.
With the trivia before them they tile the text from its start to the mark; their texts make it up. What is
cut off never goes beyond the end of the text. -/
theorem tokenize_tiles (file : UInt32) {content : Bytes} (small : content.length < 2 ^ 32 - 3) :
    ∃ tokens last tiles, tokenize content = tokens ++ [last] ∧ last.kind = .eof ∧
      (∀ t ∈ tokens, t.kind ≠ .eof) ∧ (tokenize content).flatMap (stretches file) =
        tiles ++ [(⟨file, content.length.toUInt32, content.length.toUInt32⟩, [])] ∧
      Tiles content 0 tiles content.length ∧ (tokenize content).flatMap fullText = content ∧
      ∀ b rest, b :: rest <:+ content → (cut b rest).2 ≤ rest.length := by
  obtain ⟨tokens, last, split, ends, pieces⟩ := ofLexemes_eq 0 [] (lexemes content)
  refine ⟨tokens, last, placed file 0 (lexemes content), split, ends, fun t ht eof => ?_, ?_, ?_, ?_,
    fun b rest _ => cut_le b rest⟩
  · obtain ⟨l, hl, cls, -⟩ := exists_lexeme_of_piece pieces ht
    rw [eof] at cls
    exact lexemes_ne_eof content l hl cls
  · have whole := flatMap_stretches file 0 [] (lexemes content)
    rw [flatMap_text_lexemes, Nat.zero_add] at whole
    exact whole
  · have tiled := tiles_placed file [] (text_ne_nil content)
      (by rw [List.nil_append, flatMap_text_lexemes]; omega)
    rw [List.nil_append, flatMap_text_lexemes] at tiled
    exact tiled
  · exact (flatMap_fullText 0 [] (lexemes content)).trans (flatMap_text_lexemes content)

/-- The text `x=/* é` with a zero byte and half a character at its end. -/
def unfinished : Bytes := [120, 61, 47, 42, 32, 195, 169, 0, 195]

/-- Its comment has no end, so that it goes on to the end of the text. -/
theorem unfinished_tiled : unfinished.length < 2 ^ 32 - 3 ∧ ∃ tokens last tiles,
    tokenize unfinished = tokens ++ [last] ∧ last.kind = .eof ∧ (∀ t ∈ tokens, t.kind ≠ .eof) ∧
      (tokenize unfinished).flatMap (stretches 1) = tiles ++ [(⟨1, 9, 9⟩, [])] ∧
      Tiles unfinished 0 tiles 9 ∧ (tokenize unfinished).flatMap fullText = unfinished :=
  have ⟨tokens, last, tiles, split, ends, only, places, tiled, whole, _⟩ := tokenize_tiles 1 (by decide)
  ⟨by decide, tokens, last, tiles, split, ends, only, places, tiled, whole⟩

end Peano.Token
