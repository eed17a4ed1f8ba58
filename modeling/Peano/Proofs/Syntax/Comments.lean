import Peano.Proofs.Diagnostic.KeywordEdits
namespace Peano.Token
open List

section Solid

variable {b : UInt8} {bs bs' w : Bytes} {c : Lexeme.Class}

/-- Whether a lexeme is a token or has a fault. -/
def Lexeme.counts (l : Lexeme) : Bool := l.piece?.isSome || l.fault?.isSome

def solid (bs : Bytes) : List Lexeme := (lexemes bs).filter Lexeme.counts

theorem filterMap_solid (bs : Bytes) :
    (solid bs).filterMap Lexeme.piece? = (lexemes bs).filterMap Lexeme.piece? := by
  rw [solid, filterMap_filter]
  refine filterMap_congr fun l _ => ?_
  cases piece : l.piece? <;> simp [Lexeme.counts, piece]

def kinds (bs : Bytes) : List Kind := ((solid bs).filterMap Lexeme.piece?).map Prod.fst

theorem faults_eq_nil_iff_solid : faults bs = [] ↔ ∀ l ∈ solid bs, l.fault? = none := by
  rw [faults_eq_nil_iff]
  refine ⟨fun clean l hl => clean l (mem_of_mem_filter hl), fun clean l hl => ?_⟩
  by_contra fault
  have counts : l.counts := by simp [Lexeme.counts, Option.isSome_iff_ne_none, fault]
  exact fault (clean l (mem_filter.2 ⟨hl, counts⟩))

theorem solid_of_cut (h : cut b (w ++ bs) = (c, w.length)) :
    solid (b :: w ++ bs) = [⟨c, b :: w⟩].filter Lexeme.counts ++ solid bs := by
  rw [solid, lexemes_of_cut h, ← singleton_append, filter_append, solid]

/-- Spacing of one kind is skipped byte by byte. -/
theorem solid_run {p : UInt8 → Bool} {s : Spacing} (quiet : ∀ text, Lexeme.counts ⟨.spacing s, text⟩ = false)
    (run : ∀ b bs, p b → cut b bs = (.spacing s, countWhile p bs)) (hb : p b) :
    solid (b :: bs) = solid bs := by
  have skip : ∀ {b : UInt8} (bs : Bytes), p b → solid (b :: bs) = solid (bs.drop (countWhile p bs)) := by
    intro b bs hb
    rw [solid, lexemes_cons, run b bs hb, filter_cons_of_neg (by simp [quiet]), solid]
  rw [skip bs hb]
  cases bs with
  | nil => rfl
  | cons c bs =>
    rw [countWhile_cons]
    by_cases hc : p c
    · rw [if_pos hc, drop_succ_cons, skip bs hc]
    · rw [if_neg hc, drop_zero]

theorem solid_space (space : isSpaceOrNewline b) : solid (b :: bs) = solid bs := by
  rcases Bool.or_eq_true_iff.1 space with blank | line
  · exact solid_run (s := .space) (fun _ => rfl) (fun b bs blank => by rw [cut, if_pos blank]) blank
  · refine solid_run (s := .newline) (p := (· == 10)) (fun _ => rfl) (fun b bs line => ?_) line
    cases beq_iff_eq.1 line
    rfl

theorem solid_spaces (spaces : ∀ b ∈ w, isSpaceOrNewline b) : solid (w ++ bs) = solid bs := by
  induction w with
  | nil => rfl
  | cons b w ih =>
    rw [forall_mem_cons] at spaces
    rw [cons_append, solid_space spaces.1, ih spaces.2]

/-- A lexeme that starts with spacing is made of it. -/
theorem spaces_of_cut (whole : cut b (w ++ bs) = (c, w.length)) (space : isSpaceOrNewline b) :
    ∀ a ∈ b :: w, isSpaceOrNewline a := by
  have run : ∀ p : UInt8 → Bool, (∀ a, p a → isSpaceOrNewline a) →
      countWhile p (w ++ bs) = w.length → ∀ a ∈ w, isSpaceOrNewline a := by
    intro p imp length a ha
    have all : (w ++ bs).takeWhile p = w := by rw [← take_countWhile, length, take_left]
    rw [← all] at ha
    exact imp a (all_eq_true.1 all_takeWhile a ha)
  refine forall_mem_cons.2 ⟨space, ?_⟩
  rcases Bool.or_eq_true_iff.1 space with blank | line
  · rw [cut, if_pos blank] at whole
    exact run isBlank (fun a ha => by simp [isSpaceOrNewline, ha]) (congrArg Prod.snd whole)
  · cases beq_iff_eq.1 line
    exact run (· == 10) (fun a ha => by simp [isSpaceOrNewline, ha]) (congrArg Prod.snd whole)

theorem prefix_append_cons {x a : Bytes} (outside : b ∉ x) : x <+: a ++ b :: bs ↔ x <+: a := by
  refine ⟨fun h => ?_, fun h => h.trans (prefix_append _ _)⟩
  have other : a ++ [b] <+: a ++ b :: bs := ⟨bs, by simp⟩
  rcases prefix_or_prefix_of_prefix h other with short | long
  · rcases prefix_concat_iff.1 short with rfl | short
    · simp at outside
    · exact short
  · exact absurd (long.subset (by simp)) outside

/-- No lexeme but spacing sees whether a comment, a blank or a line feed comes behind it. -/
theorem unseen_gap (a : Bytes) (space : b = 32 ∨ b = 10) : Unseen (a ++ 47 :: bs) (a ++ b :: bs') := by
  have head : ∀ {p : UInt8 → Bool}, (p 47 = false → p b = false) →
      Ends p (a ++ 47 :: bs) → Ends p (a ++ b :: bs') := by
    intro p imp stop
    cases a with
    | nil => exact ends_cons.2 (imp (ends_cons.1 stop))
    | cons c a => exact stop
  have plain : isWordByte b = false ∧ isDigit b = false ∧ isSignTail b = false := by
    rcases space with rfl | rfl <;> decide
  refine ⟨head fun _ => plain.1, head fun _ => plain.2.1, head nofun, fun w x signs => ?_⟩
  have outside : ∀ c, isSignTail c = false → c ∉ x := by
    intro c no hc
    rw [all_eq_true.1 signs c hc] at no
    cases no
  rw [← append_assoc, ← append_assoc, prefix_append_cons (outside b plain.2.2),
    prefix_append_cons (outside 47 rfl)]

end Solid

section Gaps

/-- What may stand in the place of a comment: a blank, or a line feed for one that ends a line. -/
inductive Gap : Lexeme.Class → UInt8 → Prop
  | line : Gap (.spacing .lineComment) 32
  | newline : Gap (.spacing .lineComment) 10
  | block : Gap (.spacing (.blockComment true)) 32

def Lexeme.isConsole (l : Lexeme) : Bool := l.cls = .token .ident && Bytes.toText l.text == "console"

/-- Whether some `console` has `.log` behind it as soon as `rest` comes next. -/
def keepsApart (rest : Bytes) : List Lexeme → Bool
  | [] => false
  | l :: late => (l.isConsole && (logTail? (late.flatMap Lexeme.text ++ rest)).isSome) || keepsApart rest late

variable {b gap : UInt8} {bs content : Bytes} {l comment : Lexeme} {ls before after : List Lexeme}

theorem Gap.space {c : Lexeme.Class} (h : Gap c gap) : gap = 32 ∨ gap = 10 := by
  cases h <;> decide

theorem Gap.not_counts (h : Gap comment.cls gap) : comment.counts = false := by
  obtain ⟨c, text⟩ := comment
  cases h <;> rfl

theorem Gap.slash (h : Gap (cut b bs).1 gap) : b = 47 := by
  have way := cut_cases b bs
  generalize cut b bs = piece at way h
  cases way with
  | space | newline | digits => cases h
  | word =>
    unfold cutWord at h
    dsimp only at h
    split at h <;> cases h
  | comment slash => exact slash
  | sign => rcases cutSign_cases b bs with sign | ⟨⟨k, sign, -⟩, -⟩ <;> (rw [sign] at h; cases h)

theorem cut_of_lexemes (h : lexemes content = l :: ls) : ∃ b w rest,
    content = b :: w ++ rest ∧ l.text = b :: w ∧ cut b (w ++ rest) = (l.cls, w.length) ∧ ls = lexemes rest := by
  cases content with
  | nil =>
    rw [lexemes] at h
    cases h
  | cons b bs =>
    rw [lexemes_cons] at h
    obtain ⟨rfl, rfl⟩ := List.cons.inj h
    refine ⟨b, _, _, ?_, rfl, ?_, rfl⟩
    · rw [cons_append, take_append_drop]
    · rw [take_append_drop, length_take_of_le (cut_le b bs)]

theorem Gap.text (gaps : Gap comment.cls gap) (split : lexemes content = before ++ comment :: after) :
    ∃ u, comment.text = 47 :: u := by
  obtain ⟨rest, tail, -⟩ := lexemes_suffix split
  cases rest with
  | nil =>
    rw [lexemes] at tail
    cases tail
  | cons b bs =>
    rw [lexemes_cons] at tail
    obtain ⟨rfl, -⟩ := List.cons.inj tail
    exact ⟨_, by rw [gaps.slash]⟩

theorem Lexeme.isConsole_iff : l.isConsole ↔ l.cls = .token .ident ∧ Bytes.toText l.text = "console" := by
  simp [isConsole]

/-- A `console` that `.log` comes behind is another token. -/
theorem kinds_of_log {w : Bytes} (word : isWordText (b :: w)) (console : Bytes.toText (b :: w) = "console")
    (tail : (logTail? bs).isSome) : (kinds (b :: w ++ bs)).head? = some .log := by
  obtain ⟨n, tail⟩ := Option.isSome_iff_exists.1 tail
  rw [isWordText, isTextOf, Bool.and_eq_true] at word
  have stop : Ends isWordByte bs := by
    intro c hc
    by_contra letter
    have plain := isPlain_of_isWordByte (eq_true_of_ne_false letter)
    rw [logTail?_of_head fun a ha => by rwa [Option.mem_unique ha hc]] at tail
    cases tail
  rw [kinds, solid, cons_append, lexemes_cons, cut_console word.1 word.2 stop console tail]
  rfl

/-- The tokens stay the same, or a `console` becomes a logging token. -/
theorem solid_uncommented (clean : ∀ l ∈ lexemes content, l.fault? = none)
    (split : lexemes content = before ++ comment :: after) (gaps : Gap comment.cls gap) :
    let rest := gap :: after.flatMap Lexeme.text
    let text := before.flatMap Lexeme.text ++ rest
    (keepsApart rest before = false → solid text = solid content) ∧
      (keepsApart rest before → kinds text ≠ kinds content) := by
  dsimp only
  induction before generalizing content with
  | nil =>
    obtain ⟨rest, rfl, -⟩ := @lexemes_suffix content [comment] after split
    refine ⟨fun _ => ?_, nofun⟩
    have space : isSpaceOrNewline gap := by rcases gaps.space with rfl | rfl <;> rfl
    rw [Diagnostic.flatMap_text_lexemes, flatMap_nil, nil_append, solid_space space]
    rw [solid, solid, split, nil_append, filter_cons_of_neg (by simp [gaps.not_counts])]
  | cons l ls ih =>
    have formed := lexemes_formed content l (split ▸ mem_cons_self)
    rw [cons_append] at split
    rw [split] at clean
    obtain ⟨first, others⟩ := forall_mem_cons.1 clean
    obtain ⟨b, w, bs, rfl, text, whole, tail⟩ := cut_of_lexemes split
    obtain ⟨same, differ⟩ := ih (tail ▸ others) tail.symm
    obtain ⟨u, slash⟩ := gaps.text tail.symm
    have behind := Diagnostic.flatMap_text_lexemes bs
    rw [← tail, flatMap_append, flatMap_cons, slash] at behind
    rw [keepsApart, flatMap_cons, text, append_assoc]
    set rest := ls.flatMap Lexeme.text ++ gap :: after.flatMap Lexeme.text
    have unseen : Unseen bs rest := behind ▸ unseen_gap _ gaps.space
    cases joined : l.isConsole && (logTail? rest).isSome with
    | true =>
      refine ⟨nofun, fun _ alike => ?_⟩
      obtain ⟨console, log⟩ := Bool.and_eq_true_iff.1 joined
      obtain ⟨ident, console⟩ := Lexeme.isConsole_iff.1 console
      rw [text] at console
      have word : isWordText (b :: w) := text ▸ (formed.word ident).1
      have heads := congrArg List.head? alike
      rw [kinds_of_log word console log, kinds, solid_of_cut whole, ident] at heads
      cases heads
    | false =>
      by_cases space : isSpaceOrNewline b
      · have spaces := spaces_of_cut whole space
        rw [kinds, kinds, solid_spaces spaces, solid_spaces spaces]
        exact ⟨same, differ⟩
      · have apart : l.cls = .token .ident → Bytes.toText (b :: w) = "console" →
            logTail? bs = none → logTail? rest = none := by
          intro ident console _
          rw [Lexeme.isConsole_iff.2 ⟨ident, text ▸ console⟩] at joined
          simpa using joined
        have again := unseen.cut_eq (text ▸ first) (by simpa using space) apart whole
        rw [kinds, kinds, solid_of_cut again, solid_of_cut whole]
        exact ⟨fun h => by rw [same h], fun h alike => differ h (by simpa [kinds] using alike)⟩

end Gaps

end Peano.Token

namespace Peano.Syntax
open Token (Lexeme Gap lexemes keepsApart piece tokenize faults kind)

theorem turnedTo_none {t t' : Token} (same : piece t = piece t') : TurnedTo .none t t' := by
  obtain ⟨kind, text⟩ := Prod.mk.inj same
  unfold TurnedTo
  split
  next exit => exact kind.symm.trans (kind_jumpOf exit).symm
  next => exact ⟨kind.symm, congrArg Bytes.toText text.symm⟩

/-- What is read depends on the kinds and texts of the tokens, up to places. -/
theorem read_of_pieces {start : Start} {content content' : Bytes} {p : Phrase}
    (same : (words (tokenize content)).map piece = (words (tokenize content')).map piece)
    (clean : faults content' = []) (h : read start content = .ok p) :
    ∃ p', read start content' = .ok p' ∧ p'.bare = p.bare := by
  obtain ⟨v, rfl, -, builds⟩ := read_eq_ok_iff.1 h
  rw [← List.forall₂_eq_eq_eq, List.forall₂_map_left_iff, List.forall₂_map_right_iff] at same
  obtain ⟨v', builds', alike⟩ := builds.turned (same.imp fun _ _ => turnedTo_none)
  refine ⟨_, read_eq_ok_iff.2 ⟨v', rfl, clean, builds'⟩, ?_⟩
  have turned := alike.turned
  cases start with
  | program => exact congrArg Phrase.program (turned.trans (congrArg Block.bare (Block.corrected_none v)))
  | term => exact congrArg Phrase.term (turned.trans (congrArg Expr.bare (Expr.corrected_none v)))
  | type => exact congrArg Phrase.type turned

/-- Spacing in the place of a comment gives the same tokens and no faults, and the same is read up to
places; but if the comment keeps `console` and `.log` apart, it gives other tokens. -/
theorem uncommented_reads {content : Bytes} {before after : List Lexeme} {comment : Lexeme} {gap : UInt8}
    (clean : Token.faults content = []) (split : lexemes content = before ++ comment :: after)
    (gaps : Gap comment.cls gap) :
    let rest := gap :: after.flatMap Lexeme.text
    let text := before.flatMap Lexeme.text ++ rest
    (keepsApart rest before = false →
      (words (tokenize text)).map piece = (words (tokenize content)).map piece ∧
      faults text = [] ∧ ∀ start q, (∃ p, read start text = .ok p ∧ p.bare = q) ↔
        ∃ p, read start content = .ok p ∧ p.bare = q) ∧
    (keepsApart rest before = true → (words (tokenize text)).map kind ≠
      (words (tokenize content)).map kind) := by
  intro rest text
  obtain ⟨same, differ⟩ := Token.solid_uncommented (Token.faults_eq_nil_iff.1 clean) split gaps
  refine ⟨fun joined => ?_, fun apart alike => ?_⟩
  · have solid := same joined
    have pieces : (words (tokenize text)).map piece = (words (tokenize content)).map piece := by
      rw [words_tokenize, words_tokenize, ← Token.filterMap_solid, ← Token.filterMap_solid, solid]
    have clean' : faults text = [] := by
      rw [Token.faults_eq_nil_iff_solid, solid, ← Token.faults_eq_nil_iff_solid]
      exact clean
    refine ⟨pieces, clean', fun start q => ⟨?_, ?_⟩⟩
    · rintro ⟨p, read, rfl⟩
      exact read_of_pieces pieces clean read
    · rintro ⟨p, read, rfl⟩
      exact read_of_pieces pieces.symm clean' read
  · have kinds : ∀ bs, (words (tokenize bs)).map kind = Token.kinds bs := by
      intro bs
      rw [Token.kinds, Token.filterMap_solid, ← words_tokenize, List.map_map]
      rfl
    rw [kinds, kinds] at alike
    exact differ apart alike

/-- The text `a/*b*/+1` with a blank for its comment. -/
theorem sum_uncommented : Token.faults (Bytes.ofString "a/*b*/+1") = [] ∧
    (words (Token.tokenize [97, 32, 43, 49])).map piece =
      (words (Token.tokenize (Bytes.ofString "a/*b*/+1"))).map piece :=
  ⟨by decide +kernel, ((uncommented_reads (by decide +kernel)
    (show lexemes (Bytes.ofString "a/*b*/+1") = [⟨.token .ident, [97]⟩] ++
      ⟨.spacing (.blockComment true), Bytes.ofString "/*b*/"⟩ :: [⟨.token .plus, [43]⟩, ⟨.token .num, [49]⟩] by
        decide +kernel) .block).1 (by decide +kernel)).1⟩

/-- A logging token may hold spacing but no comment, and no statement starts with the word `console`. -/
theorem console_comment_counts : Token.faults (Bytes.ofString "console/*c*/.log(0);") = [] ∧
    (words (Token.tokenize (Bytes.ofString "console/*c*/.log(0);"))).map Token.kind =
      [.ident, .dot, .ident, .leftParen, .num, .rightParen, .semicolon] ∧
    (words (Token.tokenize (Bytes.ofString "console .log(0);"))).map Token.kind =
      [.log, .leftParen, .num, .rightParen, .semicolon] ∧
    (read .program (Bytes.ofString "console/*c*/.log(0);")).toOption.isNone = true ∧
    (read .program (Bytes.ofString "console .log(0);")).toOption.isSome = true := by
  decide +kernel

end Peano.Syntax
