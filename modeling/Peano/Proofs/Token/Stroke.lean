import Mathlib.Data.List.Chain
import Peano.Proofs.Text.Bytes
import Peano.Token.Lexeme
namespace Peano.Token
open List
open Bool (and_eq_true not_eq_true' or_eq_false_iff)
open Bytes (ofString ofString_append toText)

/-- A piece of printed text. A field is a name behind a dot. -/
inductive Stroke where
  | space
  | newline
  | mark (k : Kind)
  | name (text : String)
  | digits (text : String)
  | field (text : String)
  deriving DecidableEq

def isTextOf (first others : UInt8 → Bool) : Bytes → Bool
  | [] => false
  | b :: rest => first b && rest.all others

abbrev isWordText : Bytes → Bool := isTextOf isWordStart isWordByte

abbrev isDigitText : Bytes → Bool := isTextOf isDigit isDigit

/-- A word that is a name or reserved. -/
structure IsWord (text : String) : Prop where
  word : isWordText (ofString text) = true
  text_eq : toText (ofString text) = text

structure IsName (text : String) : Prop extends IsWord text where
  ident : Kind.ofWord text = .ident
  allowed : illegalNames.contains text = false

structure IsNumeral (text : String) : Prop where
  digits : isDigitText (ofString text) = true
  text_eq : toText (ofString text) = text

def isPlain (b : UInt8) : Bool := !isSpaceOrNewline b && b != 46

namespace Stroke

def text : Stroke → String
  | space => " "
  | newline => "\n"
  | mark k => k.name
  | name n => n
  | digits d => d
  | field n => "." ++ n

/-- A mark is a reserved word, a sign or the word for logging. A dot belongs to a field. -/
def Legal : Stroke → Prop
  | mark k => k ≠ .dot ∧ (k.isKeyword || k.isPunctuation || k = .log)
  | name n | field n => IsName n
  | digits d => IsNumeral d
  | _ => True

def lexemes : Stroke → List Lexeme
  | space => [⟨.spacing .space, [32]⟩]
  | newline => [⟨.spacing .newline, [10]⟩]
  | mark k => [⟨.token k, ofString k.name⟩]
  | name n => [⟨.token .ident, ofString n⟩]
  | digits d => [⟨.token .num, ofString d⟩]
  | field n => [⟨.token .dot, [46]⟩, ⟨.token .ident, ofString n⟩]

def isField : Stroke → Bool
  | field _ => true
  | _ => false

/-- Whether a stroke is over before a byte. After spacing there is no dot either, so that it never
comes between `console` and a field. -/
def stopsAt : Stroke → UInt8 → Bool
  | space, b | newline, b => isPlain b
  | name _, b | field _, b => !isWordByte b
  | digits _, b => !isDigit b
  | mark .assign, b => b != 61 && b != 62
  | mark .equal, b | mark .unequal, b | mark .bang, b => b != 61
  | mark .plus, b => b != 43
  | mark k, b => !(k.isKeyword || k = .log) || !isWordByte b

end Stroke

section Runs

variable {p : UInt8 → Bool} {b : UInt8} {bs : Bytes}

/-- A stretch of such bytes is over. -/
def Ends (p : UInt8 → Bool) (bs : Bytes) : Prop := ∀ b ∈ bs.head?, p b = false

@[simp] theorem ends_nil : Ends p [] := nofun

@[simp] theorem ends_cons : Ends p (b :: bs) ↔ p b = false := by
  simp [Ends]

theorem ends_iff_any : Ends p bs ↔ bs.head?.any p = false := by
  cases bs <;> simp

theorem countWhile_cons (b : UInt8) (bs : Bytes) :
    countWhile p (b :: bs) = if p b then countWhile p bs + 1 else 0 := by
  unfold countWhile
  rw [takeWhile_cons]
  split <;> rfl

theorem countWhile_eq_zero_iff : countWhile p bs = 0 ↔ Ends p bs := by
  cases bs with
  | nil => simp [countWhile]
  | cons b bs => simp [countWhile_cons]

theorem countWhile_append {w : Bytes} (all : w.all p) (stop : Ends p bs) : countWhile p (w ++ bs) = w.length := by
  induction w with
  | nil => exact countWhile_eq_zero_iff.2 stop
  | cons b w ih =>
    rw [all_cons, and_eq_true] at all
    rw [cons_append, countWhile_cons, if_pos all.1, ih all.2, length_cons]

end Runs

theorem lexemes_cons (b : UInt8) (bs : Bytes) :
    lexemes (b :: bs) = ⟨(cut b bs).1, b :: bs.take (cut b bs).2⟩ :: lexemes (bs.drop (cut b bs).2) := by
  rw [lexemes]

/-- A text that is cut off as one lexeme. -/
theorem lexemes_of_cut {b : UInt8} {w bs : Bytes} {c : Lexeme.Class}
    (h : cut b (w ++ bs) = (c, w.length)) : lexemes (b :: w ++ bs) = ⟨c, b :: w⟩ :: lexemes bs := by
  rw [cons_append, lexemes_cons, h]
  simp

section Cuts

variable {b : UInt8} {w bs : Bytes}

theorem isPlain_iff : isPlain b ↔ isSpaceOrNewline b = false ∧ b ≠ 46 := by
  simp [isPlain]

theorem isPlain_of_isWordByte (h : isWordByte b) : isPlain b := by
  unfold isWordByte isWordStart isDigit at h
  rw [isPlain_iff]
  unfold isSpaceOrNewline isBlank
  grind

theorem not_space_of_isWordByte (h : isWordByte b) : isBlank b = false ∧ (b == 10) = false :=
  or_eq_false_iff.1 (isPlain_iff.1 (isPlain_of_isWordByte h)).1

theorem cut_eq_cutWord (start : isWordStart b) : cut b bs = cutWord b bs := by
  obtain ⟨blank, line⟩ := not_space_of_isWordByte (b := b) (by simp [isWordByte, start])
  simp [cut, blank, line, start]

theorem cut_word (start : isWordStart b) (all : w.all isWordByte)
    (stop : Ends isWordByte bs) (plain : toText (b :: w) = "console" → logTail? bs = none) :
    cut b (w ++ bs) = (.token (.ofWord (toText (b :: w))), w.length) := by
  rw [cut_eq_cutWord start, cutWord, countWhile_append all stop]
  by_cases console : toText (b :: w) = "console"
  · simp [plain console]
  · simp [console]

theorem cut_console {n : Nat} (start : isWordStart b) (all : w.all isWordByte)
    (stop : Ends isWordByte bs) (console : toText (b :: w) = "console")
    (tail : logTail? bs = some n) : cut b (w ++ bs) = (.token .log, w.length + n) := by
  rw [cut_eq_cutWord start, cutWord, countWhile_append all stop]
  simp [console, tail]

theorem cut_digits (start : isDigit b) (all : w.all isDigit)
    (stop : Ends isDigit bs) : cut b (w ++ bs) = (.token .num, w.length) := by
  obtain ⟨blank, line⟩ := not_space_of_isWordByte (b := b) (by simp [isWordByte, start])
  have letter : isWordStart b = false := by
    unfold isDigit at start
    unfold isWordStart
    grind
  simp [cut, blank, line, letter, start, countWhile_append all stop]

theorem cut_space (stop : Ends isSpaceOrNewline bs) : cut 32 bs = (.spacing .space, 0) := by
  have none : countWhile isBlank bs = 0 :=
    countWhile_eq_zero_iff.2 fun b hb => (or_eq_false_iff.1 (stop b hb)).1
  rw [cut, if_pos (by decide), none]

theorem cut_newline (stop : Ends isSpaceOrNewline bs) : cut 10 bs = (.spacing .newline, 0) := by
  have none : countWhile (· == 10) bs = 0 :=
    countWhile_eq_zero_iff.2 fun b hb => (or_eq_false_iff.1 (stop b hb)).2
  rw [cut, if_neg (by decide), if_pos (by decide), none]

def isSignStart (b : UInt8) : Bool :=
  !isSpaceOrNewline b && !isWordByte b && b != 47

theorem cut_sign (start : isSignStart b) : cut b bs = cutSign b bs := by
  simp only [isSignStart, isSpaceOrNewline, isWordByte, and_eq_true, not_eq_true',
    or_eq_false_iff, bne_iff_ne] at start
  obtain ⟨⟨⟨blank, line⟩, letter, digit⟩, slash⟩ := start
  simp [cut, blank, line, letter, digit, slash]

end Cuts

section Signs

variable {k : Kind}

/-- The bytes of a sign, the first one apart. -/
def signBytes : Kind → UInt8 × Bytes
  | .colon => (58, [])
  | .fatArrow => (61, [62])
  | .semicolon => (59, [])
  | .comma => (44, [])
  | .dot => (46, [])
  | .plusPlus => (43, [43])
  | .leftParen => (40, [])
  | .rightParen => (41, [])
  | .less => (60, [])
  | .greater => (62, [])
  | .leftBrace => (123, [])
  | .rightBrace => (125, [])
  | .equal => (61, [61])
  | .unequal => (33, [61])
  | .bang => (33, [])
  | .plus => (43, [])
  | .star => (42, [])
  | .and => (38, [38])
  | .or => (124, [124])
  | _ => (61, [])

theorem ofString_empty : ofString "" = [] := by with_unfolding_all decide

theorem ofString_space : ofString " " = [32] := by with_unfolding_all decide

theorem ofString_newline : ofString "\n" = [10] := by with_unfolding_all decide

theorem ofString_dot : ofString "." = [46] := by with_unfolding_all decide

theorem ofString_dotLog : ofString ".log" = [46, 108, 111, 103] := by with_unfolding_all decide

theorem ofString_sign (sign : k.isPunctuation) : ofString k.name = (signBytes k).1 :: (signBytes k).2 := by
  revert sign
  cases k <;> with_unfolding_all decide

theorem isSignStart_signBytes : isSignStart (signBytes k).1 := by
  cases k <;> decide

theorem cutSign_mark (sign : k.isPunctuation) {bs : Bytes}
    (stop : ∀ b ∈ bs.head?, (Stroke.mark k).stopsAt b) :
    cutSign (signBytes k).1 ((signBytes k).2 ++ bs) = (.token k, (signBytes k).2.length) := by
  cases bs with
  | nil => cases k <;> first | rfl | exact absurd sign (by decide)
  | cons b bs =>
    have := stop b rfl
    cases k <;> first
      | rfl
      | exact absurd sign (by decide)
      | (simp only [Stroke.stopsAt, and_eq_true, bne_iff_ne] at this
         simp [cutSign, signBytes, this])

theorem lexemes_sign (sign : k.isPunctuation) {bs : Bytes}
    (stop : ∀ b ∈ bs.head?, (Stroke.mark k).stopsAt b) :
    lexemes (ofString k.name ++ bs) = ⟨.token k, ofString k.name⟩ :: lexemes bs := by
  rw [ofString_sign sign]
  refine lexemes_of_cut ?_
  rw [cut_sign isSignStart_signBytes, cutSign_mark sign stop]

theorem lexemes_dot (bs : Bytes) : lexemes (ofString "." ++ bs) = ⟨.token .dot, [46]⟩ :: lexemes bs := by
  rw [← ofString_dot]
  exact lexemes_sign (k := .dot) rfl fun _ _ => rfl

end Signs

section Lexing

variable {bs : Bytes}

theorem isTextOf_eq {first others : UInt8 → Bool} (h : isTextOf first others bs) :
    ∃ b w, bs = b :: w ∧ first b ∧ w.all others := by
  cases bs with
  | nil => cases h
  | cons b w =>
    rw [isTextOf, and_eq_true] at h
    exact ⟨b, w, rfl, h.1, h.2⟩

theorem lexemes_word {text : String} (h : IsWord text) (stop : Ends isWordByte bs)
    (plain : text = "console" → logTail? bs = none) : lexemes (ofString text ++ bs) =
      ⟨.token (.ofWord text), ofString text⟩ :: lexemes bs := by
  obtain ⟨b, w, bytes, start, all⟩ := isTextOf_eq h.word
  have text_eq := h.text_eq
  rw [bytes] at text_eq ⊢
  refine lexemes_of_cut ?_
  rw [cut_word start all stop (text_eq ▸ plain), text_eq]

theorem lexemes_numeral {text : String} (h : IsNumeral text) (stop : Ends isDigit bs) :
    lexemes (ofString text ++ bs) = ⟨.token .num, ofString text⟩ :: lexemes bs := by
  obtain ⟨b, w, bytes, start, all⟩ := isTextOf_eq h.digits
  rw [bytes]
  exact lexemes_of_cut (cut_digits start all stop)

theorem isWord_keyword {k : Kind} (keyword : k.isKeyword) :
    IsWord k.name ∧ Kind.ofWord k.name = k ∧ k.name ≠ "console" := by
  have word : isWordText (ofString k.name) ∧ toText (ofString k.name) = k.name ∧
      Kind.ofWord k.name = k ∧ k.name ≠ "console" := by
    revert keyword
    cases k <;> with_unfolding_all decide
  exact ⟨⟨word.1, word.2.1⟩, word.2.2⟩

theorem lexemes_log (stop : Ends isWordByte bs) :
    lexemes (ofString "console" ++ (ofString ".log" ++ bs)) =
      ⟨.token .log, ofString "console.log"⟩ :: lexemes bs := by
  have tail : logTail? (ofString ".log" ++ bs) = some 4 := by
    rw [ofString_dotLog]
    simp [logTail?, countWhile, isSpaceOrNewline, isBlank, ends_iff_any.1 stop]
  obtain ⟨b, w, bytes, start, all⟩ := isTextOf_eq (show isWordText (ofString "console") = true
    by with_unfolding_all decide)
  have text : toText (ofString "console") = "console" := by with_unfolding_all decide
  have dot : Ends isWordByte (ofString ".log" ++ bs) := by
    rw [ofString_dotLog]
    rintro b hb
    cases hb
    decide
  have length : (ofString ".log").length = 4 := by rw [ofString_dotLog]; rfl
  have whole : ofString "console.log" = b :: (w ++ ofString ".log") := by
    rw [← cons_append, ← bytes, ← ofString_append]
    rfl
  rw [bytes] at text
  rw [whole, bytes, cons_append, ← append_assoc]
  refine lexemes_of_cut ?_
  rw [append_assoc, cut_console start all dot text tail, length_append, length]

/-- What comes after a stroke when it is read by itself. -/
def Stroke.Stops (s : Stroke) (bs : Bytes) : Prop :=
  (∀ b ∈ bs.head?, s.stopsAt b = true) ∧
    (s = .name "console" ∨ s = .field "console" → logTail? bs = none)

theorem lexemes_stroke {s : Stroke} (legal : s.Legal) (stops : s.Stops bs) :
    lexemes (ofString s.text ++ bs) = s.lexemes ++ lexemes bs := by
  obtain ⟨stop, plain⟩ := stops
  cases s with
  | space =>
    rw [Stroke.text, ofString_space]
    exact lexemes_of_cut (cut_space fun b hb => (isPlain_iff.1 (stop b hb)).1)
  | newline =>
    rw [Stroke.text, ofString_newline]
    exact lexemes_of_cut (cut_newline fun b hb => (isPlain_iff.1 (stop b hb)).1)
  | mark k =>
    have kinds : k.isKeyword ∨ k.isPunctuation ∨ k = .log := by
      simpa [or_assoc] using legal.2
    rcases kinds with keyword | sign | rfl
    · have words : Ends isWordByte bs := fun b hb => by
        have := stop b hb
        revert keyword this
        cases k <;> simp [Stroke.stopsAt, Kind.isKeyword]
      obtain ⟨word, kind, differ⟩ := isWord_keyword keyword
      rw [Stroke.text, lexemes_word word words fun same => (differ same).elim, kind]
      rfl
    · exact lexemes_sign sign stop
    · have words : Ends isWordByte bs := fun b hb => by
        simpa [Stroke.stopsAt, Kind.isKeyword] using stop b hb
      have split : Kind.log.name = "console" ++ ".log" := rfl
      rw [Stroke.text, split, ofString_append, append_assoc, lexemes_log words]
      rfl
  | name n =>
    have words : Ends isWordByte bs := fun b hb => by
      simpa [Stroke.stopsAt] using stop b hb
    rw [Stroke.text, lexemes_word legal.toIsWord words fun same => plain (.inl (by rw [same])),
      legal.ident]
    rfl
  | digits d => exact lexemes_numeral legal fun b hb => by simpa [Stroke.stopsAt] using stop b hb
  | field n =>
    have words : Ends isWordByte bs := fun b hb => by
      simpa [Stroke.stopsAt] using stop b hb
    rw [Stroke.text, ofString_append, append_assoc, lexemes_dot,
      lexemes_word legal.toIsWord words fun same => plain (.inr (by rw [same])), legal.ident]
    rfl

end Lexing

section Sequences

variable {s : Stroke} {x rest : List Stroke} {bs : Bytes}

def textOf : List Stroke → String
  | [] => ""
  | s :: rest => s.text ++ textOf rest

theorem textOf_append (x y : List Stroke) : textOf (x ++ y) = textOf x ++ textOf y := by
  induction x with
  | nil => simp [textOf]
  | cons s x ih => simp [textOf, ih, String.append_assoc]

/-- The first stroke is over where the second one begins. -/
def Apart (a b : Stroke) : Prop := ∀ c ∈ (ofString b.text).head?, a.stopsAt c = true

/-- Strokes that are read as one. -/
def blurs (a b : Stroke) : Bool :=
  (a = .name "console" || a = .field "console") && b = .field "log"

def blurred : List Stroke → Bool
  | a :: b :: rest => blurs a b || blurred (b :: rest)
  | _ => false

theorem blurs_of_not_isField {a b : Stroke} (h : b.isField = false) : blurs a b = false := by
  cases b <;> simp_all [blurs, Stroke.isField]

theorem blurred_append (x y : List Stroke) : blurred (x ++ y) =
      (blurred x || x.getLast?.any (fun a => y.head?.any (blurs a)) || blurred y) := by
  induction x using blurred.induct with
  | case1 a b rest ih =>
    have step : blurred ((a :: b :: rest) ++ y) = (blurs a b || blurred ((b :: rest) ++ y)) := rfl
    rw [step, ih, blurred, getLast?_cons_cons, Bool.or_assoc, Bool.or_assoc, Bool.or_assoc]
  | case2 x short =>
    match x with
    | [] => simp [blurred]
    | [a] => cases y <;> simp [blurred]
    | a :: b :: rest => exact (short a b rest rfl).elim

def Stroke.glued : Stroke → List Lexeme
  | .field _ => [⟨.token .dot, [46]⟩, ⟨.token .log, ofString "console.log"⟩]
  | _ => [⟨.token .log, ofString "console.log"⟩]

/-- The lexemes of printed text. -/
def lexed : List Stroke → List Lexeme
  | [] => []
  | [a] => a.lexemes
  | a :: b :: rest => if blurs a b then a.glued ++ lexed rest else a.lexemes ++ lexed (b :: rest)

theorem lexed_eq_flatMap (h : blurred x = false) : lexed x = x.flatMap Stroke.lexemes := by
  induction x using lexed.induct with
  | case1 => rfl
  | case2 a => simp [lexed]
  | case3 a b rest blurs => simp [blurred, blurs] at h
  | case4 a b rest plain ih =>
    rw [blurred, or_eq_false_iff] at h
    simp [lexed, plain, ih h.2]

def dots (ls : List Lexeme) : Nat := ls.countP fun l => l.cls = .token .dot

def fields (x : List Stroke) : Nat := x.countP Stroke.isField

theorem dots_append (x y : List Lexeme) : dots (x ++ y) = dots x + dots y := countP_append ..

theorem fields_cons (s : Stroke) (x : List Stroke) : fields (s :: x) = fields [s] + fields x := by
  simp only [fields, countP_cons, countP_nil]
  omega

theorem dots_lexemes (legal : s.Legal) : dots s.lexemes = fields [s] := by
  cases s with
  | mark k => simp [dots, fields, Stroke.isField, Stroke.lexemes, legal.1]
  | _ => simp [dots, fields, Stroke.isField, Stroke.lexemes]

/-- Printed text has a dot for each field, unless strokes are read as one. -/
theorem dots_lexed (legal : ∀ s ∈ x, s.Legal) : dots (lexed x) + (if blurred x then 1 else 0) ≤ fields x := by
  induction x using lexed.induct with
  | case1 => simp [lexed, dots, blurred]
  | case2 a => simp [lexed, blurred, dots_lexemes (legal a mem_cons_self)]
  | case3 a b rest blurs ih =>
    have small := ih fun s hs => legal s (mem_cons_of_mem _ (mem_cons_of_mem _ hs))
    have sides := blurs
    simp only [Token.blurs, and_eq_true, Bool.or_eq_true, decide_eq_true_eq] at sides
    obtain ⟨first, rfl⟩ := sides
    -- The dot of a field `console` stays, that of the field `log` goes.
    have glued : dots a.glued = fields [a] := by
      rcases first with rfl | rfl <;> decide
    have field : fields [.field "log"] = 1 := rfl
    rw [lexed, if_pos blurs, dots_append, fields_cons a, fields_cons (.field "log")]
    split <;> omega
  | case4 a b rest plain ih =>
    obtain ⟨legalA, legalRest⟩ := forall_mem_cons.1 legal
    have small := ih legalRest
    rw [lexed, if_neg plain, dots_append, fields_cons, dots_lexemes legalA, blurred,
      Bool.eq_false_iff.2 plain, Bool.false_or]
    omega

/-- Spacing does not lead to a dot. -/
theorem logTail?_of_space {s : Bytes} (spaces : s.all isSpaceOrNewline) (h : ∀ c ∈ bs.head?, isPlain c) :
    logTail? (s ++ bs) = none := by
  have before : countWhile isSpaceOrNewline (s ++ bs) = s.length :=
    countWhile_append spaces fun c hc => (isPlain_iff.1 (h c hc)).1
  simp only [logTail?, before, drop_left]
  cases bs with
  | nil => rfl
  | cons b bs => simp [(isPlain_iff.1 (h b rfl)).2]

theorem logTail?_of_head (h : ∀ c ∈ bs.head?, isPlain c) : logTail? bs = none :=
  logTail?_of_space (s := []) rfl h

/-- A text has one longest beginning of word bytes. -/
theorem eq_of_word_append {u v cs : Bytes} (allU : u.all isWordByte)
    (stopU : Ends isWordByte bs) (allV : v.all isWordByte)
    (stopV : Ends isWordByte cs) (h : u ++ bs = v ++ cs) : u = v := by
  have lengths : u.length = v.length := by
    rw [← countWhile_append allU stopU, h, countWhile_append allV stopV]
  exact (append_inj h lengths).1

theorem logTail?_of_field {n : String} (word : IsWord n) (differ : n ≠ "log")
    (stop : Ends isWordByte bs) : logTail? (ofString ("." ++ n) ++ bs) = none := by
  obtain ⟨b, w, bytes, start, all⟩ := isTextOf_eq word.word
  have first : isWordByte b := by simp [isWordByte, start]
  have plain : isSpaceOrNewline b = false := (isPlain_iff.1 (isPlain_of_isWordByte first)).1
  -- A name that begins with `log` goes on after it, or else it would be `log`.
  have log : ∀ tail, b :: (w ++ bs) = 108 :: 111 :: 103 :: tail → tail.head?.any isWordByte := by
    intro tail h
    by_contra last
    refine differ ?_
    have stopTail : Ends isWordByte tail := ends_iff_any.2 (Bool.eq_false_iff.2 last)
    have same : b :: w = [108, 111, 103] :=
      eq_of_word_append (by simp [first, all]) stop (by decide) stopTail h
    rw [← word.text_eq, bytes, same]
    with_unfolding_all decide
  have before : countWhile isSpaceOrNewline (46 :: b :: (w ++ bs)) = 0 := by
    simp [countWhile, show isSpaceOrNewline 46 = false by decide]
  have after : countWhile isSpaceOrNewline (b :: (w ++ bs)) = 0 := by simp [countWhile, plain]
  rw [ofString_append, ofString_dot, bytes]
  change logTail? (46 :: b :: (w ++ bs)) = none
  simp only [logTail?, before, after, drop_zero]
  split
  next tail h => rw [log tail h, if_pos rfl]
  next => rfl

theorem exists_bytes (legal : s.Legal) : ∃ b w, ofString s.text = b :: w := by
  cases s with
  | space => exact ⟨32, [], ofString_space⟩
  | newline => exact ⟨10, [], ofString_newline⟩
  | mark k =>
    have some : ofString k.name ≠ [] := by cases k <;> with_unfolding_all decide
    exact exists_cons_of_ne_nil some
  | name n =>
    obtain ⟨b, w, bytes, -⟩ := isTextOf_eq legal.word
    exact ⟨b, w, bytes⟩
  | digits d =>
    obtain ⟨b, w, bytes, -⟩ := isTextOf_eq legal.digits
    exact ⟨b, w, bytes⟩
  | field n =>
    exact ⟨46, ofString n, by rw [Stroke.text, ofString_append, ofString_dot]; rfl⟩

theorem head?_textOf (legal : s.Legal) (rest : List Stroke) :
    (ofString (textOf (s :: rest))).head? = (ofString s.text).head? := by
  obtain ⟨b, w, bytes⟩ := exists_bytes legal
  rw [textOf, ofString_append, bytes]
  rfl

theorem logTail?_of_word {b : UInt8} {w : Bytes} (legal : s.Legal) (bytes : ofString s.text = b :: w)
    (word : isWordByte b) : logTail? (ofString (textOf (s :: rest))) = none := by
  refine logTail?_of_head ?_
  rw [head?_textOf legal, bytes]
  rintro _ ⟨⟩
  exact isPlain_of_isWordByte word

theorem isPlain_mark {k : Kind} (h : k ≠ .dot) : ∀ b ∈ (ofString k.name).head?, isPlain b := by
  have all : (ofString k.name).head?.all isPlain := by
    revert h
    cases k <;> with_unfolding_all decide
  intro b hb
  rw [hb] at all
  exact all

theorem stop_textOf (legal : ∀ t ∈ rest, t.Legal) (chain : (s :: rest).IsChain Apart) :
    ∀ b ∈ (ofString (textOf rest)).head?, s.stopsAt b := by
  cases rest with
  | nil => simp [textOf, ofString_empty]
  | cons t rest =>
    rw [head?_textOf (legal t mem_cons_self)]
    exact (isChain_cons_cons.1 chain).1

theorem logTail?_textOf (legal : ∀ t ∈ s :: rest, t.Legal) (chain : (s :: rest).IsChain Apart)
    (differ : s ≠ .field "log") : logTail? (ofString (textOf (s :: rest))) = none := by
  have legalS := legal s mem_cons_self
  have stop := stop_textOf (fun t ht => legal t (mem_cons_of_mem _ ht)) chain
  cases s with
  -- Spacing is skipped there, so it counts that no dot comes after it.
  | space =>
    rw [textOf, ofString_append, Stroke.text, ofString_space]
    exact logTail?_of_space (by decide) stop
  | newline =>
    rw [textOf, ofString_append, Stroke.text, ofString_newline]
    exact logTail?_of_space (by decide) stop
  | mark k =>
    refine logTail?_of_head ?_
    rw [head?_textOf legalS]
    exact isPlain_mark legalS.1
  | name n =>
    obtain ⟨b, w, bytes, start, -⟩ := isTextOf_eq legalS.word
    exact logTail?_of_word legalS bytes (by simp [isWordByte, start])
  | digits d =>
    obtain ⟨b, w, bytes, start, -⟩ := isTextOf_eq legalS.digits
    exact logTail?_of_word legalS bytes (by simp [isWordByte, start])
  | field n =>
    rw [textOf, ofString_append]
    refine logTail?_of_field legalS.toIsWord (fun same => differ (by rw [same])) fun b hb => ?_
    simpa [Stroke.stopsAt] using stop b hb

/-- Printed text is cut into its strokes again. -/
theorem lexemes_textOf (legal : ∀ s ∈ x, s.Legal) (chain : x.IsChain Apart) :
    lexemes (ofString (textOf x)) = lexed x := by
  induction x using lexed.induct with
  | case1 =>
    rw [textOf, ofString_empty, lexemes]
    rfl
  | case2 a =>
    have bytes : ofString (textOf []) = [] := ofString_empty
    have empty : lexemes (ofString (textOf [])) = [] := by rw [bytes, lexemes]
    have stops : a.Stops (ofString (textOf [])) := by
      rw [bytes]
      exact ⟨by simp, fun _ => rfl⟩
    rw [textOf, ofString_append, lexemes_stroke (legal a mem_cons_self) stops, empty,
      append_nil, lexed]
  | case3 a b rest blurs ih =>
    have sides := blurs
    simp only [Token.blurs, and_eq_true, Bool.or_eq_true, decide_eq_true_eq] at sides
    obtain ⟨first, rfl⟩ := sides
    have legalRest : ∀ s ∈ rest, s.Legal := fun s hs =>
      legal s (mem_cons_of_mem _ (mem_cons_of_mem _ hs))
    have chainRest : (Stroke.field "log" :: rest).IsChain Apart := (isChain_cons_cons.1 chain).2
    have stop : Ends isWordByte (ofString (textOf rest)) := fun c hc => by
      simpa [Stroke.stopsAt] using stop_textOf legalRest chainRest c hc
    have log := lexemes_log stop
    rw [lexed, textOf, textOf, ofString_append, ofString_append,
      ← ih legalRest chainRest.tail]
    rcases first with rfl | rfl
    · exact log
    -- A field `console` has its own dot before the logging token.
    · rw [Stroke.text, ofString_append, append_assoc, lexemes_dot]
      exact congrArg _ log
  | case4 a b rest plain ih =>
    obtain ⟨legalA, legalRest⟩ := forall_mem_cons.1 legal
    have chainRest := (isChain_cons_cons.1 chain).2
    -- Unless the two blur, what comes after `console` is no field `log`.
    have stops : a.Stops (ofString (textOf (b :: rest))) := by
      refine ⟨stop_textOf legalRest chain, fun console => logTail?_textOf legalRest chainRest ?_⟩
      rintro rfl
      rcases console with rfl | rfl <;> exact plain rfl
    rw [textOf, ofString_append, lexemes_stroke legalA stops, ih legalRest chainRest, lexed, if_neg plain]

end Sequences

end Peano.Token
