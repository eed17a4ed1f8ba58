import Peano.Proofs.Grammar.Lookahead
import Peano.Proofs.Grammar.Walking
import Peano.Syntax.Reading
namespace Peano.Syntax
open Grammar (Lookahead)

/-- What is seen of a token ahead. -/
inductive Class where
  | kind (k : Token.Kind)
  | matchWord
  | caseWord
  deriving DecidableEq, Repr

def Class.of (t : Token) : Class :=
  if t.isWord "match" then matchWord else if t.isWord "case" then caseWord else kind t.kind

def Terminal.classes : Terminal → List Class
  | .kind .ident => [.kind .ident, .matchWord, .caseWord]
  | .kind k => [.kind k]
  | .word "match" => [.matchWord]
  | .word "case" => [.caseWord]
  | .word _ => [.kind .ident]

namespace Nonterminal

def nullable : Nonterminal → Bool
  | code | statements | statementBody? | assertion? | cases => true
  | _ => false

def starts : Nonterminal → List Class
  | code | statements | statement =>
    [.kind .semicolon, .kind .constWord, .kind .letWord, .kind .returnWord, .kind .continueWord,
      .kind .breakWord, .kind .typeWord, .kind .log, .kind .functionWord, .kind .switchWord, .matchWord]
  | statementBody? | statementBody =>
    [.kind .constWord, .kind .letWord, .kind .returnWord, .kind .continueWord, .kind .breakWord,
      .kind .typeWord, .kind .log]
  | constWord | const | destructure => [.kind .constWord, .kind .letWord]
  | leaveWord | leave => [.kind .returnWord, .kind .continueWord, .kind .breakWord]
  | assertion? | assertion => [.kind .colon]
  | rename | typeParams | typeParam | comparison | increment | typedParams | typedParam | param
  | params => [.kind .ident, .matchWord, .caseWord]
  | typedef | genericTypedef => [.kind .typeWord]
  | log => [.kind .log]
  | loop => [.kind .forWord]
  | switchWord | switch => [.kind .switchWord, .matchWord]
  | cases | case => [.caseWord]
  | caseGuard | block | record | tagged => [.kind .leftBrace]
  | fieldEnd => [.kind .semicolon, .kind .comma]
  | head | lambda => [.kind .leftParen]
  | function => [.kind .functionWord]
  | typeAtom =>
    [.kind .ident, .matchWord, .caseWord, .kind .num, .kind .leftParen, .kind .leftBrace]
  | logic | implication | disjunction | conjunction | equation | typeSum | typeProduct | negation
  | logicList =>
    [.kind .ident, .matchWord, .caseWord, .kind .num, .kind .leftParen, .kind .leftBrace,
      .kind .bang]
  | args | expr | arith | ascription | abstraction | lambdaBody | conjunct | sum | product
  | application | inst | atom =>
    [.kind .ident, .matchWord, .caseWord, .kind .num, .kind .leftParen, .kind .leftBrace,
      .kind .forWord, .kind .switchWord]

def afterTerm : List (Option Class) :=
  [none, some (.kind .semicolon), some (.kind .comma), some (.kind .rightParen),
    some (.kind .rightBrace)]

def afterType : List (Option Class) :=
  [some (.kind .asWord), some (.kind .assign), some (.kind .fatArrow), some (.kind .greater),
    some (.kind .leftBrace)] ++ afterTerm

def afterStatement : List (Option Class) :=
  [none, some .caseWord, some (.kind .rightBrace)] ++ statement.starts.map some

/-- What may come after a phrase, its own continuations apart. -/
def follows : Nonterminal → List (Option Class)
  | code => [none]
  | statements => [none, some .caseWord, some (.kind .rightBrace)]
  | statement | function => afterStatement
  | statementBody? | statementBody | const | leave | destructure | typedef | genericTypedef
  | log => [some (.kind .semicolon)]
  | constWord => some (.kind .leftBrace) :: rename.starts.map some
  | leaveWord => expr.starts.map some
  | assertion? | assertion =>
    [some (.kind .assign), some (.kind .fatArrow), some (.kind .comma), some (.kind .semicolon),
      some (.kind .rightParen), some (.kind .leftBrace), some (.kind .rightBrace)]
  | rename => [some (.kind .comma), some (.kind .rightBrace)]
  | typeParams | logicList => [some (.kind .greater)]
  | typeParam => [some (.kind .comma), some (.kind .greater)]
  | args | increment | typedParams | params => [some (.kind .rightParen)]
  | typedParam | param => [some (.kind .comma), some (.kind .rightParen)]
  | comparison | fieldEnd => increment.starts.map some
  | switchWord => [some (.kind .leftParen)]
  | cases => [some (.kind .rightBrace)]
  | case => [some .caseWord, some (.kind .rightBrace)]
  | caseGuard => [some (.kind .colon)]
  | head => [some (.kind .fatArrow), some (.kind .leftBrace)]
  | logic | implication | disjunction => afterType
  | conjunction => some (.kind .or) :: afterType
  | equation => [some (.kind .or), some (.kind .and)] ++ afterType
  | typeSum =>
    [some (.kind .or), some (.kind .and), some (.kind .equal), some (.kind .unequal)] ++ afterType
  | typeProduct =>
    [some (.kind .or), some (.kind .and), some (.kind .equal), some (.kind .unequal),
      some (.kind .plus)] ++ afterType
  | negation | typeAtom =>
    [some (.kind .or), some (.kind .and), some (.kind .equal), some (.kind .unequal),
      some (.kind .plus), some (.kind .star)] ++ afterType
  | expr | arith | ascription => afterTerm
  | abstraction | lambdaBody | lambda | conjunct => some (.kind .asWord) :: afterTerm
  | sum => [some (.kind .asWord), some (.kind .and)] ++ afterTerm
  | product => [some (.kind .asWord), some (.kind .and), some (.kind .plus)] ++ afterTerm
  | application =>
    [some (.kind .asWord), some (.kind .and), some (.kind .plus), some (.kind .star)] ++ afterTerm
  | inst | atom | record | tagged | loop =>
    [some (.kind .asWord), some (.kind .and), some (.kind .plus), some (.kind .star),
      some (.kind .dot), some (.kind .leftParen)] ++ afterTerm
  | switch | block =>
    [some (.kind .asWord), some (.kind .and), some (.kind .plus), some (.kind .star),
      some (.kind .dot), some (.kind .leftParen)] ++ afterTerm ++ afterStatement

/-- Ranks above everything a phrase may begin with. -/
def rank : Nonterminal → Nat
  | const | leave | destructure | switch | assertion? | typeParams | lambda | cases | negation
  | typedParams | params => 1
  | statementBody | atom | typeProduct => 2
  | statementBody? | inst | typeSum => 3
  | statement | application | equation => 4
  | statements | product | conjunction => 5
  | code | sum | disjunction => 6
  | conjunct | implication => 7
  | abstraction | logic => 8
  | ascription | logicList | lambdaBody => 9
  | arith => 10
  | args | expr => 11
  | _ => 0

end Nonterminal

/-- Whether `match` is a name shows only after what comes behind it in brackets, so terms that may
be a name are no whole phrases. -/
def lookahead : Lookahead Nonterminal Terminal Token Class where
  rules := productions.map fun p => (p.lhs, p.rhs)
  label := Terminal.label
  accepts := Terminal.accepts
  classOf := Class.of
  classes := Terminal.classes
  nullable := Nonterminal.nullable
  starts := Nonterminal.starts
  follows := Nonterminal.follows
  rank := Nonterminal.rank
  whole
    | .inst | .atom => false
    | _ => true

theorem isWord_iff {w : String} {t : Token} : t.isWord w ↔ t.kind = .ident ∧ t.name = w := by
  simp [Token.isWord]

theorem classOf_mem (k : Terminal) (t : Token) (h : k.accepts t) : Class.of t ∈ k.classes := by
  cases k with
  | kind k =>
    have same : t.kind = k := by simpa [Terminal.accepts] using h
    by_cases name : k = .ident
    · subst name
      unfold Class.of
      rw [same]
      split <;> [skip; split] <;> simp [Terminal.classes]
    · have plain : Class.of t = .kind k := by
        simp [Class.of, isWord_iff, same, name]
      have classes : Terminal.classes (.kind k) = [.kind k] := by
        cases k <;> first | rfl | exact (name rfl).elim
      rw [plain, classes]
      exact List.mem_singleton_self _
  | word w =>
    obtain ⟨kind, rfl⟩ := isWord_iff.1 h
    simp only [Class.of, isWord_iff]
    unfold Terminal.classes
    split <;> simp_all

theorem lookahead_fits : lookahead.Fits grammar where
  rules := by
    rfl
  classes := classOf_mem
  consistent := by decide +kernel

theorem lookahead_settled : ∀ n, lookahead.whole n → lookahead.settled 60 n := by
  intro n
  cases n <;> decide +kernel

theorem grammar_leftRanked : grammar.LeftRanked Nonterminal.rank :=
  lookahead_fits.leftRanked (by decide +kernel)

instance : Std.TransOrd Nonterminal :=
  inferInstanceAs (Std.TransCmp (compareOn Nonterminal.ctorIdx))

instance : Std.LawfulEqOrd Nonterminal where
  eq_of_compare {a b} h := by
    have same : compare a.ctorIdx b.ctorIdx = .eq := h
    rw [← Nonterminal.ofNat_ctorIdx a, ← Nonterminal.ofNat_ctorIdx b, Nat.compare_eq_eq.1 same]

def Start.nonterminal : Start → Nonterminal
  | program => .code
  | term => .expr
  | type => .logic

theorem starts_whole (start : Start) : lookahead.whole start.nonterminal := by
  cases start <;> rfl

theorem starts_end (start : Start) : none ∈ lookahead.follows start.nonterminal := by
  cases start <;> decide

theorem derives_unique {start : Start} {tokens : List Token} {t u : Grammar.Tree Token}
    (ht : grammar.Derives start.nonterminal tokens t)
    (hu : grammar.Derives start.nonterminal tokens u) : t = u :=
  lookahead_fits.unambiguous lookahead_settled (starts_whole start) (starts_end start) ht hu

theorem parse_ne_ambiguous (start : Start) (tokens : List Token) :
    grammar.parse start.nonterminal tokens ≠ .error .ambiguous := by
  intro ambiguous
  have counts := Grammar.parse_answer grammar start.nonterminal tokens
  rw [ambiguous] at counts
  obtain ⟨t, ht, other⟩ := counts
  obtain ⟨u, hu, differ⟩ := other grammar_leftRanked.leftSimple
  exact differ (derives_unique hu ht)

theorem parse_eq_ok {start : Start} {tokens : List Token} {t : Grammar.Tree Token}
    (h : grammar.Derives start.nonterminal tokens t) : grammar.parse start.nonterminal tokens = .ok t := by
  have counts := Grammar.parse_answer grammar start.nonterminal tokens
  match answer : grammar.parse start.nonterminal tokens with
  | .ok u =>
    rw [answer] at counts
    rw [derives_unique counts.1 h]
  | .error .ambiguous => exact (parse_ne_ambiguous start tokens answer).elim
  | .error (.stray s) =>
    rw [answer] at counts
    exact counts.elim
  | .error .unfinished | .error (.unexpected _ _) =>
    rw [answer] at counts
    exact (counts t h).elim

/-- No text is ambiguous: it has at most one derivation from each start, and its tokens are never
refused for having more. -/
theorem tokens_unambiguous (start : Start) (tokens : List Token) :
    (∀ t u, grammar.Derives start.nonterminal tokens t → grammar.Derives start.nonterminal tokens u → t = u) ∧
    grammar.parse start.nonterminal tokens ≠ .error .ambiguous ∧
    ∀ extent, readTokens start.nonterminal tokens ≠ .error (.ambiguous extent) := by
  refine ⟨fun t u => derives_unique, parse_ne_ambiguous start tokens, fun extent h => ?_⟩
  have plain := parse_ne_ambiguous start (words tokens)
  unfold readTokens at h
  dsimp only at h
  split at h
  · cases h
  next ambiguous =>
    exact plain ambiguous
  · split at h <;> cases h
  · cases h
  · split at h <;> cases h

end Peano.Syntax
