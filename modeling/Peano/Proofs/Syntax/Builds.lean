import Peano.Proofs.Syntax.Unambiguous
import Peano.Proofs.Token.Lexing
namespace Peano.Syntax
open List
open Grammar (Reads)
open Source (Extent)

def Builds (n : Nonterminal) (tokens : List Token) (v : Meaning n) : Prop :=
  ∃ tree, grammar.Derives n tokens tree ∧ build n tree = .ok v

section Filling

variable {α : Type}

/-- The tokens fill the parts of a production, which then gives the value. The relation says what
tokens a phrase may have. -/
def Fills (has : (n : Nonterminal) → List Token → Meaning n → Prop) : (rhs : List Part) →
    Builder rhs (Place → Except BadTag α) → Place → List Token → α → Prop
  | [], f, place, tokens, v => tokens = [] ∧ (f place : Except BadTag α) = .ok v
  | .token k :: rest, f, place, tokens, v => ∃ t others, tokens = t :: others ∧
    k.accepts t = true ∧ Fills has rest (f t) (Extent.join place (some t.extent)) others v
  | .phrase n :: rest, f, place, tokens, v => ∃ first others u, tokens = first ++ others ∧
    has n first u ∧ Fills has rest (f u) (Extent.join place (Meaning.place n u)) others v

def symbols (rhs : List Part) : List (Grammar.Symbol Nonterminal Token) :=
  rhs.map (Grammar.Part.symbol Terminal.label Terminal.accepts)

variable {allowed : Grammar.Tree Token → Prop} {rhs : List Part} {place : Place} {tokens : List Token} {v : α}

theorem fills_of_reads {f : Builder rhs (Place → Except BadTag α)} {kids : List (Grammar.Tree Token)}
    (all : ∀ t ∈ kids, allowed t) (reads : Reads grammar (symbols rhs) tokens [] kids)
    (built : buildKids rhs f place kids = .ok v) :
    Fills (fun n tokens u => ∃ t, allowed t ∧ grammar.Derives n tokens t ∧ build n t = .ok u)
      rhs f place tokens v := by
  induction rhs generalizing place tokens kids with
  | nil =>
    obtain ⟨rfl, rfl⟩ := Grammar.reads_nil.1 reads
    rw [buildKids] at built
    split at built
    next w given =>
      cases built
      exact ⟨rfl, given⟩
    next => cases built
  | cons part rest ih =>
    cases part with
    | token k =>
      obtain ⟨t, others, us, rfl, rfl, fits, tail⟩ := Grammar.reads_terminal.1 reads
      rw [buildKids] at built
      exact ⟨t, others, rfl, fits, ih (fun u hu => all u (mem_cons_of_mem _ hu)) tail built⟩
    | phrase n =>
      obtain ⟨others, t, us, rfl, head, tail⟩ := Grammar.reads_nonterminal.1 reads
      -- A derivation with tokens behind it is one without them.
      have whole := head.frame []
      rw [append_nil] at whole
      rw [buildKids] at built
      split at built
      next u made =>
        exact ⟨_, others, u, head.yield, ⟨t, all t mem_cons_self, whole, made⟩,
          ih (fun u hu => all u (mem_cons_of_mem _ hu)) tail built⟩
      next => cases built

theorem Fills.mono {has has' : (n : Nonterminal) → List Token → Meaning n → Prop}
    {f : Builder rhs (Place → Except BadTag α)} (imp : ∀ n tokens u, has n tokens u → has' n tokens u)
    (fills : Fills has rhs f place tokens v) : Fills has' rhs f place tokens v := by
  induction rhs generalizing place tokens with
  | nil => exact fills
  | cons part rest ih =>
    cases part with
    | token k =>
      obtain ⟨t, others, rfl, fits, tail⟩ := fills
      exact ⟨t, others, rfl, fits, ih tail⟩
    | phrase n =>
      obtain ⟨first, others, u, rfl, head, tail⟩ := fills
      exact ⟨first, others, u, rfl, imp n first u head, ih tail⟩

theorem reads_of_fills {f : Builder rhs (Place → Except BadTag α)}
    (fills : Fills Builds rhs f place tokens v) :
    ∃ kids, Reads grammar (symbols rhs) tokens [] kids ∧ buildKids rhs f place kids = .ok v := by
  induction rhs generalizing place tokens with
  | nil =>
    obtain ⟨rfl, given⟩ := fills
    refine ⟨[], .nil, ?_⟩
    rw [buildKids, given]
  | cons part rest ih =>
    cases part with
    | token k =>
      obtain ⟨t, others, rfl, fits, tail⟩ := fills
      obtain ⟨us, reads, built⟩ := ih tail
      refine ⟨.leaf t :: us, .token fits reads, ?_⟩
      rw [buildKids]
      exact built
    | phrase n =>
      obtain ⟨first, others, u, rfl, ⟨t, head, made⟩, tail⟩ := fills
      obtain ⟨us, reads, built⟩ := ih tail
      have yield := head.yield
      rw [append_nil] at yield
      refine ⟨t :: us, Grammar.reads_nonterminal.2 ⟨others, t, us, rfl, ?_, reads⟩, ?_⟩
      · rw [yield]
        exact head.frame others
      · rw [buildKids, made]
        exact built

end Filling

section Productions

variable {n : Nonterminal} {tokens : List Token} {v : Meaning n}

theorem rules_getElem? (i : Nat) : grammar.rules[i]? = productionTable[i]?.map Production.rule := by
  simp [grammar, Grammar.ofRules, productionTable]

theorem production_of_build {tree : Grammar.Tree Token} (derives : grammar.Derives n tokens tree)
    (built : build n tree = .ok v) : ∃ rule kids rhs f, tree = .node rule kids ∧
      (⟨n, rhs, f⟩ : Production) ∈ productions ∧ Reads grammar (symbols rhs) tokens [] kids ∧
      buildKids rhs f none kids = .ok v := by
  obtain ⟨rule, symbolsOf, kids, rfl, found, reads⟩ := derives.node
  rw [rules_getElem?, Option.map_eq_some_iff] at found
  obtain ⟨⟨lhs, rhs, f⟩, entry, same⟩ := found
  obtain ⟨rfl, rfl⟩ : lhs = n ∧ symbols rhs = symbolsOf := by
    simpa [Production.rule, symbols] using same
  simp only [build, entry] at built
  exact ⟨rule, kids, rhs, f, rfl, mem_of_getElem? (by simpa [productionTable] using entry), reads,
    built⟩

theorem builds_of_fills {rhs : List Part} {f : Builder rhs (Place → Except BadTag (Meaning n))}
    (mem : (⟨n, rhs, f⟩ : Production) ∈ productions) (fills : Fills Builds rhs f none tokens v) :
    Builds n tokens v := by
  obtain ⟨kids, reads, built⟩ := reads_of_fills fills
  obtain ⟨rule, entry⟩ := getElem?_of_mem mem
  have entry : productionTable[rule]? = some ⟨n, rhs, f⟩ := by simpa [productionTable] using entry
  refine ⟨.node rule kids, Grammar.reads_node (by rw [rules_getElem?, entry]; rfl) reads, ?_⟩
  simp only [build, entry]
  exact built

theorem forall_productions {P : Production → Prop} (statements : ∀ p ∈ statementProductions, P p)
    (types : ∀ p ∈ typeProductions, P p) (terms : ∀ p ∈ exprProductions, P p) : ∀ p ∈ productions, P p :=
  forall_mem_append.2 ⟨forall_mem_append.2 ⟨statements, types⟩, terms⟩

/-- What all productions pass on from their parts holds of all that is built. -/
theorem Builds.induction {motive : (n : Nonterminal) → List Token → Meaning n → Prop}
    (step : ∀ p ∈ productions, ∀ tokens v, Fills motive p.rhs p.build none tokens v →
      motive p.lhs tokens v) (h : Builds n tokens v) : motive n tokens v := by
  obtain ⟨tree, derives, built⟩ := h
  induction size : sizeOf tree using Nat.strongRecOn generalizing n tokens tree with
  | _ k ih =>
    obtain ⟨rule, kids, rhs, f, rfl, mem, reads, made⟩ := production_of_build derives built
    -- The induction is on trees, which the statement does not mention.
    have smaller : ∀ t ∈ kids, sizeOf t < k := by
      intro t ht
      have := sizeOf_lt_of_mem ht
      rw [Grammar.Tree.node.sizeOf_spec] at size
      omega
    refine step ⟨n, rhs, f⟩ mem tokens v ((fills_of_reads smaller reads made).mono ?_)
    rintro m part u ⟨t, small, derives, built⟩
    exact ih (sizeOf t) small t derives built rfl

end Productions

theorem words_concat {ts : List Token} {stop : Token} (last : stop.kind = .eof) : words (ts ++ [stop]) = ts := by
  obtain ⟨kind, extent, text, held⟩ := stop
  obtain rfl : kind = .eof := last
  simp [words]

theorem words_tokenize (content : Bytes) : (words (Token.tokenize content)).map Token.piece =
    (Token.lexemes content).filterMap Token.Lexeme.piece? := by
  obtain ⟨ts, stop, split, last, same⟩ := Token.ofLexemes_eq 0 [] (Token.lexemes content)
  rw [← same, Token.tokenize, split, words_concat last]

theorem readTokens_eq_ok_iff {start : Start} {tokens : List Token} {v : Meaning start.nonterminal} :
    readTokens start.nonterminal tokens = .ok v ↔ Builds start.nonterminal (words tokens) v := by
  constructor
  · intro read
    have counts := Grammar.parse_answer grammar start.nonterminal (words tokens)
    unfold readTokens at read
    dsimp only at read
    split at read
    · cases read
    · cases read
    · split at read <;> cases read
    · cases read
    next tree parsed =>
      rw [parsed] at counts
      split at read
      next u built =>
        cases read
        exact ⟨tree, counts.1, built⟩
      · cases read
      · cases read
  · rintro ⟨tree, derives, built⟩
    simp only [readTokens, parse_eq_ok derives, built]

def Start.phrase : (start : Start) → Meaning start.nonterminal → Phrase
  | program, b => .program b
  | term, e => .term e
  | type, t => .type t

theorem readAs_eq_ok_iff {start : Start} {content : Bytes} {v : Meaning start.nonterminal} :
    readAs start.nonterminal content = .ok v ↔ Token.faults content = [] ∧
      Builds start.nonterminal (words (Token.tokenize content)) v := by
  unfold readAs
  split
  next e fault rest faulty => simp [faulty]
  next clean => simp [clean, readTokens_eq_ok_iff]

theorem read_eq_ok_iff {start : Start} {content : Bytes} {p : Phrase} :
    read start content = .ok p ↔ ∃ v, p = start.phrase v ∧ Token.faults content = [] ∧
      Builds start.nonterminal (words (Token.tokenize content)) v := by
  have map : read start content = (readAs start.nonterminal content).map start.phrase := by
    cases start <;> rfl
  rw [map]
  constructor
  · intro read
    match answer : readAs start.nonterminal content with
    | .error e =>
      rw [answer] at read
      cases read
    | .ok v =>
      rw [answer] at read
      cases read
      exact ⟨v, rfl, readAs_eq_ok_iff.1 answer⟩
  · rintro ⟨v, rfl, found⟩
    rw [readAs_eq_ok_iff.2 found]
    rfl

theorem exists_read {start : Start} {text : Bytes} {test : Phrase → Bool} (h : (read start text).toOption.any test) :
    ∃ n, read start text = .ok n ∧ test n := by
  cases ran : read start text with
  | ok n =>
    rw [ran] at h
    exact ⟨n, rfl, h⟩
  | error e =>
    rw [ran] at h
    cases h

end Peano.Syntax
