import Peano.Proofs.Syntax.Turned
namespace Peano.Syntax
open Source (Extent)
open Token (Lexeme Kind lexemes faults ofLexemes tokenize)

variable {κ : Correction}

def reworded (κ : Correction) (e : Extent) (l : Lexeme) : Lexeme :=
  match κ (some e) with
  | some j => if l.isExit then ⟨.token j.kind, Bytes.ofString j.text⟩ else l
  | none => l

/-- The lexemes in the place of those that start at `offset`. -/
def rewordFrom (κ : Correction) (offset : Nat) : List Lexeme → List Lexeme
  | [] => []
  | l :: rest =>
    let stop := offset + l.text.length
    reworded κ ⟨offset, stop⟩ l :: rewordFrom κ stop rest

def reword (κ : Correction) (content : Bytes) : Bytes :=
  (rewordFrom κ 0 (lexemes content)).flatMap Lexeme.text

/-- Where keywords are among lexemes that start at `offset`. -/
def exitsFrom (offset : Nat) : List Lexeme → List Extent
  | [] => []
  | l :: rest =>
    let stop := offset + l.text.length
    if l.isExit then ⟨offset, stop⟩ :: exitsFrom stop rest else exitsFrom stop rest

section Texts

variable {offset : Nat} {ls : List Lexeme} {content : Bytes}

theorem name_kind (j : Jump) : j.kind.name = j.text := by
  cases j <;> rfl

theorem reworded_of_plain {l : Lexeme} (e : Extent) (plain : l.isExit = false) : reworded κ e l = l := by
  unfold reworded
  split <;> simp [plain]

theorem exchanged_reworded (e : Extent) (l : Lexeme) : Token.Exchanged l (reworded κ e l) := by
  unfold reworded
  split
  next j _ =>
    split
    next exit => exact .inr ⟨exit, j.kind, isExit_kind j, by rw [name_kind]⟩
    · exact .inl rfl
  · exact .inl rfl

theorem exchanged_rewordFrom (κ : Correction) (offset : Nat) (ls : List Lexeme) :
    List.Forall₂ Token.Exchanged ls (rewordFrom κ offset ls) := by
  induction ls generalizing offset with
  | nil => exact .nil
  | cons l rest ih => exact .cons (exchanged_reworded _ l) (ih _)

theorem lexemes_reword (κ : Correction) (clean : faults content = []) :
    lexemes (reword κ content) = rewordFrom κ 0 (lexemes content) :=
  (Token.lexemes_exchanged (Token.faults_eq_nil_iff.1 clean) (exchanged_rewordFrom κ 0 _)).2

theorem fault?_reworded {l : Lexeme} (e : Extent) (clean : l.fault? = none) :
    (reworded κ e l).fault? = none := by
  unfold reworded
  split
  next j _ =>
    split
    · cases j <;> rfl
    · exact clean
  · exact clean

theorem faults_reword (κ : Correction) (clean : faults content = []) : faults (reword κ content) = [] := by
  rw [faults, lexemes_reword κ clean]
  rw [faults] at clean
  generalize lexemes content = ls at clean
  rw [Token.faultsFrom_eq_nil_iff] at clean ⊢
  generalize 0 = offset
  induction ls generalizing offset with
  | nil => exact clean
  | cons l rest ih =>
    rw [List.forall_mem_cons] at clean
    exact List.forall_mem_cons.2 ⟨fault?_reworded _ clean.1, ih clean.2 _⟩

end Texts

section Tokens

theorem kind_jumpOf {t : Token} (exit : t.kind.isExit) : (jumpOf t).kind = t.kind := by
  unfold jumpOf
  cases h : t.kind with
  | returnWord | continueWord | breakWord => rfl
  | _ =>
    rw [h] at exit
    cases exit

theorem turnedTo_reworded (κ : Correction) (k : Kind) (text : Bytes) (e : Extent) (held : List Token.Trivia) :
    ∃ k' text', reworded κ e ⟨.token k, text⟩ = ⟨.token k', text'⟩ ∧
      ∀ e' held', TurnedTo κ ⟨k, e, text, held⟩ ⟨k', e', text', held'⟩ := by
  unfold reworded TurnedTo
  cases exit : k.isExit with
  | false =>
    refine ⟨k, text, ?_, fun _ _ => ⟨rfl, rfl⟩⟩
    split <;> simp [Lexeme.isExit, exit]
  | true =>
    cases found : κ (some e) with
    | none => exact ⟨k, text, rfl, fun _ _ => (kind_jumpOf exit).symm⟩
    | some j => exact ⟨j.kind, Bytes.ofString j.text, by simp [Lexeme.isExit, exit], fun _ _ => rfl⟩

theorem ofLexemes_reword (κ : Correction) (offset offset' : Nat) (held held' : List Token.Trivia)
    (ls : List Lexeme) : ∃ ts ts' stop stop', ofLexemes offset held ls = ts ++ [stop] ∧
      ofLexemes offset' held' (rewordFrom κ offset ls) = ts' ++ [stop'] ∧
      stop.kind = .eof ∧ stop'.kind = .eof ∧ List.Forall₂ (TurnedTo κ) ts ts' ∧
      exitsAmong ts = (exitsFrom offset ls).map some := by
  induction ls generalizing offset offset' held held' with
  | nil => exact ⟨[], [], _, _, rfl, rfl, rfl, rfl, .nil, rfl⟩
  | cons l rest ih =>
    obtain ⟨cls, text⟩ := l
    cases cls with
    | spacing s =>
      obtain ⟨ts, ts', stop, stop', split, split', last, last', turned, exits⟩ :=
        ih (offset + text.length) (offset' + text.length)
          (held ++ [⟨s, ⟨offset, offset + text.length⟩, text⟩])
          (held' ++ [⟨s, ⟨offset', offset' + text.length⟩, text⟩])
      refine ⟨ts, ts', stop, stop', split, ?_, last, last', turned, exits⟩
      rw [rewordFrom, reworded_of_plain _ rfl]
      exact split'
    | token k =>
      obtain ⟨k', text', same, first⟩ :=
        turnedTo_reworded κ k text ⟨offset, offset + text.length⟩ held
      obtain ⟨ts, ts', stop, stop', split, split', last, last', turned, exits⟩ :=
        ih (offset + text.length) (offset' + text'.length) [] []
      refine ⟨⟨k, ⟨offset, offset + text.length⟩, text, held⟩ :: ts,
        ⟨k', ⟨offset', offset' + text'.length⟩, text', held'⟩ :: ts', stop, stop', ?_, ?_, last, last',
        .cons (first _ _) turned, ?_⟩
      · rw [ofLexemes, split]
        rfl
      · rw [rewordFrom, same, ofLexemes, split']
        rfl
      · rw [exitsFrom]
        cases exit : k.isExit with
        | true | false => simpa [exitsAmong, Lexeme.isExit, exit] using exits

/-- Where the keywords of statements are in a text. -/
def exits (content : Bytes) : List Extent := exitsFrom 0 (lexemes content)

theorem readProgram_eq_ok_iff {content : Bytes} {program : Block} : readProgram content = .ok program ↔
    faults content = [] ∧ Builds .code (words (tokenize content)) program :=
  @readAs_eq_ok_iff .program content program

theorem readProgram_reword {content : Bytes} {program : Block} (κ : Correction)
    (read : readProgram content = .ok program) : ∃ program', readProgram (reword κ content) = .ok program' ∧
      program'.bare = (program.corrected κ).bare ∧
      ∀ ending, ((program.leaves ending).map Prod.fst).Perm ((exits content).map some) := by
  obtain ⟨clean, builds⟩ := readProgram_eq_ok_iff.1 read
  obtain ⟨ts, ts', stop, stop', split, split', last, last', turned, places⟩ :=
    ofLexemes_reword κ 0 0 [] [] (lexemes content)
  rw [tokenize, split, words_concat last] at builds
  obtain ⟨program', builds', alike⟩ := builds.turned turned
  have read' : readProgram (reword κ content) = .ok program' := by
    refine readProgram_eq_ok_iff.2 ⟨faults_reword κ clean, ?_⟩
    rwa [tokenize, lexemes_reword κ clean, split', words_concat last']
  refine ⟨program', read', alike.turned, fun ending => ?_⟩
  rw [exits, ← places]
  exact Multiset.coe_eq_coe.1 (alike.exits ending)

end Tokens

end Peano.Syntax
