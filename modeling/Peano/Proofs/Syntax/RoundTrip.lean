import Peano.Proofs.Syntax.Blurring
import Peano.Proofs.Syntax.Printed
namespace Peano.Syntax
open List
open Token (Stroke Kind Spell)
open Bytes (ofString)

section Phrases

variable {start : Start} {v : Meaning start.nonterminal}

theorem Item.Proper.legal {i : Item} (h : i.Proper) : ∀ s ∈ i.strokes, s.Legal := by
  cases i with
  | stroke s => simpa [Item.strokes] using h
  | node n => exact Node.Proper.legal h

theorem Sane.legal {x : List Item} {c : Nat} (h : Sane x c) : ∀ s ∈ strokesOf x, s.Legal := by
  intro s hs
  obtain ⟨i, hi, hs⟩ := mem_flatMap.1 hs
  exact (h.proper i hi).legal s hs

theorem fieldsOf_program (ss : List Statement) :
    fieldsOf ([Item.stroke .newline].intercalate (ss.map fun s => [s.item])) =
      fieldsOf (statementsLayout ss) := by
  rw [fieldsOf_intercalate (by simp [Stroke.isField])]
  induction ss with
  | nil => rfl
  | cons s ss ih => simp_all [statementsLayout, Stroke.isField]

/-- A phrase is laid out like what its tokens build, but for the spacing of a program. -/
theorem Sane.phrase {c : Nat} (h : Sane (Meaning.layout start.nonterminal v) c) :
    Sane (start.phrase v).layout c := by
  cases start with
  | program =>
    -- The statements are the same, and line feeds and blanks are legal and no fields.
    have newline : [Item.stroke .newline].Forall Item.Proper := trivial
    refine ⟨forall_iff_forall_mem.1 ((forall_intercalate newline).2 fun s hs => ?_),
      (fieldsOf_program _).trans h.fields⟩
    exact h.proper _ (mem_flatMap.2 ⟨s, hs, by simp⟩)
  | term | type => exact h

theorem spellsThen_program (ss : List Statement) (others : List Spell) :
    spellsThen ([Item.stroke .newline].intercalate (ss.map fun s => [s.item])) others =
      spellsThen (statementsLayout ss) others := by
  induction ss with
  | nil => rfl
  | cons s ss ih =>
    cases ss with
    | nil => rfl
    | cons next ss => exact congrArg ((Node.statement s).spells ++ ·) ih

/-- The tokens of a proper phrase build it again. -/
theorem takes_phrase {c : Nat} (h : Sane (start.phrase v).layout c) :
    Takes start.nonterminal (spellsThen (start.phrase v).layout []) [] fun u =>
      (start.phrase u).bare = (start.phrase v).bare := by
  have printed : AllPrinted (start.phrase v).layout :=
    allPrinted_iff.2 fun m hm => Node.Proper.printed (h.proper _ hm)
  cases start with
  | program =>
    have newline : AllPrinted [Item.stroke .newline] := trivial
    have printed : AllPrinted (statementsLayout (Block.statements v)) := by
      simpa [statementsLayout, forall_flatMap] using (forall_intercalate newline).1 printed
    rw [show spellsThen (Start.program.phrase v).layout [] = _ from spellsThen_program _ _]
    exact takes_rule 0 rfl (.last (given_statements _ printed _) fun b hb _ =>
      ⟨b, rfl, congrArg Phrase.program (Block.Like.bare hb)⟩)
  | term =>
    have term : Expr.Printed v := printed
    exact term.whole.expr.imp fun u like => congrArg Phrase.term like
  | type =>
    have type : TypeExpr.Printed v := printed
    exact type.whole.imp fun u like => congrArg Phrase.type like

/-- What is read is proper, with a member access for each dot of the text. -/
theorem sane_of_read {content : Bytes} {p : Phrase} (h : read start content = .ok p) :
    Sane p.layout (Token.dots (Token.lexemes content)) := by
  obtain ⟨v, rfl, clean, builds⟩ := read_eq_ok_iff.1 h
  have pieces := words_tokenize content
  rw [← Token.dotsAmong_eq pieces]
  exact (builds.sane (Token.sound_of_faults clean pieces)).phrase

end Phrases

section RoundTrip

variable {start : Start} {content : Bytes} {n m : Phrase}

theorem lexemes_source {c : Nat} (h : Sane n.layout c) :
    Token.lexemes (ofString n.source) = Token.lexed n.strokes := by
  rw [← n.textOf_strokes]
  exact Token.lexemes_textOf h.legal (n.chain_strokes h.legal)

/-- The text of a phrase without blurs is read as the phrase. -/
theorem exists_read_source (h : read start content = .ok n) (plain : Token.blurred n.strokes = false) :
    ∃ m, read start (ofString n.source) = .ok m ∧ m.bare = n.bare := by
  have sane := sane_of_read h
  have lexemes : Token.lexemes (ofString n.source) = n.strokes.flatMap Stroke.lexemes := by
    rw [lexemes_source sane, Token.lexed_eq_flatMap plain]
  have clean : Token.faults (ofString n.source) = [] := by
    rw [Token.faults_eq_nil_iff, lexemes]
    intro l hl
    obtain ⟨s, hs, hl⟩ := mem_flatMap.1 hl
    exact Stroke.fault?_lexemes (sane.legal s hs) l hl
  have spells : (words (Token.tokenize (ofString n.source))).map Token.spell =
      spellsThen n.layout [] := by
    rw [spellsThen_eq, append_nil, Token.map_spell_eq (words_tokenize _), lexemes, filterMap_flatMap]
    exact flatMap_congr fun s hs => Stroke.spells_lexemes (sane.legal s hs)
  -- Other tokens than those it was read from, but building goes by their kinds and texts.
  obtain ⟨v, rfl, -, -⟩ := read_eq_ok_iff.1 h
  obtain ⟨tokens, rest, u, split, none, builds, same⟩ := takes_phrase sane _ spells
  rw [map_eq_nil_iff.1 none, append_nil] at split
  subst split
  exact ⟨_, read_eq_ok_iff.2 ⟨u, rfl, clean, builds⟩, same⟩

/-- A blur hides a dot, so a member access is lost. -/
theorem not_blurred_of_read_source (h : read start content = .ok n)
    (again : read start (ofString n.source) = .ok m) (same : m.bare = n.bare) :
    Token.blurred n.strokes = false := by
  have sane := sane_of_read h
  -- There are as many fields as the second reading found dots, and as the first one printed.
  have count : Token.fields m.strokes = Token.dots (Token.lexed n.strokes) := by
    rw [← lexemes_source sane]
    exact (sane_of_read again).fields
  have strokes : m.strokes = n.strokes := by
    rw [← m.strokes_bare, same, n.strokes_bare]
  have legal : ∀ s ∈ n.strokes, s.Legal := sane.legal
  have bound := Token.dots_lexed legal
  rw [← count, strokes] at bound
  by_contra blurred
  rw [if_pos (by simpa using blurred)] at bound
  omega

theorem not_blurred_iff : Token.blurred n.strokes = false ↔ ∀ a ∈ n.members, isLogMember a = false := by
  rw [← Bool.not_eq_true, n.blurred_iff_members]
  simp

/-- The text of what was read gives the same again, up to places, exactly if no member access in it
takes `log` of `console`. Then it has the same text, too. -/
theorem source_reads_back_iff (h : read start content = .ok n) :
    ((∃ m, read start (Bytes.ofString n.source) = .ok m ∧ m.bare = n.bare) ↔
      ∀ a ∈ n.members, isLogMember a = false) ∧ ((∀ a ∈ n.members, isLogMember a = false) →
      ∃ m, read start (Bytes.ofString n.source) = .ok m ∧ m.source = n.source) := by
  rw [← not_blurred_iff]
  refine ⟨⟨?_, exists_read_source h⟩, fun plain => ?_⟩
  · rintro ⟨m, again, same⟩
    exact not_blurred_of_read_source h again same
  · obtain ⟨m, again, same⟩ := exists_read_source h plain
    exact ⟨m, again, Phrase.source_eq_of_bare same⟩

/-- In brackets `console` has a member `log`, but not without them. Another member comes back. -/
theorem console_log_lost :
    (∃ n, read .term (Bytes.ofString "(console).log") = .ok n ∧ n.source = "console.log" ∧
      ¬ ∃ m, read .term (Bytes.ofString n.source) = .ok m ∧ m.bare = n.bare) ∧
    ∃ n, read .term (Bytes.ofString "console.a") = .ok n ∧
      ∃ m, read .term (Bytes.ofString n.source) = .ok m ∧ m.bare = n.bare := by
  have lost : (read .term (ofString "(console).log")).toOption.any
      (fun n => n.source == "console.log" && n.members.any isLogMember) = true := by
    decide +kernel
  have kept : (read .term (ofString "console.a")).toOption.any
      (fun n => !n.members.any isLogMember) = true := by
    decide +kernel
  constructor
  · obtain ⟨n, h, lost⟩ := exists_read lost
    simp only [Bool.and_eq_true, beq_iff_eq, List.any_eq_true] at lost
    obtain ⟨text, a, ha, log⟩ := lost
    refine ⟨n, h, text, fun again => ?_⟩
    have plain := (source_reads_back_iff h).1.1 again a ha
    rw [log] at plain
    cases plain
  · obtain ⟨n, h, kept⟩ := exists_read kept
    simp only [Bool.not_eq_true', List.any_eq_false, Bool.not_eq_true] at kept
    exact ⟨n, h, (source_reads_back_iff h).1.2 kept⟩

end RoundTrip

end Peano.Syntax
