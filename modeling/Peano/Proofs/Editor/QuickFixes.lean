import Peano.Editor.Analysis
import Peano.Proofs.Editor.Positions
import Peano.Proofs.KeywordFixes
import Peano.Proofs.Source.Origin
namespace Peano.Editor
open Diagnostic (Edit Fix applyEdits? apply?_keywordEdit flatMap_text_lexemes)
open Program (Compiled Exercise Options compile compile_bag checked_of_compile exists_found)
open Judgement (Record proposals_within)
open Source (Extent Span File dropMark dropMark_append count_joinLineEnds count_normalize eq_of_composed
  flagsOf isAscii_of_letters joinLineEnds joinLineEnds_around joinLineEnds_cons lineFeed_not_mem
  normalize_word single_of_apart starts_word)
open Syntax (Jump exits exitsFrom readProgram readProgram_eq_ok_iff readProgram_reword)
open Text (Starts composed composed_append composed_nil compose_eq isLetter small_of_isLetter)
open Token (Kind Lexeme lexemes lexemes_suffix starts_of_clean)
open Bytes (ofString)

section Keywords

variable {bs content : Bytes} {ls ls' : List Lexeme}

theorem composed_before (split : lexemes bs = ls ++ ls') (clean : ∀ l ∈ lexemes bs, l.fault? = none)
    (normal : ∀ l ∈ lexemes bs, composed l.text = l.text) :
    composed (ls.flatMap Lexeme.text) = ls.flatMap Lexeme.text := by
  induction ls generalizing bs with
  | nil => exact composed_nil
  | cons l ls ih =>
    obtain ⟨rest, tail, -⟩ := @lexemes_suffix bs [l] (ls ++ ls') split
    rw [split, List.cons_append, List.forall_mem_cons] at normal
    rw [split, List.cons_append, List.forall_mem_cons] at clean
    rw [tail] at normal clean
    have start : Starts (ls.flatMap Lexeme.text) := by
      have whole := flatMap_text_lexemes rest
      rw [← tail, List.flatMap_append] at whole
      intro b head
      refine starts_of_clean clean.2 b ?_
      rw [← whole, List.head?_append, head]
      rfl
    rw [List.flatMap_cons, composed_append start, normal.1, ih tail.symm clean.2 normal.2]

theorem exists_lexeme {offset : Nat} {e : Extent} (mem : e ∈ exitsFrom offset ls) : ∃ before l after,
    ls = before ++ l :: after ∧ l.isExit = true ∧ e.start = offset + (before.flatMap Lexeme.text).length ∧
      e.stop = e.start + l.text.length := by
  induction ls generalizing offset with
  | nil => cases mem
  | cons l ls ih =>
    have later : e ∈ exitsFrom (offset + l.text.length) ls → ∃ before l' after,
        l :: ls = before ++ l' :: after ∧ l'.isExit = true ∧
          e.start = offset + (before.flatMap Lexeme.text).length ∧ e.stop = e.start + l'.text.length := by
      intro mem
      obtain ⟨before, l', after, rfl, exit, start, stop⟩ := ih mem
      refine ⟨l :: before, l', after, rfl, exit, ?_, stop⟩
      rw [List.flatMap_cons, List.length_append]
      omega
    unfold exitsFrom at mem
    split at mem
    next exit =>
      rcases List.mem_cons.1 mem with rfl | mem
      · exact ⟨[], l, ls, rfl, exit, rfl, rfl⟩
      · exact later mem
    · exact later mem

theorem text_of_exit : ∀ l ∈ lexemes bs, l.isExit = true →
    ∃ k : Kind, k.isExit = true ∧ l.text = ofString k.name := by
  induction bs using Token.lexemes.induct with
  | case1 => simp [lexemes]
  | case2 b rest piece =>
    rename_i ih
    rw [Token.lexemes_cons]
    refine List.forall_mem_cons.2 ⟨fun exit => ?_, ih⟩
    obtain ⟨k, cls, exit⟩ := Lexeme.exists_kind exit
    exact ⟨k, exit, (Token.cut_exit exit cls).1⟩

theorem letters_of_exit {k : Kind} (exit : k.isExit = true) :
    (∀ c ∈ ofString k.name, isLetter c.toNat) ∧ ofString k.name ≠ [] := by
  revert exit
  cases k <;> decide +kernel

/-- The keyword of a statement, with what comes before and behind it. -/
structure KeywordAt (content : Bytes) (e : Extent) (pre word post : Bytes) : Prop where
  split : content = pre ++ (word ++ post)
  start : e.start = pre.length
  stop : e.stop = (pre ++ word).length
  letters : ∀ c ∈ word, isLetter c.toNat
  full : word ≠ []
  next : Starts post
  normal : composed content = content → composed pre = pre

theorem exists_keyword {e : Extent} (faultless : Token.faults content = []) (mem : e ∈ exits content) :
    ∃ pre word post, KeywordAt content e pre word post := by
  have clean := Token.faults_eq_nil_iff.1 faultless
  obtain ⟨before, l, after, split, exit, start, stop⟩ := exists_lexeme mem
  have here : l ∈ lexemes content := by
    rw [split]
    exact List.mem_append_right _ List.mem_cons_self
  obtain ⟨k, exit, text⟩ := text_of_exit l here exit
  obtain ⟨letters, full⟩ := letters_of_exit exit
  obtain ⟨rest, tail, whole⟩ := lexemes_suffix ((List.append_cons _ _ _).symm ▸ split)
  have next : Starts rest := by
    refine starts_of_clean fun l' mem => clean l' ?_
    rw [split, tail]
    exact List.mem_append_right _ (List.mem_cons_of_mem _ mem)
  rw [List.flatMap_append, List.flatMap_singleton, List.append_assoc] at whole
  rw [Nat.zero_add] at start
  refine ⟨before.flatMap Lexeme.text, l.text, rest, ?_⟩
  constructor
  case split => exact whole
  case start => exact start
  case stop => rw [stop, start, List.length_append]
  case letters => rwa [text]
  case full => rwa [text]
  case next => exact next
  case normal => exact fun normal => composed_before split clean (Token.composed_lexemes clean normal)

end Keywords

section Fixes

variable {id : UInt32} {path : String} {given : Bytes} {isVirtual : Bool} {options : Options}
  {exercise : Option Exercise} {c : Compiled}

def TextEdit.change (e : TextEdit) : Change := ⟨some e.range, ofString e.text⟩

theorem exists_fix {r : Range} {a : CodeAction} (mem : a ∈ codeActions c r) : ∃ d ∈ c.bag.items, ∃ fix ∈ d.fixes,
    a.title = fix.title ∧ a.edits = fix.edits.map fun e => ⟨spanRange c.file e.span, e.text⟩ := by
  obtain ⟨d, hd, mem⟩ := List.mem_flatMap.1 mem
  dsimp only at mem
  split at mem
  · obtain ⟨fix, hf, rfl⟩ := List.mem_map.1 mem
    exact ⟨d, hd, fix, hf, rfl, rfl⟩
  · cases mem

/-- A fix puts another keyword in the place of one. -/
theorem keyword_of_fix {file : File} (compiled : compile id file options exercise = .ok c) {d : Diagnostic}
    (mem : d ∈ c.bag.items) {fix : Fix} (fixes : fix ∈ d.fixes) : ∃ (e : Extent) (j : Jump),
      Token.faults file.content = [] ∧ e ∈ exits file.content ∧
        fix = Fix.replacement (e.inFile id) j.text := by
  obtain ⟨found, known, mem⟩ := exists_found compiled mem
  rcases known with ⟨e, rfl⟩ | ⟨program, e, parsed, checked, rfl⟩
  · rw [List.mem_singleton.1 mem] at fixes
    cases fixes
  · obtain ⟨goal, e', -, read, accepted, checked'⟩ := checked_of_compile compiled parsed
    obtain rfl := Option.some.inj (checked.symm.trans checked')
    obtain ⟨r, hr, made⟩ := List.mem_filterMap.1 mem
    cases r with
    | error place err text =>
      cases made
      obtain ⟨t, rfl, rfl⟩ := Option.map_eq_some_iff.1 (Option.mem_toList.1 fixes)
      have proposed : ∃ wanted, Record.proposal? (.error place err (some t)) = some (place, wanted, some t) := by
        cases err <;> exact ⟨_, rfl⟩
      obtain ⟨wanted, proposed⟩ := proposed
      have among := Multiset.mem_of_le (proposals_within accepted) (List.mem_filterMap.2 ⟨_, hr, proposed⟩)
      obtain ⟨l, hl, same⟩ := List.mem_map.1 among
      cases same
      obtain ⟨-, -, -, keywords⟩ := readProgram_reword .none read
      obtain ⟨e, he, same⟩ := List.mem_map.1 ((keywords .ret).subset (List.mem_map_of_mem hl))
      refine ⟨e, l.2, (readProgram_eq_ok_iff.1 read).1, he, ?_⟩
      rw [← same, (compile_bag compiled).1.1]
      rfl
    | _ => cases made

end Fixes

section Places

variable {id : UInt32} {given before pre word post after : Bytes} {e : Extent}

theorem KeywordAt.span (h : KeywordAt (Source.normalize given) e pre word post)
    (small : (Source.normalize given).length < 2 ^ 32) :
    (e.inFile id).start.toNat = pre.length ∧ (e.inFile id).stop.toNat = (pre ++ word).length := by
  have length := congrArg List.length h.split
  rw [← List.append_assoc, List.length_append, ← h.stop] at length
  have order : e.start ≤ e.stop := by
    rw [h.start, h.stop, List.length_append]
    exact Nat.le_add_right _ _
  have start : (e.inFile id).start.toNat = e.start := UInt32.toNat_ofNat_of_lt' (show e.start < 2 ^ 32 by omega)
  have stop : (e.inFile id).stop.toNat = e.stop := UInt32.toNat_ofNat_of_lt' (show e.stop < 2 ^ 32 by omega)
  exact ⟨start.trans h.start, stop.trans h.stop⟩

theorem KeywordAt.range {file : File} (content : file.content = Source.normalize given)
    (h : KeywordAt (Source.normalize given) e pre word post) (small : (Source.normalize given).length < 2 ^ 32) :
    spanRange file (e.inFile id) = ⟨endPosition pre, endPosition (pre ++ word)⟩ := by
  obtain ⟨start, stop⟩ := @span id _ _ _ _ _ h small
  rw [spanRange, filePosition_eq, filePosition_eq, content, start, stop]
  nth_rw 1 [h.split]
  nth_rw 1 [h.split]
  rw [List.take_left, ← List.append_assoc, List.take_left]

theorem KeywordAt.edited (h : KeywordAt (Source.normalize given) e pre word post)
    (small : (Source.normalize given).length < 2 ^ 32) (j : Jump) :
    applyEdits? (Source.normalize given) [⟨e.inFile id, j.text⟩] = some (pre ++ (ofString j.text ++ post)) := by
  have length := congrArg List.length h.split
  rw [List.length_append, List.length_append] at length
  have extent : e = ⟨pre.length, pre.length + word.length⟩ := by
    rw [← List.length_append, ← h.start, ← h.stop]
  have single : applyEdits? (Source.normalize given) [⟨e.inFile id, j.text⟩] =
      Edit.apply? (Source.normalize given) ⟨e.inFile id, j.text⟩ := by
    simp [applyEdits?]
  rw [single, h.split, extent]
  exact apply?_keywordEdit rfl (by omega)

theorem lastLine_joinLineEnds (bs : Bytes) : lastLine (joinLineEnds bs) = lastLine bs := by
  induction bs using Source.joinLineEnds.induct with
  | case1 rest ih =>
    have feeds : lastLine (13 :: Source.lineFeed :: rest) = lastLine rest := by
      rw [lastLine_cons_of_mem 13 List.mem_cons_self, lastLine_feed]
    rw [joinLineEnds, lastLine_feed, ih]
    exact feeds.symm
  | case2 b rest apart ih =>
    have same : Source.lineFeed ∈ joinLineEnds rest ↔ Source.lineFeed ∈ rest := by
      rw [← List.count_pos_iff, ← List.count_pos_iff, count_joinLineEnds]
    rw [joinLineEnds_cons (single_of_apart apart)]
    by_cases feed : Source.lineFeed ∈ rest
    · rw [lastLine_cons_of_mem b (same.2 feed), lastLine_cons_of_mem b feed, ih]
    · rw [lastLine_of_not_mem feed, lastLine_of_not_mem (mt same.1 feed)] at ih
      rw [ih]
  | case3 => rfl

/-- Dropping the carriage returns before line feeds moves nothing within a line. -/
theorem column_of_unchanged {isVirtual : Bool} (h : KeywordAt (Source.normalize given) e pre word post)
    (split : given = before ++ (word ++ after)) (origin : Source.normalize before = pre)
    (unmarked : (flagsOf isVirtual given).hadMark = false)
    (uncomposed : (flagsOf isVirtual given).wasComposed = false) : column before = column pre := by
  have starts : ∀ bs, Starts (word ++ bs) := starts_word h.letters h.full
  have unmarked : dropMark given = given := by simpa [flagsOf] using unmarked
  have uncomposed : composed (joinLineEnds given) = joinLineEnds given := by
    simpa [flagsOf, unmarked, compose_eq] using uncomposed
  have same : dropMark before = before := by
    rw [split, dropMark_append (starts after)] at unmarked
    exact List.append_cancel_right unmarked
  have content : Source.normalize given = joinLineEnds given := by
    rw [Source.normalize, unmarked, compose_eq, uncomposed]
  have joined : joinLineEnds given = joinLineEnds before ++ (word ++ joinLineEnds after) := by
    rw [split, joinLineEnds_around h.letters h.full]
  rw [Source.normalize, same, compose_eq] at origin
  have normal : composed pre = pre := h.normal (by rw [content, uncomposed])
  have line : joinLineEnds before = pre := by
    refine eq_of_composed (starts (joinLineEnds after)) (starts post) ?_ (origin.trans normal.symm)
    rw [← joined, ← content, ← h.split]
  rw [← line, column, column, lastLine_joinLineEnds]

/-- Where the text under a span of the content stands in what was given. -/
structure Origin (given : Bytes) (span : Span) (before word after : Bytes) : Prop where
  given_eq : given = before ++ (word ++ after)
  start_eq : Source.normalize before = (Source.normalize given).take span.start.toNat
  stop_eq : Source.normalize before ++ word = (Source.normalize given).take span.stop.toNat

end Places

section Actions

variable {id : UInt32} {path : String} {given : Bytes} {isVirtual : Bool} {options : Options}
  {exercise : Option Exercise} {c : Compiled}

/-- Every action that is offered for a text edits one word. The range of the edit starts at the word in the
text if and only if that has as many code units before it on its line as it has in the content. Then making
the edit and loading the result gives the content with the fix made. Texts that are loaded without a mark
being dropped or characters being composed are such. -/
theorem quickFix_edits_text (small : (Source.normalize given).length < 2 ^ 32)
    (compiled : compile id (File.make path given isVirtual) options exercise = .ok c) (r : Range) :
    ∀ a ∈ codeActions c r, ∃ d ∈ c.bag.items, ∃ fix ∈ d.fixes, ∃ edit before word after,
      fix.edits = [edit] ∧ a.title = fix.title ∧ a.edits = [⟨spanRange c.file edit.span, edit.text⟩] ∧
      Origin given edit.span before word after ∧
      (offsetIn given (spanRange c.file edit.span).start = before.length ↔
        column before = column (Source.normalize before)) ∧
      (column before = column (Source.normalize before) → applyEdits? (Source.normalize given) fix.edits =
        some (Source.normalize (applyChanges given (a.edits.map TextEdit.change)))) ∧
      ((flagsOf isVirtual given).hadMark = false → (flagsOf isVirtual given).wasComposed = false →
        column before = column (Source.normalize before)) := by
  intro a mem
  obtain ⟨d, hd, fix, hf, title, edits⟩ := exists_fix mem
  obtain ⟨e, j, clean, exit, rfl⟩ := keyword_of_fix compiled hd hf
  obtain ⟨pre, word, post, keyword⟩ := exists_keyword clean exit
  have content : (File.make path given isVirtual).content = Source.normalize given := rfl
  rw [content] at keyword
  obtain ⟨before, after, split, origin, exchange⟩ :=
    normalize_word keyword.letters keyword.full keyword.next keyword.split
  obtain ⟨start, stop⟩ := @KeywordAt.span id _ _ _ _ _ keyword small
  have file : c.file.content = Source.normalize given := by rw [(compile_bag compiled).1.2]; rfl
  have range := @KeywordAt.range id _ _ _ _ _ c.file file keyword small
  have lines : pre.count Source.lineFeed = before.count Source.lineFeed := by rw [← origin, count_normalize]
  have ascii := isAscii_of_letters keyword.letters
  have unbroken := lineFeed_not_mem keyword.letters
  refine ⟨d, hd, _, hf, ⟨e.inFile id, j.text⟩, before, word, after, rfl, title, edits, ⟨split, ?_, ?_⟩, ?_, ?_, ?_⟩
  · rw [origin, start, keyword.split, List.take_left]
  · rw [origin, stop, keyword.split, ← List.append_assoc, List.take_left]
  · rw [origin, range, split, endPosition, lines, eq_comm (a := column before)]
    obtain ⟨k, rest, rfl⟩ := List.exists_cons_of_ne_nil keyword.full
    have letter := keyword.letters k List.mem_cons_self
    refine offsetIn_eq_iff (small_of_isLetter letter) ?_ (column pre)
    rintro rfl
    exact unbroken List.mem_cons_self
  · rw [origin]
    intro aligned
    have first : endPosition pre = endPosition before := by rw [endPosition, endPosition, lines, aligned]
    have last : endPosition (pre ++ word) = endPosition (before ++ word) := by
      rw [endPosition_append ascii unbroken, endPosition_append ascii unbroken, lines, aligned]
    have made : applyChanges given (a.edits.map TextEdit.change) = before ++ (ofString j.text ++ after) := by
      rw [edits, ← apply_word ascii keyword.full unbroken before after, ← split, ← first, ← last, ← range]
      rfl
    obtain ⟨letters, full⟩ := letters_of_exit (Syntax.isExit_kind j)
    rw [Syntax.name_kind] at letters full
    rw [made, exchange _ letters full]
    exact keyword.edited small j
  · rw [origin]
    exact column_of_unchanged keyword split origin

end Actions

section WrongEnds

/-- A program whose only statement, at a place of a text, is of the wrong kind. -/
def wrongEnd (n : Nat) : Syntax.Block :=
  ⟨[.leave .stop (some ⟨n, n + 5⟩) (.numeral "0" (some ⟨n + 6, n + 7⟩)) (some ⟨n, n + 8⟩)],
    some ⟨n, n + 8⟩⟩

def wrongEndFix (n : UInt32) : Fix := .replacement ⟨0, n, n + 5⟩ "return"

def wrongEndFound (n : UInt32) : Diagnostic where
  severity := .error
  code := .wrongReturnKind
  message := "This block should end in a return statement, got \"break\""
  primary := ⟨0, n, n + 5⟩
  fixes := [wrongEndFix n]

theorem wrongEnd_compiled (file : File) {n : Nat} (read : readProgram file.content = .ok (wrongEnd n))
    (found : (match Judgement.elaborateProgram ⟨false, none⟩ Axiom.scope (wrongEnd n) with
      | .ok e => e.records.filterMap (Program.diagnostic? 0) == [wrongEndFound n.toUInt32]
      | .error _ => false) = true) :
    ∃ c, compile 0 file {} none = .ok c ∧ c.file = file ∧ c.bag.items = [wrongEndFound n.toUInt32] := by
  have checks : compile 0 file {} none = Program.checkProgram 0 file {} none (wrongEnd n) :=
    congrArg (Program.compileRead 0 file {} none) read
  rw [checks, Program.checkProgram]
  split at found
  next checked run =>
    rw [run]
    dsimp only
    rw [beq_iff_eq.1 found]
    exact ⟨_, rfl, rfl, List.mergeSort_singleton _⟩
  · cases found

theorem wrongEnd_actions {c : Compiled} {file : File} {n : UInt32} {r : Range} (same : c.file = file)
    (items : c.bag.items = [wrongEndFound n]) (meets : (spanRange file ⟨0, n, n + 5⟩).overlaps r = true) :
    (codeActions c r).map CodeAction.edits = [[⟨spanRange file ⟨0, n, n + 5⟩, "return"⟩]] := by
  subst same
  simp only [codeActions, items, List.flatMap_singleton, markerOf, wrongEndFound, meets]
  rfl

def lineEndText : Bytes := ofString "\r\nbreak 0;"

/-- A line end of two bytes shortens the content, but not the line of the edit. -/
theorem lineEnd_fix_edits : (Source.normalize lineEndText).length < 2 ^ 32 ∧
    ∃ c a, compile 0 (File.make "a.peano" lineEndText false) {} none = .ok c ∧
      codeActions c ⟨⟨0, 0⟩, ⟨9, 0⟩⟩ = [a] ∧
      Source.normalize (applyChanges lineEndText (a.edits.map TextEdit.change)) = Bytes.ofString "\nreturn 0;" := by
  have small : (Source.normalize lineEndText).length < 2 ^ 32 := by decide +kernel
  obtain ⟨c, compiled, same, items⟩ := wrongEnd_compiled (File.make "a.peano" lineEndText false) (n := 1)
    (Syntax.readProgram_plain (by decide +kernel)) (by rw [Axiom.scope_eq]; decide +kernel)
  have edits := wrongEnd_actions (r := ⟨⟨0, 0⟩, ⟨9, 0⟩⟩) same items (by decide +kernel)
  obtain ⟨a, actions, -⟩ := List.map_eq_singleton_iff.1 edits
  refine ⟨small, c, a, compiled, actions, ?_⟩
  obtain ⟨d, found, fix, offered, -, before, -, -, -, -, -, -, -, edited, unchanged⟩ :=
    quickFix_edits_text small compiled ⟨⟨0, 0⟩, ⟨9, 0⟩⟩ a (actions ▸ List.mem_singleton_self a)
  obtain rfl : d = wrongEndFound 1 := List.mem_singleton.1 (items ▸ found)
  obtain rfl : fix = wrongEndFix 1 := List.mem_singleton.1 offered
  have content : applyEdits? (Source.normalize lineEndText) (wrongEndFix 1).edits =
      some (ofString "\nreturn 0;") := by decide +kernel
  have columns := unchanged (by decide +kernel) (by decide +kernel)
  exact Option.some.inj ((edited columns).symm.trans content)

def markedText : Bytes := [0xEF, 0xBB, 0xBF] ++ ofString "break 0;"

/-- A byte order mark is one code unit of the text held and none of the content, so that the edit falls
one short of the word and leaves its last letter. -/
theorem marked_fix_misplaced : ∃ c a, compile 0 (File.make "a.peano" markedText false) {} none = .ok c ∧
      c.bag.items.flatMap Diagnostic.fixes = [wrongEndFix 0] ∧ codeActions c ⟨⟨0, 0⟩, ⟨9, 0⟩⟩ = [a] ∧
      applyEdits? (Source.normalize markedText) (wrongEndFix 0).edits = some (Bytes.ofString "return 0;") ∧
      Source.normalize (applyChanges markedText (a.edits.map TextEdit.change)) = Bytes.ofString "returnk 0;" := by
  obtain ⟨c, compiled, same, items⟩ := wrongEnd_compiled (File.make "a.peano" markedText false) (n := 0)
    (Syntax.readProgram_plain (by decide +kernel)) (by rw [Axiom.scope_eq]; decide +kernel)
  have edits := wrongEnd_actions (r := ⟨⟨0, 0⟩, ⟨9, 0⟩⟩) same items (by decide +kernel)
  obtain ⟨a, actions, only⟩ := List.map_eq_singleton_iff.1 edits
  refine ⟨c, a, compiled, by rw [items]; rfl, actions, by decide +kernel, ?_⟩
  rw [only]
  decide +kernel

end WrongEnds

end Peano.Editor
