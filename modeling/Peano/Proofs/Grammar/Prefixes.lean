import Peano.Proofs.EraseDups
import Peano.Proofs.Grammar.Walking
namespace Peano.Grammar
open List

variable {ν τ : Type} [DecidableEq ν] [Ord ν] {g : Grammar ν τ} {start : ν} {tokens : List τ}

/-- The tokens are the first ones of a text that the start symbol derives. -/
def BeginsSentence (g : Grammar ν τ) (start : ν) (tokens : List τ) : Prop :=
  ∃ rest tree, Derives g start (tokens ++ rest) tree

theorem BeginsSentence.mono {front : List τ} (h : BeginsSentence g start tokens) (part : front <+: tokens) :
    BeginsSentence g start front := by
  obtain ⟨others, rfl⟩ := part
  obtain ⟨rest, tree, derived⟩ := h
  exact ⟨others ++ rest, tree, by rwa [← append_assoc]⟩

section Sentences

def Fruitful (g : Grammar ν τ) : Prop :=
  ∀ (rule : Nat) (r : Rule ν τ), g.rules[rule]? = some r → ∀ x ∈ r.rhs, ∃ s trees, Reads g [x] s [] trees

theorem exists_reads {γ : List (Symbol ν τ)} (each : ∀ x ∈ γ, ∃ s trees, Reads g [x] s [] trees) :
    ∃ s trees, Reads g γ s [] trees := by
  induction γ with
  | nil => exact ⟨[], [], .nil⟩
  | cons x γ ih =>
    obtain ⟨s, ts, first⟩ := each x mem_cons_self
    obtain ⟨s', us, others⟩ := ih fun y hy => each y (mem_cons_of_mem x hy)
    exact ⟨s ++ s', ts ++ us, (first.extend s').append others⟩

/-- What may come next is part of a sentence, and the tokens before it are leaves of other parts. -/
theorem Awaited.sentence (fruitful : Fruitful g) {before s : List τ} {n : ν} {tree : Tree τ}
    (h : Awaited g start before n) (inner : Derives g n s tree) :
    ∃ after whole front back, Derives g start (before ++ (s ++ after)) whole ∧
      whole.terminals g (.nonterminal start) = front ++ (tree.terminals g (.nonterminal n) ++ back) ∧
      front.length = before.length := by
  induction h generalizing s tree with
  | start => exact ⟨[], tree, [], [], by simpa using inner, by simp, rfl⟩
  | @part before middle n m rule α β trees outer found reads ih =>
    obtain ⟨s', us, rest⟩ : ∃ s' us, Reads g β s' [] us :=
      exists_reads fun x hx => fruitful rule _ found x (by simp [hx])
    have node : Derives g n (middle ++ (s ++ s')) (.node rule (trees ++ tree :: us)) := by
      apply reads_node found
      apply (reads.extend _).append
      exact (Reads.extend inner s').append rest
    obtain ⟨after, whole, front, back, derived, leaves, length⟩ := ih node
    refine ⟨s' ++ after, whole, front ++ terminalsOf g α trees, terminalsOf g β us ++ back, ?_, ?_, ?_⟩
    · simpa using derived
    · rw [leaves, Tree.terminals, rhs_of_found found, reads.terminalsOf_append, terminalsOf]
      simp
    · have read := reads.yield
      rw [append_nil] at read
      rw [length_append, length, reads.length_terminals, length_append, read]

/-- An item is part of a sentence, which goes on from its column with the terminal after its dot. -/
theorem Valid.sentence (fruitful : Fruitful g) {j : Nat} {it : Item} (h : Valid g start tokens j it)
    (inside : j ≤ tokens.length) : ∃ after tree, Derives g start (tokens.take j ++ after) tree ∧
      ∀ label accepts, next? g it = some (.terminal label accepts) → after ≠ [] ∧
        (tree.terminals g (.nonterminal start))[j]? = some (.terminal label accepts) := by
  obtain ⟨⟨⟨r, found, -⟩, origin⟩, ⟨us, reads⟩, awaited⟩ := h
  have front := reads_between origin reads
  obtain ⟨s, vs, rest⟩ : ∃ s vs, Reads g ((g.rhs it.rule).drop it.dot) s [] vs := by
    rw [rhs_of_found found]
    exact exists_reads fun x hx => fruitful it.rule r found x (mem_of_mem_drop hx)
  have node : Derives g r.lhs ((tokens.take j).drop it.origin ++ s) (.node it.rule (us ++ vs)) := by
    have whole := (front.extend s).append rest
    rw [take_append_drop, rhs_of_found found] at whole
    exact reads_node found whole
  obtain ⟨after, tree, before, back, derived, leaves, length⟩ :=
    (awaited r.lhs (lhs?_of_found found)).sentence fruitful node
  have joined := take_append_drop_take tokens origin
  refine ⟨s ++ after, tree, ?_, fun label accepts next => ?_⟩
  · rwa [append_assoc, ← append_assoc, joined] at derived
  · obtain ⟨short, here⟩ := List.getElem?_eq_some_iff.1 next
    rw [drop_eq_getElem_cons short, here] at rest
    obtain ⟨t, s', ws, rfl, rfl, -, -⟩ := rest
    refine ⟨nofun, ?_⟩
    -- the leaves before the terminal are those before the item and those of its first symbols
    have place : (before ++ terminalsOf g ((g.rhs it.rule).take it.dot) us).length = j := by
      have read := front.yield
      rw [append_nil] at read
      rw [length_append, length, front.length_terminals, ← read, ← length_append, joined,
        length_take, Nat.min_eq_left inside]
    rw [leaves, Tree.terminals, ← take_append_drop it.dot (g.rhs it.rule), front.terminalsOf_append,
      drop_eq_getElem_cons short, here, terminalsOf, Tree.terminals]
    simp [← place]

end Sentences

section Charts

variable {tokens' : List τ} {columns : Array (Column ν)} {i : Nat}

theorem Valid.congr {j : Nat} {it : Item} (h : Valid g start tokens j it)
    (same : tokens.take j = tokens'.take j) (inside : j ≤ tokens'.length) : Valid g start tokens' j it := by
  obtain ⟨⟨fitting, origin⟩, ⟨ts, reads⟩, awaited⟩ := h
  refine ⟨⟨fitting, origin⟩, ⟨ts, ?_⟩, fun n lhs => ?_⟩
  · have front := (reads_between origin reads).extend (tokens'.drop j)
    rwa [same, ← drop_append_of_le_length (by rw [length_take]; omega),
      take_append_drop] at front
  · have earlier := awaited n lhs
    have shorter : tokens.take it.origin = tokens'.take it.origin := by
      rw [← Nat.min_eq_left origin, ← take_take, same, take_take]
    rwa [shorter] at earlier

/-- Columns depend only on the tokens before them. -/
theorem Charted.congr (chart : Charted g start tokens columns) (same : tokens.take i = tokens'.take i)
    (size : columns.size ≤ i + 1) (inside : i ≤ tokens'.length) : Charted g start tokens' columns where
  tidy := chart.tidy
  valid {j it} h := by
    have bound := h.lt
    refine (chart.valid h).congr ?_ (by omega)
    rw [← Nat.min_eq_left (show j ≤ i by omega), ← take_take, same, take_take]
  started := chart.started
  predicted := chart.predicted
  skipped := chart.skipped
  completed := chart.completed
  scanned {j it label accepts t} h later next token fits := by
    refine chart.scanned h later next ?_ fits
    rw [← getElem?_take_of_lt (show j < i by omega), same, getElem?_take_of_lt (by omega)]
    exact token

theorem mem_expected {c : Column ν} {label : String} : label ∈ c.expected g ↔
    ∃ it ∈ c.items, ∃ accepts, next? g it = some (.terminal label accepts) := by
  rw [Column.expected, (mergeSort_perm _ _).mem_iff, mem_eraseDups, mem_filterMap]
  simp only [Array.mem_toList_iff]
  refine exists_congr fun it => and_congr_right fun _ => ?_
  split
  next found =>
    simp [found]
  next other =>
    refine iff_of_false nofun ?_
    rintro ⟨accepts, next⟩
    exact other _ _ next

theorem sorted_expected (c : Column ν) : (c.expected g).Pairwise (· < ·) := by
  have ordered : (c.expected g).Pairwise (· ≤ ·) := by
    have sorted (labels : List String) :
        (labels.mergeSort (· ≤ ·)).Pairwise fun a b => decide (a ≤ b) = true :=
      pairwise_mergeSort (by simpa using fun _ _ _ => String.le_trans)
        (by simpa using String.le_total) labels
    exact (sorted _).imp of_decide_eq_true
  have once : (c.expected g).Nodup := (mergeSort_perm _ _).nodup_iff.2 (nodup_eraseDups _)
  exact (ordered.and once).imp fun ⟨le, ne⟩ => Std.lt_of_le_of_ne le ne

end Charts

section Refusal

/-- In some sentence a terminal with this label stands for the token after the tokens before it. -/
def MayFollow (g : Grammar ν τ) (start : ν) (before : List τ) (label : String) : Prop :=
  ∃ accepts t after tree, Derives g start (before ++ t :: after) tree ∧
    (tree.terminals g (.nonterminal start))[before.length]? = some (.terminal label accepts)

theorem fruitful_of (productive : ∀ n ∈ mentioned g.rules.toList, ∃ s tree, Derives g n s tree)
    (satisfiable : ∀ r ∈ g.rules, ∀ label accepts, .terminal label accepts ∈ r.rhs →
      ∃ t, accepts t) : Fruitful g := by
  intro rule r found x hx
  have mem : r ∈ g.rules := Array.mem_of_getElem? found
  cases x with
  | nonterminal n =>
    have named : n ∈ r.mentions := mem_cons_of_mem _ (mem_filterMap.2 ⟨_, hx, rfl⟩)
    have known : n ∈ mentioned g.rules.toList :=
      mem_eraseDups.2 (mem_flatMap.2 ⟨r, by simpa using mem, named⟩)
    obtain ⟨s, tree, derived⟩ := productive n known
    exact ⟨s, [tree], derived⟩
  | terminal label accepts =>
    obtain ⟨t, fits⟩ := satisfiable r mem label accepts hx
    exact ⟨[t], [.leaf t], .token fits .nil⟩

theorem recognize_unexpected_iff {i : Nat} {expected : List String} :
    recognize g start tokens = .error (.unexpected i expected) ↔ chart g start tokens = .error (i, expected) := by
  rw [recognize]
  split
  next failed => simp [failed]
  next made =>
    dsimp only
    split <;> simp [made]

variable [Std.TransOrd ν] [Std.LawfulEqOrd ν]

theorem parse_unexpected_iff {i : Nat} {expected : List String} :
    parse g start tokens = .error (.unexpected i expected) ↔ chart g start tokens = .error (i, expected) := by
  obtain ⟨f, known, failed⟩ | ⟨found, tree, known, parsed, -⟩ := parse_eq g start tokens
  · rw [← recognize_unexpected_iff, failed, known, Except.error.injEq, Except.error.injEq]
  · rw [← recognize_unexpected_iff, parsed, known]
    simp

theorem exists_mem_firstColumn {s : List τ} {tree : Tree τ} (h : Derives g start s tree) :
    ∃ x, x ∈ (firstColumn g start).items := by
  obtain ⟨rule, rhs, kids, -, found, -⟩ := Reads.node h
  have begun : Charted g start s (#[].push (firstColumn g start)) := charted_firstColumn
  exact ⟨_, in_last.1 (begun.started (by simp) rule ((mem_rulesFor g).2 ⟨rhs, found⟩))⟩

theorem begins_of_chart (fruitful : Fruitful g) (derives : ∃ s tree, Derives g start s tree)
    {columns : Array (Column ν)} (made : chart g start tokens = .ok columns) :
    BeginsSentence g start tokens := by
  obtain ⟨s, tree, derived⟩ := derives
  obtain ⟨earlier, last, chart, kept, ⟨made', full⟩ | ⟨t, failed, -⟩⟩ := built_chart g start tokens
  · obtain ⟨x, hx⟩ := kept (exists_mem_firstColumn derived)
    obtain ⟨after, tree, derived, -⟩ :=
      (chart.valid (in_last.2 hx)).sentence fruitful (Nat.le_of_eq full)
    rw [full, take_length] at derived
    exact ⟨after, tree, derived⟩
  · cases made.symm.trans failed

theorem stuck_of_chart (fruitful : Fruitful g) (derives : ∃ s tree, Derives g start s tree) {i : Nat}
    {expected : List String} (failed : chart g start tokens = .error (i, expected)) :
    BeginsSentence g start (tokens.take i) ∧ ¬ BeginsSentence g start (tokens.take (i + 1)) ∧
      expected.Pairwise (· < ·) ∧ ∀ label, label ∈ expected ↔ MayFollow g start (tokens.take i) label := by
  obtain ⟨s, tree, derived⟩ := derives
  obtain ⟨earlier, last, chart, kept, ⟨made, -⟩ | ⟨t, failed', token, stuck⟩⟩ := built_chart g start tokens
  · cases failed.symm.trans made
  cases failed.symm.trans failed'
  obtain ⟨inside, here⟩ := List.getElem?_eq_some_iff.1 token
  have length : (tokens.take earlier.size).length = earlier.size := by
    rw [length_take, Nat.min_eq_left (Nat.le_of_lt inside)]
  -- the columns are the same for every text with these first tokens
  have elsewhere (t' : τ) (after : List τ) :
      Charted g start (tokens.take earlier.size ++ t' :: after) (earlier.push last) := by
    apply chart.congr (i := earlier.size)
    · rw [take_left' length]
    · exact Nat.le_of_eq (Array.size_push last)
    · rw [length_append]
      omega
  have next_token (t' : τ) (after : List τ) :
      (tokens.take earlier.size ++ t' :: after)[earlier.size]? = some t' := by
    rw [getElem?_append_right (Nat.le_of_eq length), length, Nat.sub_self]
    rfl
  refine ⟨?_, ?_, sorted_expected last, fun label => ?_⟩
  · obtain ⟨x, hx⟩ := kept (exists_mem_firstColumn derived)
    obtain ⟨after, tree, derived, -⟩ :=
      (chart.valid (in_last.2 hx)).sentence fruitful (Nat.le_of_lt inside)
    exact ⟨after, tree, derived⟩
  · rintro ⟨rest, tree, derived⟩
    rw [← take_append_getElem inside, here, append_assoc] at derived
    obtain ⟨x, label, accepts, there, next, fits, -⟩ :=
      (elsewhere t rest).leaf derived (by simp) (next_token t rest)
    rw [stuck_of_scan stuck there next] at fits
    cases fits
  · rw [mem_expected]
    constructor
    · rintro ⟨it, hit, accepts, next⟩
      obtain ⟨after, tree, derived, leaf⟩ :=
        (chart.valid (in_last.2 hit)).sentence fruitful (Nat.le_of_lt inside)
      obtain ⟨more, found⟩ := leaf label accepts next
      obtain ⟨t', rest, rfl⟩ := exists_cons_of_ne_nil more
      exact ⟨accepts, t', rest, tree, derived, by rw [length, found]⟩
    · rintro ⟨accepts, t', after, tree, derived, leaf⟩
      obtain ⟨x, label', accepts', there, next, -, leaf'⟩ :=
        (elsewhere t' after).leaf derived (by simp) (next_token t' after)
      rw [length] at leaf
      cases leaf.symm.trans leaf'
      exact ⟨x, in_last.1 there, accepts, next⟩

/-- Let every nonterminal derive some tokens and every terminal accept one. Tokens are refused at the
first of them that no sentence has there after those before it. Expected are then the labels of the
terminals that may follow instead, in order and each of them once. Tokens are unfinished if they begin
a sentence but are none. -/
theorem refused_at_first_misfit {ν τ : Type} [DecidableEq ν] [Ord ν] [Std.TransOrd ν]
    [Std.LawfulEqOrd ν] (g : Grammar ν τ) (start : ν) (tokens : List τ)
    (productive : ∀ n ∈ mentioned g.rules.toList, ∃ s tree, Derives g n s tree)
    (satisfiable : ∀ r ∈ g.rules, ∀ label accepts, .terminal label accepts ∈ r.rhs → ∃ t, accepts t = true)
    (known : start ∈ mentioned g.rules.toList) :
    (∀ i, (∃ expected, parse g start tokens = .error (.unexpected i expected)) ↔
      BeginsSentence g start (tokens.take i) ∧ ¬ BeginsSentence g start (tokens.take (i + 1))) ∧
    (∀ i expected, parse g start tokens = .error (.unexpected i expected) →
      expected.Pairwise (· < ·) ∧ ∀ label, label ∈ expected ↔ MayFollow g start (tokens.take i) label) ∧
    (parse g start tokens = .error .unfinished ↔
      BeginsSentence g start tokens ∧ ¬ ∃ tree, Derives g start tokens tree) := by
  have fruitful := fruitful_of productive satisfiable
  have derives := productive start known
  have answer := parse_answer g start tokens
  have stuck {i : Nat} {expected : List String}
      (h : parse g start tokens = .error (.unexpected i expected)) :=
    stuck_of_chart fruitful derives (parse_unexpected_iff.1 h)
  -- every answer but an unexpected token is about the start of a sentence
  have begins (h : ∀ i expected, parse g start tokens ≠ .error (.unexpected i expected)) :
      BeginsSentence g start tokens := by
    cases made : chart g start tokens with
    | ok columns => exact begins_of_chart fruitful derives made
    | error e => exact (h e.1 e.2 (parse_unexpected_iff.2 made)).elim
  refine ⟨fun i => ⟨fun ⟨expected, h⟩ => ⟨(stuck h).1, (stuck h).2.1⟩, ?_⟩,
    fun i expected h => (stuck h).2.2, ?_, ?_⟩
  · rintro ⟨fits, misfit⟩
    by_contra other
    by_cases refused : ∃ j expected, parse g start tokens = .error (.unexpected j expected)
    · obtain ⟨j, expected, h⟩ := refused
      obtain ⟨fits', misfit', -⟩ := stuck h
      rcases Nat.lt_trichotomy i j with less | rfl | more
      · exact misfit <| fits'.mono <| take_prefix_take_left less
      · exact other ⟨expected, h⟩
      · exact misfit' <| fits.mono <| take_prefix_take_left more
    · exact misfit <| (begins fun j expected h => refused ⟨j, expected, h⟩).mono <| take_prefix ..
  · intro unfinished
    have refused (i : Nat) (expected : List String) :
        parse g start tokens ≠ .error (.unexpected i expected) := by
      rw [unfinished]
      exact nofun
    rw [unfinished] at answer
    exact ⟨begins refused, fun ⟨tree, derived⟩ => answer tree derived⟩
  · rintro ⟨begun, none⟩
    match h : parse g start tokens with
    | .ok tree =>
      rw [h] at answer
      exact (none ⟨tree, answer.1⟩).elim
    | .error .ambiguous =>
      rw [h] at answer
      obtain ⟨tree, derived, -⟩ := answer
      exact (none ⟨tree, derived⟩).elim
    | .error .unfinished => rfl
    | .error (.stray s) =>
      rw [h] at answer
      exact answer.elim
    | .error (.unexpected i expected) => exact ((stuck h).2.1 <| begun.mono <| take_prefix ..).elim

/-- Sums of numbers with or without a sign. -/
def sums : List (Rule String Char) :=
  [⟨"E", [.nonterminal "E", .terminal "+" (· == '+'), .nonterminal "T"]⟩, ⟨"E", [.nonterminal "T"]⟩,
   ⟨"T", [.nonterminal "S", .terminal "digit" (·.isDigit)]⟩,
   ⟨"T", [.terminal "(" (· == '('), .nonterminal "E", .terminal ")" (· == ')')]⟩,
   ⟨"S", []⟩, ⟨"S", [.terminal "-" (· == '-')]⟩]

def refusedAt? {ν τ : Type} : Except (Failure ν) (Tree τ) → Option Nat
  | .error (.unexpected i _) => some i
  | _ => none

theorem eq_unexpected {ν τ : Type} {answer : Except (Failure ν) (Tree τ)} {i : Nat}
    (h : refusedAt? answer = some i) : ∃ expected, answer = .error (.unexpected i expected) := by
  unfold refusedAt? at h
  split at h
  · cases h
    exact ⟨_, rfl⟩
  · cases h

theorem sums_refused : defect? sums = none ∧ "E" ∈ mentioned sums ∧
    BeginsSentence (ofRules sums) "E" ['1', '+'] ∧ ¬ BeginsSentence (ofRules sums) "E" ['1', '+', ')'] ∧
    ∃ expected, parse (ofRules sums) "E" ['1', '+', ')'] = .error (.unexpected 2 expected) ∧
      expected.Pairwise (· < ·) ∧
      ∀ label, label ∈ expected ↔ MayFollow (ofRules sums) "E" ['1', '+'] label := by
  have sign : Derives (ofRules sums) "S" [] (.node 4 []) := reads_node rfl .nil
  have term : Derives (ofRules sums) "T" ['1'] (.node 2 [.node 4 [], .leaf '1']) :=
    reads_node rfl ((Reads.extend sign ['1']).append (.token rfl .nil))
  have sum : Derives (ofRules sums) "E" ['1'] (.node 1 [.node 2 [.node 4 [], .leaf '1']]) :=
    reads_node rfl term
  have names : mentioned (ofRules sums).rules.toList = ["E", "T", "S"] := by decide
  have satisfiable : ∀ r ∈ (ofRules sums).rules, ∀ label accepts, .terminal label accepts ∈ r.rhs →
      ∃ t, accepts t = true := by
    intro r mem label accepts here
    simp only [ofRules, sums, mem_toArray, mem_cons, not_mem_nil, or_false] at mem
    rcases mem with rfl | rfl | rfl | rfl | rfl | rfl <;> simp at here
    · exact ⟨'+', by simp [here]⟩
    · exact ⟨'1', by simp [here]⟩
    · rcases here with here | here
      · exact ⟨'(', by simp [here]⟩
      · exact ⟨')', by simp [here]⟩
    · exact ⟨'-', by simp [here]⟩
  obtain ⟨at_index, listed, -⟩ := refused_at_first_misfit (ofRules sums) "E" ['1', '+', ')']
    (by rw [names]; simpa using ⟨⟨_, _, sum⟩, ⟨_, _, term⟩, _, _, sign⟩) satisfiable (by rw [names]; decide)
  obtain ⟨expected, refused⟩ : ∃ expected, parse (ofRules sums) "E" ['1', '+', ')'] =
      .error (.unexpected 2 expected) := eq_unexpected (by decide +kernel)
  obtain ⟨fits, misfit⟩ := (at_index 2).1 ⟨expected, refused⟩
  exact ⟨by decide +kernel, by decide, fits, misfit, expected, refused, listed 2 expected refused⟩

end Refusal

end Peano.Grammar
