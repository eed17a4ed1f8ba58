import Mathlib.Algebra.GroupWithZero.Nat
import Peano.Proofs.Grammar.Walking
namespace Peano.Grammar
open List

section Values

variable {τ α ε : Type}

inductive Actions.Makes (acts : Actions τ α ε) (rule : Nat) : List α → α → Prop
  | action {f : List α → Except ε α} {values : List α} {v : α}
      (found : acts.action? rule = some f) (made : f values = .ok v) : acts.Makes rule values v
  | only {v : α} (found : acts.action? rule = none) : acts.Makes rule [v] v
  | several {values : List α} (found : acts.action? rule = none) (number : values.length ≠ 1) :
    acts.Makes rule values (acts.list values)

inductive Tree.Has (acts : Actions τ α ε) : Tree τ → α → Prop
  | leaf {t : τ} : Has acts (.leaf t) (acts.token t)
  | node {rule : Nat} {kids : List (Tree τ)} {values : List α} {v : α}
      (parts : List.Forall₂ (Has acts) kids values) (made : acts.Makes rule values v) :
      Has acts (.node rule kids) v

variable {acts : Actions τ α ε}

theorem Actions.makes_of_node {rule : Nat} {values : List α} {v : α}
    (h : acts.node rule values = .ok v) : acts.Makes rule values v := by
  unfold Actions.node at h
  split at h
  next f found => exact .action found h
  next w found =>
    cases h
    exact .only found
  next number found =>
    cases h
    apply Makes.several number
    intro one
    obtain ⟨w, rfl⟩ := length_eq_one_iff.1 one
    exact found w rfl

theorem bind_eq_ok {β : Type} {x : Except ε α} {f : α → Except ε β} {b : β} :
    x >>= f = .ok b ↔ ∃ a, x = .ok a ∧ f a = .ok b := by
  cases x with
  | ok a => simp [bind, Except.bind]
  | error e => simp [bind, Except.bind]

mutual

theorem Tree.has_of_value {t : Tree τ} {v : α} (h : t.value acts = .ok v) : t.Has acts v := by
  match t with
  | .leaf t =>
    cases h
    exact .leaf
  | .node rule kids =>
    obtain ⟨values, found, made⟩ := bind_eq_ok.1 h
    exact .node (Tree.have_of_values found) (Actions.makes_of_node made)

theorem Tree.have_of_values {ts : List (Tree τ)} {vs : List α} (h : Tree.values acts ts = .ok vs) :
    List.Forall₂ (Tree.Has acts) ts vs := by
  match ts with
  | [] =>
    cases h
    exact .nil
  | t :: rest =>
    obtain ⟨v, found, h⟩ := bind_eq_ok.1 h
    obtain ⟨us, others, h⟩ := bind_eq_ok.1 h
    cases h
    exact .cons (Tree.has_of_value found) (Tree.have_of_values others)

end

def Actions.Total (acts : Actions τ α ε) : Prop :=
  ∀ rule f, acts.action? rule = some f → ∀ values, ∃ v, f values = .ok v

theorem Actions.Total.node (total : acts.Total) (rule : Nat) (values : List α) :
    ∃ v, acts.node rule values = .ok v := by
  unfold Actions.node
  split
  next _ f found => exact total rule f found _
  next w _ => exact ⟨w, rfl⟩
  next => exact ⟨acts.list _, rfl⟩

mutual

theorem Tree.exists_value (total : acts.Total) (t : Tree τ) : ∃ v, t.value acts = .ok v := by
  match t with
  | .leaf t => exact ⟨acts.token t, rfl⟩
  | .node rule kids =>
    obtain ⟨vs, found⟩ := Tree.exists_values total kids
    obtain ⟨v, made⟩ := total.node rule vs
    exact ⟨v, by rw [Tree.value, found]; exact made⟩

theorem Tree.exists_values (total : acts.Total) (ts : List (Tree τ)) : ∃ vs, Tree.values acts ts = .ok vs := by
  match ts with
  | [] => exact ⟨[], rfl⟩
  | t :: rest =>
    obtain ⟨v, found⟩ := Tree.exists_value total t
    obtain ⟨vs, others⟩ := Tree.exists_values total rest
    exact ⟨v :: vs, by rw [Tree.values, found, others]; rfl⟩

end

end Values

section Interpretation

variable {ν τ α ε : Type} [DecidableEq ν] [Ord ν] [Std.TransOrd ν] [Std.LawfulEqOrd ν]
  {acts : Actions τ α ε}

/-- Actions that never fail leave the answers that a tree is found or that there is not exactly one. -/
theorem interpret_cases (total : acts.Total) (g : Grammar ν τ) (start : ν) (tokens : List τ) :
    (∃ f, parse g start tokens = .error f ∧ g.interpret acts start tokens = .error (.failure f)) ∨
      ∃ tree v, parse g start tokens = .ok tree ∧ g.interpret acts start tokens = .ok v ∧ tree.Has acts v := by
  rw [interpret_eq]
  match parse g start tokens with
  | .error f => exact .inl ⟨f, rfl, rfl⟩
  | .ok tree =>
    obtain ⟨v, value⟩ := tree.exists_value total
    exact .inr ⟨tree, v, rfl, by simp only [value]; rfl, Tree.has_of_value value⟩

/-- A value comes from the only derivation of the tokens, from its leaves up. Tokens with two
derivations, or endlessly many, are ambiguous. The walk along the derivation always ends and never goes
astray, and actions that do not fail by themselves never make the interpretation fail. Where left
recursion is simple, every only derivation has its value. -/
theorem interprets_only_derivation (g : Grammar ν τ) (acts : Actions τ α ε) (total : acts.Total)
    (start : ν) (tokens : List τ) :
    (∀ v, g.interpret acts start tokens = .ok v → ∃ tree, g.Derives start tokens tree ∧
      (∀ t, g.Derives start tokens t → t = tree) ∧ tree.Has acts v) ∧
    ((∃ t u, g.Derives start tokens t ∧ g.Derives start tokens u ∧ t ≠ u) →
      g.interpret acts start tokens = .error (.failure .ambiguous)) ∧
    (∀ e, g.interpret acts start tokens ≠ .error (.action e)) ∧
    (∀ s, g.interpret acts start tokens ≠ .error (.failure (.stray s))) ∧
    (g.LeftSimple → ∀ tree, g.Derives start tokens tree → (∀ t, g.Derives start tokens t → t = tree) →
      ∃ v, g.interpret acts start tokens = .ok v ∧ tree.Has acts v) := by
  have answer := parse_answer g start tokens
  obtain ⟨f, failed, same⟩ | ⟨tree, v, parsed, made, has⟩ :=
    interpret_cases total g start tokens
  · rw [failed] at answer
    rw [same]
    refine ⟨nofun, ?_, nofun, fun s astray => ?_, fun simple tree derived unique => ?_⟩
    · rintro ⟨t, u, ht, hu, differ⟩
      match f with
      | .ambiguous => rfl
      | .stray s => exact answer.elim
      | .unfinished | .unexpected _ _ => exact (answer t ht).elim
    · cases astray
      exact answer
    · match f with
      | .ambiguous =>
        obtain ⟨t, ht, other⟩ := answer
        obtain ⟨u, hu, differ⟩ := other simple
        exact (differ ((unique u hu).trans (unique t ht).symm)).elim
      | .stray s => exact answer.elim
      | .unfinished | .unexpected _ _ => exact (answer tree derived).elim
  · rw [parsed] at answer
    rw [made]
    refine ⟨fun w same => ?_, ?_, nofun, nofun, fun _ t derived _ => ⟨v, rfl, ?_⟩⟩
    · cases same
      exact ⟨tree, answer.1, answer.2, has⟩
    · rintro ⟨t, u, ht, hu, differ⟩
      exact (differ ((answer.2 t ht).trans (answer.2 u hu).symm)).elim
    · rwa [answer.2 t derived]

/-- Strokes are counted, and a circle goes round in circles. -/
def tally : List (Rule String Char) :=
  [⟨"N", [.terminal "stroke" (· == 'i')]⟩,
   ⟨"N", [.nonterminal "N", .terminal "stroke" (· == 'i')]⟩,
   ⟨"N", [.nonterminal "O"]⟩, ⟨"O", [.nonterminal "O"]⟩, ⟨"O", [.terminal "circle" (· == 'o')]⟩]

def tallyActions : Actions Char Nat Empty where
  token c := if c == 'i' then 1 else 0
  list := List.sum
  action? _ := none

theorem strokes_counted : defect? tally = none ∧
    (ofRules tally).interpret tallyActions "N" ['i', 'i', 'i'] = .ok 3 ∧
    (∃ tree, (ofRules tally).Derives "N" ['i', 'i', 'i'] tree ∧
      (∀ t, (ofRules tally).Derives "N" ['i', 'i', 'i'] t → t = tree) ∧ tree.Has tallyActions 3) ∧
    (ofRules tally).interpret tallyActions "N" ['o'] = .error (.failure .ambiguous) := by
  have total : tallyActions.Total := by
    intro rule f found
    cases found
  have number : (ofRules tally).rules[2]? = some ⟨"N", [.nonterminal "O"]⟩ := rfl
  have round : (ofRules tally).rules[3]? = some ⟨"O", [.nonterminal "O"]⟩ := rfl
  have circle : (ofRules tally).rules[4]? = some ⟨"O", [.terminal "circle" (· == 'o')]⟩ := rfl
  have short : Reads (ofRules tally) [.nonterminal "O"] ['o'] [] [.node 4 [.leaf 'o']] :=
    reads_node circle (.token rfl .nil)
  have three : (ofRules tally).interpret tallyActions "N" ['i', 'i', 'i'] = .ok 3 := by decide +kernel
  refine ⟨by decide +kernel, three, ?_, ?_⟩
  · exact (interprets_only_derivation _ tallyActions total "N" ['i', 'i', 'i']).1 3 three
  · apply (interprets_only_derivation (ofRules tally) tallyActions total "N" ['o']).2.1
    refine ⟨_, _, reads_node number short, reads_node number (reads_node round short), ?_⟩
    simp

/-- Tokens that are called ambiguous have two derivations, if left recursion by way of other
nonterminals leaves nothing to read. -/
theorem ambiguous_derives_twice (g : Grammar ν τ) (simple : g.LeftSimple) (start : ν)
    (tokens : List τ) (ambiguous : parse g start tokens = .error .ambiguous) :
    ∃ t u, g.Derives start tokens t ∧ g.Derives start tokens u ∧ u ≠ t := by
  have answer := parse_answer g start tokens
  rw [ambiguous] at answer
  obtain ⟨t, ht, other⟩ := answer
  obtain ⟨u, hu, differ⟩ := other simple
  exact ⟨t, u, ht, hu, differ⟩

/-- Sums of letters, where a letter may be renamed for ever. -/
def renamedSums : List (Rule String Char) :=
  [⟨"E", [.nonterminal "E", .terminal "plus" (· == '+'), .nonterminal "E"]⟩,
   ⟨"E", [.nonterminal "A"]⟩, ⟨"A", [.nonterminal "B"]⟩, ⟨"A", [.terminal "letter" (· == 'a')]⟩,
   ⟨"B", [.nonterminal "A"]⟩]

theorem renamedSums_leftSimple : (ofRules renamedSums).LeftSimple := by
  intro n m α β mem _ differ _
  replace mem : (⟨n, α ++ .nonterminal m :: β⟩ : Rule String Char) ∈ renamedSums := mem
  have single : (α ++ .nonterminal m :: β).length = 1 → β = [] := by
    intro one
    apply eq_nil_of_length_eq_zero
    rw [length_append, length_cons] at one
    omega
  have inside : Symbol.nonterminal m ∈ α ++ .nonterminal m :: β := by simp
  simp only [renamedSums, mem_cons, not_mem_nil, or_false, Rule.mk.injEq] at mem
  rcases mem with ⟨rfl, rhs⟩ | ⟨-, rhs⟩ | ⟨-, rhs⟩ | ⟨-, rhs⟩ | ⟨-, rhs⟩
  · -- The only rule that goes on after a nonterminal has no other one than its left-hand side.
    rw [rhs] at inside
    have same : m = "E" := by simpa using inside
    exact (differ same.symm).elim
  all_goals
    rw [single (by rw [rhs]; rfl)]
    rfl

theorem sum_derives_twice : (ofRules renamedSums).LeftSimple ∧
    ∃ t u, (ofRules renamedSums).Derives "E" ['a', '+', 'a'] t ∧
      (ofRules renamedSums).Derives "E" ['a', '+', 'a'] u ∧ u ≠ t :=
  ⟨renamedSums_leftSimple, ambiguous_derives_twice _ renamedSums_leftSimple "E" _
    (eq_error (by decide +kernel))⟩

/-- Two nonterminals that begin with each other, one of which goes on. -/
def detour : List (Rule String Char) :=
  [⟨"S", [.nonterminal "A", .terminal "y" (· == 'y')]⟩,
   ⟨"S", [.nonterminal "B", .terminal "z" (· == 'z')]⟩,
   ⟨"A", [.nonterminal "B", .terminal "x" (· == 'x')]⟩, ⟨"A", [.terminal "a" (· == 'a')]⟩,
   ⟨"B", [.nonterminal "A"]⟩]

section Detour

variable {s r : List Char} {t : Tree Char}

theorem detour_rule {rule : Nat} {n : String} {rhs : List (Symbol String Char)}
    (found : (ofRules detour).rules[rule]? = some ⟨n, rhs⟩) : detour[rule]? = some ⟨n, rhs⟩ := by
  rwa [← getElem?_toArray]

/-- The rule by way of the other nonterminal needs a letter that is missing. -/
theorem detour_readsA (missing : 'x' ∉ s) (h : Reads (ofRules detour) [.nonterminal "A"] s r [t]) :
    s = 'a' :: r ∧ t = .node 3 [.leaf 'a'] := by
  obtain ⟨rule, rhs, kids, rfl, found, inner⟩ := h.node
  replace found := detour_rule found
  match rule with
  | 2 =>
    cases found
    obtain ⟨m, u, us, -, first, last⟩ := reads_nonterminal.1 inner
    obtain ⟨c, s', -, rfl, -, fits, -⟩ := reads_terminal.1 last
    have read := first.yield
    rw [beq_iff_eq] at fits
    subst fits
    exact (missing (by simp [read])).elim
  | 3 =>
    cases found
    obtain ⟨c, s', us, rfl, rfl, fits, rest⟩ := reads_terminal.1 inner
    obtain ⟨rfl, rfl⟩ := reads_nil.1 rest
    rw [beq_iff_eq] at fits
    subst fits
    exact ⟨rfl, rfl⟩
  | 0 | 1 | 4 => simp [detour] at found
  | rule + 5 => simp [detour] at found

theorem detour_readsB (missing : 'x' ∉ s) (h : Reads (ofRules detour) [.nonterminal "B"] s r [t]) :
    s = 'a' :: r ∧ t = .node 4 [.node 3 [.leaf 'a']] := by
  obtain ⟨rule, rhs, kids, rfl, found, inner⟩ := h.node
  replace found := detour_rule found
  match rule with
  | 4 =>
    cases found
    obtain ⟨u, rfl⟩ := inner.single
    obtain ⟨rfl, rfl⟩ := detour_readsA missing inner
    exact ⟨rfl, rfl⟩
  | 0 | 1 | 2 | 3 => simp [detour] at found
  | rule + 5 => simp [detour] at found

/-- The stretch of `B` is looked at inside `A`, while `A` is pending, and counts as many from then
on. But the rule that looked there fails. -/
theorem detour_derives_once : defect? detour = none ∧
    parse (ofRules detour) "S" ['a', 'z'] = .error .ambiguous ∧
    ∃ tree, (ofRules detour).Derives "S" ['a', 'z'] tree ∧
      ∀ t, (ofRules detour).Derives "S" ['a', 'z'] t → t = tree := by
  have missing : 'x' ∉ ['a', 'z'] := by decide
  have second : (ofRules detour).rules[1]? =
    some ⟨"S", [.nonterminal "B", .terminal "z" (· == 'z')]⟩ := rfl
  have direct : (ofRules detour).rules[3]? = some ⟨"A", [.terminal "a" (· == 'a')]⟩ := rfl
  have other : (ofRules detour).rules[4]? = some ⟨"B", [.nonterminal "A"]⟩ := rfl
  refine ⟨by decide +kernel, eq_error (by decide +kernel), ?_⟩
  refine ⟨.node 1 [.node 4 [.node 3 [.leaf 'a']], .leaf 'z'], ?_, fun t h => ?_⟩
  · apply reads_node second
    apply Reads.append (reads_node other (reads_node direct (.token rfl .nil)))
    exact .token rfl .nil
  · obtain ⟨rule, rhs, kids, rfl, found, inner⟩ := h.node
    replace found := detour_rule found
    match rule with
    | 0 =>
      cases found
      obtain ⟨m, u, us, -, first, last⟩ := reads_nonterminal.1 inner
      obtain ⟨rest, -⟩ := detour_readsA missing first
      cases rest
      obtain ⟨c, s', -, same, -, fits, -⟩ := reads_terminal.1 last
      cases same
      exact absurd fits (by decide)
    | 1 =>
      cases found
      obtain ⟨m, u, us, rfl, first, last⟩ := reads_nonterminal.1 inner
      obtain ⟨rest, rfl⟩ := detour_readsB missing first
      cases rest
      obtain ⟨c, s', vs, same, rfl, -, done⟩ := reads_terminal.1 last
      cases same
      obtain ⟨-, rfl⟩ := reads_nil.1 done
      rfl
    | 2 | 3 | 4 => simp [detour] at found
    | rule + 5 => simp [detour] at found

end Detour

end Interpretation
end Peano.Grammar
