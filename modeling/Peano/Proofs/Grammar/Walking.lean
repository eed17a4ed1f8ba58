import Peano.Proofs.Grammar.Counting
namespace Peano.Grammar
open List

section Values

variable {τ α ε : Type}

mutual

/-- The value of a tree, the kids of a node before it and from left to right. The first failure ends
it. -/
def Tree.value (acts : Actions τ α ε) : Tree τ → Except ε α
  | .leaf t => pure (acts.token t)
  | .node rule kids => do acts.node rule (← Tree.values acts kids)

def Tree.values (acts : Actions τ α ε) : List (Tree τ) → Except ε (List α)
  | [] => pure []
  | t :: rest => do
    let v ← t.value acts
    let vs ← Tree.values acts rest
    pure (v :: vs)

end

mutual

theorem Tree.value_treeActions (t : Tree τ) : t.value treeActions = .ok t := by
  match t with
  | .leaf t => rfl
  | .node rule kids =>
    rw [Tree.value, Tree.values_treeActions kids]
    rfl

theorem Tree.values_treeActions (ts : List (Tree τ)) : Tree.values treeActions ts = .ok ts := by
  match ts with
  | [] => rfl
  | t :: rest =>
    rw [Tree.values, Tree.value_treeActions t, Tree.values_treeActions rest]
    rfl

end

end Values

section Walks

variable {ν α β ε : Type} [Ord ν] {I : Memo ν → Prop} {Q : β → Prop}

/-- The walk keeps memos as they should be and comes to a value, or to the failure of an action. -/
def Walks (I : Memo ν → Prop) (x : Walking ν ε α) (result : Except ε α) : Prop :=
  Runs I I (· = result.mapError .action) x.run

theorem Walks.pure {v : α} : Walks I (pure v : Walking ν ε α) (.ok v) := Runs.pure rfl

theorem Walks.throw {e : ε} : Walks I (throw (.action e) : Walking ν ε α) (.error e) := Runs.pure rfl

theorem Walks.bind {x : Walking ν ε α} {f : α → Walking ν ε β} {result : Except ε α}
    {next : α → Except ε β} (hx : Walks I x result) (hf : ∀ v, Walks I (f v) (next v)) :
    Walks I (x >>= f) (result >>= next) := by
  rw [Walks, ExceptT.run_bind]
  refine Runs.bind hx fun r hr => ?_
  subst hr
  cases result with
  | ok v => exact hf v
  | error e => exact Runs.pure rfl

theorem Walks.lift_bind {x : Counting ν β} {f : β → Walking ν ε α} {result : Except ε α}
    (hx : Runs I I Q x) (hf : ∀ b, Q b → Walks I (f b) result) :
    Walks I ((liftM x : Walking ν ε β) >>= f) result :=
  fun memo hm => hf _ (hx memo hm).2 _ (hx memo hm).1

end Walks

theorem firstOf?_runs {ν α : Type} [Ord ν] {I : Memo ν → Prop} {sharp : Prop} {ways : Nat → Counting ν Amount}
    {K : Nat → α → Prop} {ks : List Nat} (runs : ∀ k ∈ ks, Tallies I sharp (K k) (ways k))
    (exist : ∃ k ∈ ks, ∃ x, K k x) :
    Runs I I (fun found => ∃ k ∈ ks, found = some k ∧ ∃ x, K k x) (firstOf? ways ks) := by
  induction ks with
  | nil => simp at exist
  | cons k ks ih =>
    obtain ⟨here, later⟩ := forall_mem_cons.1 runs
    refine here.bind fun a ha => ?_
    by_cases none : a = .none
    · subst none
      have others : ∃ k ∈ ks, ∃ x, K k x :=
        ((exists_mem_cons_iff _ _ _).1 exist).resolve_left fun ⟨x, hx⟩ => ha x hx
      exact (ih later others).mono fun found ⟨m, hm, rest⟩ => ⟨m, mem_cons_of_mem k hm, rest⟩
    · have first : ∃ x, K k x := ha.exists none
      cases a with
      | none => exact (none rfl).elim
      | one | many => exact .pure ⟨k, mem_cons_self, rfl, first⟩

section Following

variable {ν τ α ε : Type} [DecidableEq ν] [Ord ν] [Std.TransOrd ν] [Std.LawfulEqOrd ν] {g : Grammar ν τ}
  {begin : ν} {tokens : List τ} {columns : Array (Column ν)} {s : Stretch ν} {acts : Actions τ α ε}
  {count : Stretch ν → Counting ν Amount} {rule dot start fuel : Nat} {rest : List (Symbol ν τ)}

section
variable (chart : Charted g begin tokens columns) (full : columns.size = tokens.length + 1)
  (counter : Counter g tokens columns [] count)
include chart full counter

/-- Along the rest of a rule that can be read in one way only, the walk finds that way. -/
theorem walkRest_walks {walk : Stretch ν → Walking ν ε α} {ts : List (Tree τ)}
    (here : Reached g tokens columns s rule dot start rest)
    (only : Only (ForestOf g tokens ⟨rule, dot, start, s.stop⟩) ts)
    (parts : ∀ k, ∀ t ∈ ts, Ready g tokens columns [] k → Only (TreeOf g tokens k) t →
      Walks (Memo.Sound g tokens []) (walk k) (t.value acts)) :
    Walks (Memo.Sound g tokens [])
      (walkRest acts tokens.toArray (completions g columns) count walk s.name rule s.stop rest dot start)
      (Tree.values acts ts) := by
  obtain ⟨forest, unique⟩ := only
  induction rest generalizing dot start ts with
  | nil =>
    obtain ⟨-, rfl⟩ := (forestOf_nil here.le here.stop here.symbols).1 forest
    exact Walks.pure
  | cons x rest ih =>
    cases x with
    | terminal label accepts =>
      have split {ts} : ForestOf g tokens ⟨rule, dot, start, s.stop⟩ ts ↔ _ :=
        forestOf_terminal here.stop here.symbols
      obtain ⟨t, us, token, inside, fits, rfl, others⟩ := split.1 forest
      rw [walkRest, getElem?_toArray, token]
      refine Walks.bind (ih (here.scanned chart full token inside fits)
        (fun k u hu => parts k u (mem_cons_of_mem _ hu)) others fun us' others' => ?_) fun _ => Walks.pure
      exact (cons.inj (unique _ (split.2 ⟨t, us', token, inside, fits, rfl, others'⟩))).2
    | nonterminal n =>
      have outer : ∀ p ∈ ([] : List (Stretch ν)), Inside g s p := forall_mem_nil _
      have split {ts} : ForestOf g tokens ⟨rule, dot, start, s.stop⟩ ts ↔ _ := here.forest_iff chart full
      obtain ⟨m, hm, headed⟩ := split.1 forest
      have first_stop := firstOf?_runs (fun m hm => here.divided_runs chart full outer counter
        (fun m there => there.restAmount_runs chart full outer counter) hm) ⟨m, hm, ts, headed⟩
      rw [walkRest]
      refine Walks.lift_bind first_stop fun found ⟨m, hm, chosen, _, t, us, _, first, others⟩ => ?_
      subst chosen
      obtain rfl := unique _ (split.2 ⟨m, hm, t, us, rfl, first, others⟩)
      have there := here.moved chart full ((here.mem_stops chart full).1 hm).1 first
      refine Walks.bind (parts _ t mem_cons_self (here.ready_part chart full outer hm).1
        ⟨first, fun t' first' => ?_⟩) fun v => Walks.bind (ih there
          (fun k u hu => parts k u (mem_cons_of_mem _ hu)) others fun us' others' => ?_) fun _ => Walks.pure
      · exact (cons.inj (unique _ (split.2 ⟨m, hm, t', us, rfl, first', others⟩))).1
      · exact (cons.inj (unique _ (split.2 ⟨m, hm, t, us', rfl, first, others'⟩))).2

/-- The walk makes the value of the only derivation. It does not come back to a stretch that it is in:
each of those has only one tree, and that is larger than all trees inside it. -/
theorem walk_walks {path : List (Stretch ν)} {t : Tree τ} (stacked : Stacked g columns fuel path)
    (above : ∀ p ∈ path, ∃ u, Only (TreeOf g tokens p) u ∧ sizeOf t < sizeOf u)
    (ready : Ready g tokens columns [] s) (only : Only (TreeOf g tokens s) t) :
    Walks (Memo.Sound g tokens []) (walk g acts tokens.toArray (completions g columns) count fuel s)
      (t.value acts) := by
  induction fuel generalizing s path t with
  | zero => exact absurd stacked.pos (Nat.lt_irrefl 0)
  | succ fuel ih =>
    have new : s ∉ path := fun mem => by
      obtain ⟨u, only', larger⟩ := above s mem
      rw [only'.2 t only.1] at larger
      exact Nat.lt_irrefl _ larger
    have here : s ∈ stretchesOf g columns := by
      have := ready.stop
      exact chart.complete ready.start ready.stop (by omega) ready.predicted only.1
    have le := (chart.sound here).1
    have by_rule (r : Nat) (hr : r ∈ g.rulesFor s.name) :=
      (ready.reached hr le).restAmount_runs chart full (forall_mem_nil _) counter
    obtain ⟨rule, ts, rfl, hrule, forest⟩ := treeOf_iff.1 only.1
    have first_rule := firstOf?_runs by_rule ⟨rule, hrule, ts, forest⟩
    rw [walk]
    refine Walks.lift_bind first_rule fun choice ⟨r, hr, chosen, us, forest'⟩ => ?_
    subst chosen
    obtain ⟨rfl, rfl⟩ := Tree.node.inj (only.2 _ (treeOf_iff.2 ⟨r, us, rfl, hr, forest'⟩))
    refine Walks.bind (walkRest_walks chart full counter (ready.reached hr le)
      ⟨forest, fun vs hvs => ?_⟩ fun k u hu ready' only' => ?_) fun vs => ?_
    · exact (Tree.node.inj (only.2 _ (treeOf_iff.2 ⟨r, vs, rfl, hr, hvs⟩))).2
    · have smaller : sizeOf u < sizeOf (Tree.node r us) := by
        have inside := sizeOf_lt_of_mem hu
        rw [Tree.node.sizeOf_spec]
        omega
      refine ih (stacked.push here new) ?_ ready' only'
      refine forall_mem_cons.2 ⟨⟨_, only, smaller⟩, fun p hp => ?_⟩
      obtain ⟨v, only'', larger⟩ := above p hp
      exact ⟨v, only'', Nat.lt_trans smaller larger⟩
    · cases acts.node r vs with
      | ok v => exact Walks.pure
      | error e => exact Walks.throw

end

/-- What counting says about the derivations of a text, and where the walk gets. -/
theorem recognize_answer (g : Grammar ν τ) (start : ν) (tokens : List τ) : match recognize g start tokens with
    | .ok (done, memo) => ∃ tree, Only (Derives g start tokens) tree ∧
      ∀ {α ε : Type} (acts : Actions τ α ε),
        follow g acts start tokens done memo = (tree.value acts).mapError .action
    | .error .ambiguous => ∃ t, Derives g start tokens t ∧
      (LeftSimple g → ∃ u, Derives g start tokens u ∧ u ≠ t)
    | .error (.stray _) => False
    | .error _ => ∀ t, ¬ Derives g start tokens t := by
  rw [recognize]
  rcases chart_cases g start tokens with ⟨columns, made, chart, full⟩ | ⟨e, failed, nothing⟩
  · have stacked : Stacked g columns ((stretchesOf g columns).length + 1) [] :=
      ⟨nofun, .nil, Nat.lt_succ_self _⟩
    have counter : Counter g tokens columns [] (amountOf g tokens (completions g columns)) :=
      amount_runs chart full stacked
    have ready : Ready g tokens columns [] ⟨start, 0, tokens.length⟩ :=
      ⟨chart.started (by omega), Nat.zero_le _, Nat.le_refl _, nofun⟩
    have fresh : Memo.Sound g tokens [] ({} : Memo ν) := ⟨by simp, by simp, by simp⟩
    have whole : TreeOf g tokens ⟨start, 0, tokens.length⟩ = Derives g start tokens := by
      funext t
      rw [TreeOf, Derives, drop_length, drop_zero]
    obtain ⟨sound, counted⟩ := counter _ ready _ fresh
    rw [made]
    dsimp only
    generalize (amountOf g tokens (completions g columns) ⟨start, 0, tokens.length⟩).run {} = a
      at sound counted ⊢
    obtain ⟨a, memo⟩ := a
    cases a with
    | none => rwa [whole] at counted
    | one =>
      obtain ⟨tree, only⟩ := counted
      refine ⟨tree, by rwa [whole] at only, fun acts => ?_⟩
      have walked : Walks (Memo.Sound g tokens []) _ (tree.value acts) :=
        walk_walks chart full counter stacked nofun ready only
      exact (walked memo sound).2
    | many =>
      rw [whole] at counted
      obtain ⟨t, ht, other⟩ := counted
      exact ⟨t, ht, fun simple => other ⟨simple, nofun⟩⟩
  · rw [failed]
    exact nothing

/-- Values go up along the tree that is found. -/
theorem interpret_eq (g : Grammar ν τ) (acts : Actions τ α ε) (start : ν) (tokens : List τ) :
    g.interpret acts start tokens = match parse g start tokens with
      | .ok tree => (tree.value acts).mapError .action
      | .error f => .error (.failure f) := by
  have answer := recognize_answer g start tokens
  unfold parse interpret
  split at answer
  next done memo known =>
    obtain ⟨tree, -, follows⟩ := answer
    simp only [known, follows, Tree.value_treeActions]
    rfl
  all_goals
    next known => simp only [known]

theorem parse_eq (g : Grammar ν τ) (start : ν) (tokens : List τ) :
    (∃ f, recognize g start tokens = .error f ∧ parse g start tokens = .error f) ∨
      ∃ found tree, recognize g start tokens = .ok found ∧ parse g start tokens = .ok tree ∧
        Only (Derives g start tokens) tree := by
  have answer := recognize_answer g start tokens
  unfold parse interpret
  match known : recognize g start tokens with
  | .error f => exact .inl ⟨f, rfl, rfl⟩
  | .ok (done, memo) =>
    rw [known] at answer
    obtain ⟨tree, only, follows⟩ := answer
    refine .inr ⟨_, tree, rfl, ?_, only⟩
    simp only [follows, Tree.value_treeActions]
    rfl

/-- What the answer to a text says about its derivations. -/
theorem parse_answer (g : Grammar ν τ) (start : ν) (tokens : List τ) : match parse g start tokens with
    | .ok tree => Derives g start tokens tree ∧ ∀ t, Derives g start tokens t → t = tree
    | .error .ambiguous => ∃ t, Derives g start tokens t ∧
      (LeftSimple g → ∃ u, Derives g start tokens u ∧ u ≠ t)
    | .error (.stray _) => False
    | .error _ => ∀ t, ¬ Derives g start tokens t := by
  obtain ⟨f, known, failed⟩ | ⟨found, tree, -, parsed, only⟩ := parse_eq g start tokens
  · have answer := recognize_answer g start tokens
    rw [known] at answer
    rw [failed]
    cases f <;> exact answer
  · rw [parsed]
    exact only

end Following

section Recognition

/-- Tokens are rejected, as unfinished or at one that fits nowhere, exactly if they are the leaves of
no derivation tree of the start symbol. The rules may be empty, left-recursive, cyclic or
unproductive. -/
theorem rejected_iff_no_derivation {ν τ : Type} [DecidableEq ν] [Ord ν] [Std.TransOrd ν]
    [Std.LawfulEqOrd ν] (g : Grammar ν τ) (start : ν) (tokens : List τ) :
    (parse g start tokens = .error .unfinished ∨
        ∃ index expected, parse g start tokens = .error (.unexpected index expected)) ↔
      ¬ ∃ tree, Derives g start tokens tree := by
  have counts := parse_answer g start tokens
  generalize parse g start tokens = answer at counts ⊢
  match answer with
  | .ok tree => simpa using ⟨tree, counts.1⟩
  | .error .ambiguous =>
    obtain ⟨tree, derived, -⟩ := counts
    simpa using ⟨tree, derived⟩
  | .error (.stray s) => exact counts.elim
  | .error .unfinished => exact iff_of_true (.inl rfl) fun ⟨tree, derived⟩ => counts tree derived
  | .error (.unexpected index expected) =>
    exact iff_of_true (.inr ⟨index, expected, rfl⟩) fun ⟨tree, derived⟩ => counts tree derived

/-- Balanced brackets, in any number of ways, and a nonterminal that derives nothing. -/
def brackets : List (Rule String Char) :=
  [⟨"S", []⟩, ⟨"S", [.nonterminal "S", .nonterminal "S"]⟩,
   ⟨"S", [.terminal "(" (· == '('), .nonterminal "S", .terminal ")" (· == ')')]⟩,
   ⟨"S", [.nonterminal "T"]⟩, ⟨"T", [.terminal "(" (· == '('), .nonterminal "T"]⟩]

def failure? {ν τ : Type} : Except (Failure ν) (Tree τ) → Option (Failure ν)
  | .error e => some e
  | .ok _ => none

theorem eq_error {ν τ : Type} {answer : Except (Failure ν) (Tree τ)} {e : Failure ν}
    (h : failure? answer = some e) : answer = .error e := by
  cases answer with
  | error e' => exact congrArg Except.error (Option.some.inj h)
  | ok tree => cases h

theorem brackets_recognised : defect? brackets = none ∧
    (∃ tree, Derives (ofRules brackets) "S" ['(', '(', ')', ')', '(', ')'] tree) ∧
    ¬ ∃ tree, Derives (ofRules brackets) "S" ['(', '(', ')'] tree := by
  refine ⟨by decide +kernel, ?_, ?_⟩
  · have rejected := rejected_iff_no_derivation (ofRules brackets) "S" ['(', '(', ')', ')', '(', ')']
    have ambiguous : parse (ofRules brackets) "S" ['(', '(', ')', ')', '(', ')'] =
        .error .ambiguous := eq_error (by decide +kernel)
    simpa [ambiguous] using rejected
  · exact (rejected_iff_no_derivation _ _ _).1 (.inl (eq_error (by decide +kernel)))

end Recognition
end Peano.Grammar
