import Mathlib.Data.List.Perm.Subperm
import Peano.Grammar.Derivation
namespace Peano.Grammar
open List

section Relation

variable {ν τ : Type} [DecidableEq ν] [Ord ν]

/-- The symbols derive the trees, whose leaves are the tokens of the input before the rest. -/
inductive Reads (g : Grammar ν τ) : List (Symbol ν τ) → List τ → List τ → List (Tree τ) → Prop
  | nil {input : List τ} : Reads g [] input input []
  | token {label : String} {accepts : τ → Bool} {others : List (Symbol ν τ)} {t : τ}
      {input rest : List τ} {trees : List (Tree τ)} (fits : accepts t = true)
      (tail : Reads g others input rest trees) :
      Reads g (.terminal label accepts :: others) (t :: input) rest (.leaf t :: trees)
  | phrase {n : ν} {others rhs : List (Symbol ν τ)} {rule : Nat} {input middle rest : List τ}
      {kids trees : List (Tree τ)} (found : g.rules[rule]? = some ⟨n, rhs⟩)
      (inner : Reads g rhs input middle kids) (tail : Reads g others middle rest trees) :
      Reads g (.nonterminal n :: others) input rest (.node rule kids :: trees)

def Derives (g : Grammar ν τ) (start : ν) (tokens : List τ) (tree : Tree τ) : Prop :=
  Reads g [.nonterminal start] tokens [] [tree]

mutual

def Tree.yield : Tree τ → List τ
  | .leaf t => [t]
  | .node _ kids => yields kids

def yields : List (Tree τ) → List τ
  | [] => []
  | t :: rest => t.yield ++ yields rest

end

mutual

def Tree.terminals (g : Grammar ν τ) (x : Symbol ν τ) : Tree τ → List (Symbol ν τ)
  | .leaf _ => [x]
  | .node rule kids => terminalsOf g (g.rhs rule) kids

def terminalsOf (g : Grammar ν τ) : List (Symbol ν τ) → List (Tree τ) → List (Symbol ν τ)
  | x :: symbols, t :: rest => t.terminals g x ++ terminalsOf g symbols rest
  | _, _ => []

end

variable {g : Grammar ν τ} {α β : List (Symbol ν τ)} {s m r : List τ} {ts us : List (Tree τ)}

theorem rhs_of_found {rule : Nat} {r : Rule ν τ} (found : g.rules[rule]? = some r) : g.rhs rule = r.rhs := by
  rw [rhs, found]

theorem Reads.yield (h : Reads g α s r ts) : s = yields ts ++ r := by
  induction h with
  | nil => rfl
  | token _ _ ih => rw [yields, append_assoc, ← ih]; rfl
  | phrase _ _ _ inner tail => rw [yields, Tree.yield, append_assoc, ← tail, ← inner]

theorem Reads.length_le (h : Reads g α s r ts) : r.length ≤ s.length := by
  rw [h.yield, length_append]
  exact Nat.le_add_left _ _

theorem Reads.length_trees (h : Reads g α s r ts) : ts.length = α.length := by
  induction h with
  | nil => rfl
  | token _ _ ih | phrase _ _ _ _ ih => rw [length_cons, length_cons, ih]

theorem Reads.length_terminals (h : Reads g α s r ts) : (terminalsOf g α ts).length = (yields ts).length := by
  induction h with
  | nil => simp [terminalsOf, yields]
  | token _ _ ih => simp [terminalsOf, Tree.terminals, yields, Tree.yield, ih]
  | phrase found _ _ inner tail =>
    simp [terminalsOf, Tree.terminals, rhs_of_found found, yields, Tree.yield, inner, tail]

theorem Reads.terminalsOf_append (h : Reads g α s r ts) :
    terminalsOf g (α ++ β) (ts ++ us) = terminalsOf g α ts ++ terminalsOf g β us := by
  induction h with
  | nil => simp [terminalsOf]
  | token _ _ ih | phrase _ _ _ _ ih => simp [terminalsOf, ih]

/-- Trees determine how far they reach. -/
theorem Reads.rest_eq {r' : List τ} (h : Reads g α s r ts) (h' : Reads g β s r' ts) : r = r' := by
  have same := h.yield.symm.trans h'.yield
  exact append_cancel_left same

theorem Reads.append (h : Reads g α s m ts) (h' : Reads g β m r us) : Reads g (α ++ β) s r (ts ++ us) := by
  induction h with
  | nil => exact h'
  | token fits _ ih => exact .token fits (ih h')
  | phrase found inner _ _ ih => exact .phrase found inner (ih h')

theorem Reads.split (h : Reads g (α ++ β) s r ts) :
    ∃ m us vs, ts = us ++ vs ∧ Reads g α s m us ∧ Reads g β m r vs := by
  induction α generalizing s ts with
  | nil => exact ⟨s, [], ts, rfl, .nil, h⟩
  | cons x α ih =>
    cases h with
    | token fits tail =>
      obtain ⟨m, us, vs, rfl, front, back⟩ := ih tail
      exact ⟨m, _, vs, rfl, .token fits front, back⟩
    | phrase found inner tail =>
      obtain ⟨m, us, vs, rfl, front, back⟩ := ih tail
      exact ⟨m, _, vs, rfl, .phrase found inner front, back⟩

/-- What comes after the rest of a derivation does not matter to it. -/
theorem Reads.frame (h : Reads g α s r ts) (r' : List τ) : Reads g α (yields ts ++ r') r' ts := by
  induction h generalizing r' with
  | nil => exact .nil
  | token fits _ ih => exact .token fits (ih r')
  | phrase found _ _ inner tail =>
    rw [yields, append_assoc]
    exact .phrase found (inner _) (tail r')

/-- A derivation of some tokens goes on with what comes after them. -/
theorem Reads.extend (h : Reads g α s [] ts) (rest : List τ) : Reads g α (s ++ rest) rest ts := by
  have whole := h.yield
  rw [append_nil] at whole
  rw [whole]
  exact h.frame rest

theorem Reads.single {x : Symbol ν τ} (h : Reads g [x] s r ts) : ∃ t, ts = [t] := by
  cases h with
  | token _ tail | phrase _ _ tail => cases tail; exact ⟨_, rfl⟩

theorem Reads.node {n : ν} {t : Tree τ} (h : Reads g [.nonterminal n] s r [t]) :
    ∃ rule rhs kids, t = .node rule kids ∧ g.rules[rule]? = some ⟨n, rhs⟩ ∧ Reads g rhs s r kids := by
  cases h with
  | phrase found inner tail =>
    cases tail
    exact ⟨_, _, _, rfl, found, inner⟩

theorem reads_node {n : ν} {rule : Nat} {rhs : List (Symbol ν τ)} {kids : List (Tree τ)}
    (found : g.rules[rule]? = some ⟨n, rhs⟩) (inner : Reads g rhs s r kids) :
    Reads g [.nonterminal n] s r [.node rule kids] :=
  .phrase found inner .nil

theorem reads_nil : Reads g [] s r ts ↔ s = r ∧ ts = [] := by
  constructor
  · intro h
    cases h
    exact ⟨rfl, rfl⟩
  · rintro ⟨rfl, rfl⟩
    exact .nil

theorem reads_terminal {label : String} {accepts : τ → Bool} : Reads g (.terminal label accepts :: α) s r ts ↔
      ∃ t s' us, s = t :: s' ∧ ts = .leaf t :: us ∧ accepts t ∧ Reads g α s' r us := by
  constructor
  · intro h
    cases h with
    | token fits tail => exact ⟨_, _, _, rfl, rfl, fits, tail⟩
  · rintro ⟨t, s', us, rfl, rfl, fits, tail⟩
    exact .token fits tail

theorem reads_nonterminal {n : ν} : Reads g (.nonterminal n :: α) s r ts ↔
      ∃ m t us, ts = t :: us ∧ Reads g [.nonterminal n] s m [t] ∧ Reads g α m r us := by
  constructor
  · intro h
    cases h with
    | phrase found inner tail => exact ⟨_, _, _, rfl, reads_node found inner, tail⟩
  · rintro ⟨m, t, us, rfl, first, tail⟩
    exact first.append tail

theorem Reads.exists_drop {tokens : List τ} {i : Nat} (inside : i ≤ tokens.length)
    (h : Reads g α (tokens.drop i) r ts) : ∃ j, i ≤ j ∧ j ≤ tokens.length ∧ r = tokens.drop j := by
  have length := congrArg List.length h.yield
  rw [length_append, length_drop] at length
  refine ⟨i + (yields ts).length, by omega, by omega, ?_⟩
  rw [← drop_drop, h.yield, drop_left]

end Relation

theorem drop_injective {τ : Type} {tokens : List τ} {i j : Nat} (hi : i ≤ tokens.length)
    (hj : j ≤ tokens.length) (h : tokens.drop i = tokens.drop j) : i = j := by
  have length := congrArg List.length h
  rw [length_drop, length_drop] at length
  omega

section Order

variable {ν : Type} [Ord ν] [Std.TransOrd ν] [Std.LawfulEqOrd ν]

/-- Derived orders end in a comparison that finds all alike. -/
instance transCmp_alike {α : Type} : Std.TransCmp fun _ _ : α => Ordering.eq where
  eq_swap := rfl
  isLE_trans := fun _ _ => rfl

instance : Std.TransOrd Item :=
  inferInstanceAs (Std.TransCmp (compareLex (compareOn Item.rule)
    (compareLex (compareOn Item.dot) (compareLex (compareOn Item.origin) fun _ _ => .eq))))

instance : Std.LawfulEqOrd Item where
  eq_of_compare := by
    rintro ⟨⟩ ⟨⟩ h
    change (compare _ _).then ((compare _ _).then ((compare _ _).then .eq)) = .eq at h
    simpa [Ordering.then_eq_eq] using h

instance : Std.TransOrd (Stretch ν) :=
  inferInstanceAs (Std.TransCmp (compareLex (compareOn Stretch.name)
    (compareLex (compareOn Stretch.start) (compareLex (compareOn Stretch.stop) fun _ _ => .eq))))

instance : Std.LawfulEqOrd (Stretch ν) where
  eq_of_compare := by
    rintro ⟨⟩ ⟨⟩ h
    change (compare _ _).then ((compare _ _).then ((compare _ _).then .eq)) = .eq at h
    simpa [Ordering.then_eq_eq] using h

instance : Std.TransOrd (Beginning ν) :=
  inferInstanceAs (Std.TransCmp (compareLex (compareOn Beginning.name)
    (compareLex (compareOn Beginning.start) fun _ _ => .eq)))

instance : Std.LawfulEqOrd (Beginning ν) where
  eq_of_compare := by
    rintro ⟨⟩ ⟨⟩ h
    change (compare _ _).then ((compare _ _).then .eq) = .eq at h
    simpa [Ordering.then_eq_eq] using h

instance : Std.TransOrd Remainder :=
  inferInstanceAs (Std.TransCmp (compareLex (compareOn Remainder.rule)
    (compareLex (compareOn Remainder.dot) (compareLex (compareOn Remainder.start)
      (compareLex (compareOn Remainder.stop) fun _ _ => .eq)))))

instance : Std.LawfulEqOrd Remainder where
  eq_of_compare := by
    rintro ⟨⟩ ⟨⟩ h
    change (compare _ _).then ((compare _ _).then ((compare _ _).then ((compare _ _).then .eq))) = .eq at h
    simpa [Ordering.then_eq_eq] using h

end Order

section Tables

variable {ν τ : Type} [DecidableEq ν]

variable [Ord ν] [Std.TransOrd ν] [Std.LawfulEqOrd ν] (g : Grammar ν τ)

theorem getD_indexRules (n : ν) (i : Nat) (index : Std.TreeMap ν (List Nat)) (rules : List (Rule ν τ)) :
    (indexRules i index rules).getD n [] = index.getD n [] ++ rules.findIdxs (·.lhs = n) i := by
  induction rules generalizing i index with
  | nil => simp [indexRules]
  | cons r rules ih =>
    rw [indexRules, ih, Std.TreeMap.getD_insert, findIdxs_cons]
    by_cases same : r.lhs = n <;> simp [same]

theorem rulesFor_eq (n : ν) : g.rulesFor n = g.rules.toList.findIdxs (·.lhs = n) := by
  rw [rulesFor, g.index_eq, getD_indexRules]
  simp

theorem mem_rulesFor {n : ν} {rule : Nat} : rule ∈ g.rulesFor n ↔ ∃ rhs, g.rules[rule]? = some ⟨n, rhs⟩ := by
  rw [rulesFor_eq, mem_findIdxs_iff_exists_getElem_pos]
  simp only [Array.getElem?_eq_some_iff, Array.length_toList, Array.getElem_toList, decide_eq_true_iff]
  constructor
  · rintro ⟨inside, rfl⟩
    exact ⟨_, inside, rfl⟩
  · rintro ⟨rhs, inside, found⟩
    exact ⟨inside, by rw [found]⟩

theorem nodup_rulesFor (n : ν) : (g.rulesFor n).Nodup := by
  rw [rulesFor_eq]
  exact nodup_findIdxs

end Tables

section Nullable

variable {ν τ : Type} [DecidableEq ν]
variable {known : List ν} {rules : List (Rule ν τ)} {α : List (Symbol ν τ)}

/-- Nothing can be added: every rule that vanishes has its left-hand side among the known. -/
def Closed (rules : List (Rule ν τ)) (known : List ν) : Prop :=
  ∀ r ∈ rules, r.rhs.all (Symbol.vanishes known) = true → r.lhs ∈ known

theorem length_nullablePass (known : List ν) (rules : List (Rule ν τ)) :
    known.length ≤ (nullablePass known rules).length := by
  induction rules generalizing known with
  | nil => exact Nat.le_refl _
  | cons r rules ih =>
    rw [nullablePass]
    split
    · refine Nat.le_trans ?_ (ih _)
      simp
    · exact ih known

theorem closed_of_nullablePass (h : (nullablePass known rules).length = known.length) :
    Closed rules known := by
  induction rules with
  | nil => exact nofun
  | cons r rules ih =>
    rw [nullablePass] at h
    split at h
    · have grown := length_nullablePass (known ++ [r.lhs]) rules
      simp only [length_append, length_singleton] at grown
      omega
    next idle =>
      refine forall_mem_cons.2 ⟨fun vanishes => ?_, ih h⟩
      simpa [vanishes] using idle

/-- What holds of the known nonterminals if every left-hand side that is added has it. -/
theorem nullablePass_induction {P : List ν → Prop} (grow : ∀ known, P known → ∀ r ∈ rules, r.lhs ∉ known →
      r.rhs.all (Symbol.vanishes known) → P (known ++ [r.lhs])) (h : P known) :
    P (nullablePass known rules) := by
  induction rules generalizing known with
  | nil => exact h
  | cons r rules ih =>
    have rest := fun known h r' hr' => grow known h r' (mem_cons_of_mem _ hr')
    rw [nullablePass]
    split
    next adds =>
      simp only [Bool.and_eq_true, Bool.not_eq_true', contains_eq_mem,
        decide_eq_false_iff_not] at adds
      exact ih rest (grow known h r mem_cons_self adds.1 adds.2)
    · exact ih rest h

theorem nullablePasses_induction {P : List ν → Prop} (grow : ∀ known, P known → ∀ r ∈ rules, r.lhs ∉ known →
      r.rhs.all (Symbol.vanishes known) → P (known ++ [r.lhs])) {n : Nat} (h : P known) :
    P (nullablePasses rules n known) := by
  induction n generalizing known with
  | zero => exact h
  | succ n ih =>
    rw [nullablePasses]
    split
    · exact h
    · exact ih (nullablePass_induction grow h)

/-- The known are different left-hand sides, so there are at most as many as rules. -/
structure Heads (rules : List (Rule ν τ)) (known : List ν) : Prop where
  nodup : known.Nodup
  subset : known ⊆ rules.map Rule.lhs

omit [DecidableEq ν] in
theorem Heads.grow (h : Heads rules known) {r : Rule ν τ} (hr : r ∈ rules) (new : r.lhs ∉ known) :
    Heads rules (known ++ [r.lhs]) := by
  refine ⟨?_, append_subset.2 ⟨h.subset, ?_⟩⟩
  · refine nodup_append.2 ⟨h.nodup, pairwise_singleton _ _, fun x hx y hy => ?_⟩
    rw [mem_singleton.1 hy]
    exact fun same => new (same ▸ hx)
  · simpa using ⟨r, hr, rfl⟩

theorem closed_nullablePasses {n : Nat} (heads : Heads rules known)
    (enough : rules.length ≤ n + known.length) : Closed rules (nullablePasses rules n known) := by
  induction n generalizing known with
  | zero =>
    -- as many different heads as there are rules are all of them
    intro r hr _
    have within := subperm_of_subset heads.nodup heads.subset
    have all := within.perm_of_length_le (by simpa using enough)
    exact all.mem_iff.2 (mem_map_of_mem hr)
  | succ n ih =>
    rw [nullablePasses]
    split
    next idle =>
      exact closed_of_nullablePass idle
    · have length := length_nullablePass known rules
      refine ih (nullablePass_induction (fun _ h r hr new _ => h.grow hr new) heads) ?_
      omega

variable [Ord ν] (g : Grammar ν τ)

theorem closed_nullable : Closed g.rules.toList g.nullable := by
  rw [g.nullable_eq]
  exact closed_nullablePasses ⟨.nil, nofun⟩ (Nat.le_refl _)

variable {g}

/-- Derives the empty string. -/
def Vanishing (g : Grammar ν τ) (n : ν) : Prop := ∃ t, ∀ s, Reads g [.nonterminal n] s s [t]

theorem reads_of_vanishes (h : ∀ n ∈ known, g.Vanishing n) (vanishes : α.all (Symbol.vanishes known)) :
    ∃ ts, ∀ s, Reads g α s s ts := by
  induction α with
  | nil => exact ⟨[], fun _ => .nil⟩
  | cons x α ih =>
    rw [all_cons, Bool.and_eq_true] at vanishes
    obtain ⟨ts, others⟩ := ih vanishes.2
    cases x with
    | terminal => cases vanishes.1
    | nonterminal n =>
      obtain ⟨t, first⟩ := h n (by simpa [Symbol.vanishes] using vanishes.1)
      exact ⟨t :: ts, fun s => (first s).append (others s)⟩

theorem vanishing_of_isNullable {n : ν} (h : g.isNullable n) : g.Vanishing n := by
  have all : ∀ n ∈ g.nullable, g.Vanishing n := by
    rw [g.nullable_eq]
    refine nullablePasses_induction (P := fun known => ∀ n ∈ known, g.Vanishing n)
      (fun known h r hr _ vanishes => ?_) (by simp)
    obtain ⟨ts, reads⟩ := reads_of_vanishes h vanishes
    obtain ⟨i, found⟩ := getElem?_of_mem hr
    refine forall_mem_append.2 ⟨h, forall_mem_singleton.2 ⟨.node i ts, fun s => ?_⟩⟩
    exact reads_node (by simpa using found) (reads s)
  exact all n (by simpa [isNullable] using h)

theorem vanishes_of_reads {s r : List τ} {ts : List (Tree τ)} (h : Reads g α s r ts)
    (empty : s.length = r.length) : α.all (Symbol.vanishes g.nullable) := by
  induction h with
  | nil => rfl
  | token _ tail _ =>
    have := tail.length_le
    rw [length_cons] at empty
    omega
  | @phrase n others rhs rule input middle rest kids trees found inner tail inner_ih tail_ih =>
    have := inner.length_le
    have := tail.length_le
    have head : n ∈ g.nullable := by
      refine closed_nullable g ⟨n, rhs⟩ ?_ (inner_ih (by omega))
      exact mem_of_getElem? (by simpa using found)
    rw [all_cons, Bool.and_eq_true]
    exact ⟨by simpa [Symbol.vanishes] using head, tail_ih (by omega)⟩

theorem isNullable_of_reads {n : ν} {s : List τ} {ts : List (Tree τ)}
    (h : Reads g [.nonterminal n] s s ts) : g.isNullable n := by
  have vanishes := vanishes_of_reads h rfl
  rw [all_cons, Bool.and_eq_true] at vanishes
  exact vanishes.1

end Nullable
end Peano.Grammar
