import Peano.Proofs.Grammar.Prefixes
namespace Peano.Grammar
open List

section Passes

variable {ν τ : Type} [DecidableEq ν] {rules : List (Rule ν τ)} {known final : List ν}

/-- Passes from the known nonterminals on end with these, where one more changes nothing. -/
inductive Sweeps (rules : List (Rule ν τ)) : List ν → List ν → Prop
  | still {known : List ν} (same : nullablePass known rules = known) : Sweeps rules known known
  | again {known final : List ν} (changed : nullablePass known rules ≠ known)
    (rest : Sweeps rules (nullablePass known rules) final) : Sweeps rules known final

theorem Sweeps.unique {final' : List ν} (h : Sweeps rules known final) (h' : Sweeps rules known final') :
    final = final' := by
  induction h with
  | still same => cases h' with
    | still => rfl
    | again changed => exact (changed same).elim
  | again changed _ ih => cases h' with
    | still same => exact (changed same).elim
    | again _ rest => exact ih rest

theorem nullablePass_of_closed (closed : Closed rules known) : nullablePass known rules = known := by
  induction rules with
  | nil => rfl
  | cons r rules ih =>
    obtain ⟨first, rest⟩ := forall_mem_cons.1 closed
    rw [nullablePass, if_neg, ih rest]
    intro adds
    rw [Bool.and_eq_true, Bool.not_eq_true', contains_eq_mem, decide_eq_false_iff_not] at adds
    exact adds.1 (first adds.2)

theorem sweeps_nullablePasses {n : Nat} (heads : Heads rules known) (enough : rules.length ≤ n + known.length) :
    Sweeps rules known (nullablePasses rules n known) := by
  induction n generalizing known with
  | zero => exact .still (nullablePass_of_closed (closed_nullablePasses (n := 0) heads enough))
  | succ n ih =>
    rw [nullablePasses]
    split
    next idle => exact .still (nullablePass_of_closed (closed_of_nullablePass idle))
    next grown =>
      have length := length_nullablePass known rules
      refine .again (fun same => grown (congrArg List.length same)) (ih ?_ (by omega))
      exact nullablePass_induction (fun _ h r hr new _ => h.grow hr new) heads

theorem nullables_subset (closed : Closed rules known) : nullables rules ⊆ known := by
  refine nullablePasses_induction (P := (· ⊆ known)) (fun found below r hr _ vanishes => ?_) (nil_subset known)
  refine append_subset.2 ⟨below, forall_mem_singleton.2 (closed r hr (all_eq_true.2 fun x hx => ?_))⟩
  have gone := all_eq_true.1 vanishes x hx
  cases x with
  | terminal => cases gone
  | nonterminal n => exact contains_iff_mem.2 (below (contains_iff_mem.1 gone))

theorem nullables_subset_of_perm {rules' : List (Rule ν τ)} (perm : rules.Perm rules') :
    nullables rules ⊆ nullables rules' := by
  have closed : Closed rules' (nullables rules') := closed_nullablePasses ⟨.nil, nil_subset _⟩ (Nat.le_refl _)
  exact nullables_subset fun r hr => closed r (perm.subset hr)

end Passes

variable {τ : Type} {rules rules' : List (Rule String τ)} {g : Grammar String τ}

theorem defect?_eq_none_iff : defect? rules = none ↔ (∀ r ∈ rules, "" ∉ r.rhs.filterMap Symbol.nonterminal?) ∧
      ∀ n ∈ rules.flatMap Rule.mentions, ∃ r ∈ rules, r.lhs = n := by
  unfold defect?
  dsimp only
  split
  next r found =>
    refine ⟨nofun, fun h => (h.1 r (mem_of_find?_eq_some found) ?_).elim⟩
    simpa using find?_some found
  next none =>
    rw [and_iff_right (by simpa using none)]
    simp [mentioned]

theorem ofNamedRules_eq_ok_iff : ofNamedRules rules = .ok g ↔ defect? rules = none ∧ g = ofRules rules := by
  unfold ofNamedRules
  cases defect? rules <;> simp [eq_comm]

/-- The nonterminals found by the passes are those that derive the empty string, and there are no others
even if the rules change places. -/
theorem nullable_exact (accepted : ofNamedRules rules = .ok g) :
    (∀ final, Sweeps rules [] final ↔ final = g.nullable) ∧
    (∀ n, g.isNullable n = true ↔ ∃ tree, g.Derives n [] tree) ∧
    (∀ n ∉ mentioned rules, g.isNullable n = false) ∧ ∀ rules', rules.Perm rules' →
      ∃ g', ofNamedRules rules' = .ok g' ∧ ∀ n, g'.isNullable n = g.isNullable n := by
  obtain ⟨sound, rfl⟩ := ofNamedRules_eq_ok_iff.1 accepted
  have sweeps : Sweeps rules [] (nullables rules) := sweeps_nullablePasses ⟨.nil, nil_subset _⟩ (Nat.le_refl _)
  have exact (n : String) : (ofRules rules).isNullable n = true ↔ ∃ tree, (ofRules rules).Derives n [] tree := by
    refine ⟨fun null => ?_, fun ⟨tree, derived⟩ => isNullable_of_reads derived⟩
    obtain ⟨tree, reads⟩ := vanishing_of_isNullable null
    exact ⟨tree, reads []⟩
  refine ⟨fun final => ⟨fun other => other.unique sweeps, ?_⟩, exact, fun n unknown => ?_, fun rules' perm => ?_⟩
  · rintro rfl
    exact sweeps
  · refine Bool.eq_false_iff.2 fun null => unknown ?_
    obtain ⟨tree, derived⟩ := (exact n).1 null
    obtain ⟨rule, rhs, kids, -, found, -⟩ := derived.node
    have mem : ⟨n, rhs⟩ ∈ rules := mem_of_getElem? (by simpa [ofRules] using found)
    exact mem_eraseDups.2 (mem_flatMap.2 ⟨_, mem, mem_cons_self⟩)
  · refine ⟨ofRules rules', ofNamedRules_eq_ok_iff.2 ⟨?_, rfl⟩, fun n => ?_⟩
    · rw [defect?_eq_none_iff] at sound ⊢
      simpa [perm.mem_iff] using sound
    · rw [Bool.eq_iff_iff]
      unfold isNullable
      rw [contains_iff_mem, contains_iff_mem]
      exact ⟨fun h => nullables_subset_of_perm perm.symm h, fun h => nullables_subset_of_perm perm h⟩

def circle : List (Rule String Char) :=
  [⟨"A", [.nonterminal "B"]⟩, ⟨"B", [.nonterminal "A"]⟩, ⟨"C", [.nonterminal "A", .terminal "c" (· == 'c')]⟩,
   ⟨"B", []⟩]

theorem circle_vanishes : ∃ g, ofNamedRules circle = .ok g ∧ Sweeps circle [] ["B", "A"] ∧
    (∃ tree, g.Derives "A" [] tree) ∧ (¬∃ tree, g.Derives "C" [] tree) ∧ g.isNullable "D" = false ∧
    ∃ g', ofNamedRules circle.reverse = .ok g' ∧ ∀ n, g'.isNullable n = g.isNullable n := by
  have accepted : ofNamedRules circle = .ok (ofRules circle) :=
    ofNamedRules_eq_ok_iff.2 ⟨by decide +kernel, rfl⟩
  obtain ⟨sweeps, derives, unknown, order⟩ := nullable_exact accepted
  exact ⟨_, accepted, (sweeps _).2 (by decide +kernel), (derives "A").1 (by decide +kernel),
    fun derived => absurd ((derives "C").2 derived) (by decide +kernel), unknown "D" (by decide +kernel),
    order _ (reverse_perm circle).symm⟩

end Peano.Grammar
