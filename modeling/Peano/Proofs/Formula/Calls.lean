import Peano.Proofs.Formula.Capture
namespace Peano.Formula
open List

/-- Trying one name after the other from number `i` on stops at this name. -/
inductive Finds (base : String) (ts : List Formula) : Nat → String → Prop
  | here {i : Nat} (unused : ∀ t ∈ ts, isFree (numbered base i) t = false) : Finds base ts i (numbered base i)
  | later {i : Nat} {name : String} (used : ∃ t ∈ ts, isFree (numbered base i) t = true)
    (rest : Finds base ts (i + 1) name) : Finds base ts i name

def binding (p : Option String) (z : String) (c : Formula) : Formula :=
  match p with
  | none => .arrow z .nat c
  | some p => .struct z p c

/-- The call that puts `u` in place of `x` returns, with all calls it makes. -/
inductive Returns : Formula → String → Formula → Formula → Prop
  | var {x u} : Returns (.var x) x u u
  | typeVar {x u} : Returns (.typeVar x) x u u
  | otherVar {z x u} (other : z ≠ x) : Returns (.var z) x u (.var z)
  | otherTypeVar {z x u} (other : z ≠ x) : Returns (.typeVar z) x u (.typeVar z)
  | constant {t x u} (closed : t ∈ [zero, nat, never, any, hole]) : Returns t x u t
  | succ {s s' x u} (inside : Returns s x u s') : Returns (.succ s) x u (.succ s')
  | both {op l l' r r' x u} (binary : op ∈ [add, mul, eq, rung, and, or]) (left : Returns l x u l')
    (right : Returns r x u r') : Returns (op l r) x u (op l' r')
  | implies {z d d' c c' x u} (proof : d ≠ .nat) (domain : Returns d x u d') (codomain : Returns c x u c') :
    Returns (.arrow z d c) x u (.arrow z d' c')
  | hidden {p x c u} : Returns (binding p x c) x u (binding p x c)
  | kept {p z c c' x u} (other : z ≠ x) (apart : isFree z u = false) (inside : Returns c x u c') :
    Returns (binding p z c) x u (binding p z c')
  | renamed {p z c c₁ c₂ fresh x u} (other : z ≠ x) (caught : isFree z u = true)
    (found : Finds (stem z) ([u, c] ++ (p.map .var).toList) 2 fresh) (renames : Returns c z (.var fresh) c₁)
    (inside : Returns c₁ x u c₂) : Returns (binding p z c) x u (binding p fresh c₂)

variable {t u v : Formula} {x base name : String} {ts : List Formula} {i : Nat}

theorem Finds.first (h : Finds base ts i name) : ∃ j ≥ i, name = numbered base j ∧
    (∀ t ∈ ts, isFree (numbered base j) t = false) ∧
    ∀ k, i ≤ k → k < j → ∃ t ∈ ts, isFree (numbered base k) t = true := by
  induction h with
  | here unused => exact ⟨_, le_rfl, rfl, unused, fun k low high => absurd low high.not_ge⟩
  | later used _ ih =>
    obtain ⟨j, after, made, unused, taken⟩ := ih
    refine ⟨j, by omega, made, unused, fun k low high => ?_⟩
    rcases low.eq_or_lt with rfl | low
    · exact used
    · exact taken k low high

/-- The first name that is not taken is one name. -/
theorem Finds.unique {other : String} (h : Finds base ts i name) (h' : Finds base ts i other) : name = other := by
  obtain ⟨j, after, rfl, unused, taken⟩ := h.first
  obtain ⟨j', after', rfl, unused', taken'⟩ := h'.first
  have least {j j' : Nat} (after : i ≤ j) (unused : ∀ t ∈ ts, isFree (numbered base j) t = false)
      (taken : ∀ k, i ≤ k → k < j' → ∃ t ∈ ts, isFree (numbered base k) t = true) : j' ≤ j := by
    by_contra before
    obtain ⟨t, mem, free⟩ := taken j after (Nat.lt_of_not_le before)
    cases (unused t mem).symm.trans free
  rw [Nat.le_antisymm (least after' unused' taken) (least after unused taken')]

theorem finds_firstFree {fuel : Nat} (unused : ∀ t ∈ ts, isFree (firstFree base ts fuel i) t = false) :
    Finds base ts i (firstFree base ts fuel i) := by
  induction fuel generalizing i with
  | zero => exact .here unused
  | succ fuel ih =>
    rw [firstFree] at unused ⊢
    split at unused
    next taken =>
      rw [if_pos taken]
      exact .later (any_eq_true.1 taken) (ih unused)
    next free =>
      rw [if_neg free]
      exact .here unused

theorem finds_freshName (name : String) (ts : List Formula) : Finds (stem name) ts 2 (freshName name ts) :=
  finds_firstFree fun _ mem => isFree_freshName name mem

theorem rewrite_binding (p : Option String) (z : String) (c : Formula) (x : String) (u : Formula) :
    rewrite (binding p z c) x u = if z = x then binding p z c else if isFree z u then
      binding p (freshName z ([u, c] ++ (p.map .var).toList))
        (rewrite (rewrite c z (.var (freshName z ([u, c] ++ (p.map .var).toList)))) x u)
      else binding p z (rewrite c x u) := by
  cases p with
  | none => exact rewrite_all z c x u
  | some p => exact rewrite_struct z p c x u

theorem returns_binding {c : Formula}
    (ih : ∀ s, s.size = c.size → ∀ x u, Returns s x u (rewrite s x u)) (p : Option String) (z x : String)
    (u : Formula) : Returns (binding p z c) x u (rewrite (binding p z c) x u) := by
  rw [rewrite_binding]
  split
  next same =>
    subst same
    exact .hidden
  next other =>
    split
    next caught =>
      exact .renamed other caught (finds_freshName ..) (ih c rfl ..) (ih _ (size_rewrite_var ..) ..)
    next apart => exact .kept other (Bool.eq_false_iff.2 apart) (ih c rfl ..)

theorem returns_rewrite (t : Formula) (x : String) (u : Formula) : Returns t x u (rewrite t x u) := by
  induction t using binder_induction generalizing x u with
  | var z | typeVar z =>
    rw [rewrite]
    split
    next same =>
      subst same
      constructor
    next other =>
      constructor
      exact other
  | all z c ih => exact returns_binding ih none z x u
  | struct z p s ih => exact returns_binding ih (some p) z x u
  | implies z d c proof ihd ihc =>
    rw [rewrite_implication proof]
    exact .implies proof (ihd x u) (ihc x u)
  | zero | nat | never | any | hole =>
    rw [rewrite]
    exact .constant (by simp)
  | succ s ih =>
    rw [rewrite]
    exact .succ (ih x u)
  | _ l r ihl ihr =>
    rw [rewrite]
    exact .both (by simp) (ihl x u) (ihr x u)

theorem Returns.eq_rewrite (h : Returns t x u v) : v = rewrite t x u := by
  induction h with
  | var | typeVar => rw [rewrite, if_pos rfl]
  | otherVar other | otherTypeVar other => rw [rewrite, if_neg other]
  | constant closed => fin_cases closed <;> rw [rewrite]
  | succ _ ih => rw [rewrite, ih]
  | both binary _ _ ihl ihr => fin_cases binary <;> rw [rewrite, ← ihl, ← ihr]
  | implies proof _ _ ihd ihc => rw [rewrite_implication proof, ihd, ihc]
  | hidden => rw [rewrite_binding, if_pos rfl]
  | kept other apart _ ih => rw [rewrite_binding, if_neg other, apart, ih]; rfl
  | renamed other caught found _ _ ihc ih =>
    rw [rewrite_binding, if_neg other, if_pos caught, ih, ihc, found.unique (finds_freshName ..)]

/-- Every substitution returns, and the number of nodes that keeps it from going on for ever is that of a
renamed formula. The search for a name stops at the first one that is free in none of the formulas. -/
theorem substitution_ends (t : Formula) (x : String) (u : Formula) :
    (∀ v, Returns t x u v ↔ v = rewrite t x u) ∧ (∀ y, (rewrite t x (.var y)).size = t.size) ∧
    ∀ (name : String) (ts : List Formula),
      (∀ fresh, Finds (stem name) ts 2 fresh ↔ fresh = freshName name ts) ∧
      ∃ i ≥ 2, freshName name ts = numbered (stem name) i ∧
        (∀ t ∈ ts, isFree (numbered (stem name) i) t = false) ∧
        ∀ j, 2 ≤ j → j < i → ∃ t ∈ ts, isFree (numbered (stem name) j) t = true := by
  refine ⟨fun v => ⟨Returns.eq_rewrite, ?_⟩, size_rewrite_var t x, fun name ts => ⟨fun fresh => ⟨?_, ?_⟩, ?_⟩⟩
  · rintro rfl
    exact returns_rewrite t x u
  · exact fun found => found.unique (finds_freshName name ts)
  · rintro rfl
    exact finds_freshName name ts
  · exact (finds_freshName name ts).first

end Peano.Formula
