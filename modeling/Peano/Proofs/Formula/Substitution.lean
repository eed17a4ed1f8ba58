import Peano.Formula.Substitution
namespace Peano.Formula

variable {d t u : Formula}

theorem isFree_var (x y : String) : isFree x (.var y) = (y == x) := by
  rw [isFree]

theorem rewrite_implication (h : d ≠ .nat) (z : String) (c : Formula) (x : String) (u : Formula) :
    rewrite (.arrow z d c) x u = .arrow z (rewrite d x u) (rewrite c x u) := by
  rw [rewrite]
  exact h

/-- Induction for what renames bound variables: under a binder it goes on with any formula of the
same size. -/
@[elab_as_elim]
theorem binder_induction {P : Formula → Prop} (var : ∀ z, P (.var z)) (typeVar : ∀ z, P (.typeVar z))
    (zero : P .zero) (nat : P .nat) (never : P .never) (any : P .any) (hole : P .hole)
    (succ : ∀ s, P s → P (.succ s)) (add : ∀ l r, P l → P r → P (.add l r))
    (mul : ∀ l r, P l → P r → P (.mul l r)) (eq : ∀ l r, P l → P r → P (.eq l r))
    (rung : ∀ l r, P l → P r → P (.rung l r)) (and : ∀ l r, P l → P r → P (.and l r))
    (or : ∀ l r, P l → P r → P (.or l r))
    (all : ∀ z c, (∀ s : Formula, s.size = c.size → P s) → P (.arrow z .nat c))
    (implies : ∀ z d c, d ≠ .nat → P d → P c → P (.arrow z d c))
    (struct : ∀ z p s, (∀ s' : Formula, s'.size = s.size → P s') → P (.struct z p s))
    (t : Formula) : P t := by
  generalize size : t.size = n
  induction n using Nat.strongRecOn generalizing t with
  | ind n ih =>
    subst size
    have part (s : Formula) (h : s.size < t.size) : P s := ih s.size h s rfl
    cases t with
    | var z => exact var z
    | typeVar z => exact typeVar z
    | zero => exact zero
    | nat => exact nat
    | never => exact never
    | any => exact any
    | hole => exact hole
    | succ s => exact succ s (part s (by simp only [Formula.size]; omega))
    | arrow z d c =>
      by_cases quantifier : d = .nat
      · subst quantifier
        exact all z c fun s h => part s (by simp only [Formula.size]; omega)
      · refine implies z d c quantifier (part d ?_) (part c ?_) <;> simp only [Formula.size] <;> omega
    | struct z p s => exact struct z p s fun s' h => part s' (by simp only [Formula.size]; omega)
    | add l r => refine add l r (part l ?_) (part r ?_) <;> simp only [Formula.size] <;> omega
    | mul l r => refine mul l r (part l ?_) (part r ?_) <;> simp only [Formula.size] <;> omega
    | eq l r => refine eq l r (part l ?_) (part r ?_) <;> simp only [Formula.size] <;> omega
    | rung l r => refine rung l r (part l ?_) (part r ?_) <;> simp only [Formula.size] <;> omega
    | and l r => refine and l r (part l ?_) (part r ?_) <;> simp only [Formula.size] <;> omega
    | or l r => refine or l r (part l ?_) (part r ?_) <;> simp only [Formula.size] <;> omega

theorem rename_eq_rewrite (t : Formula) (x y : String) : rename t x y = rewrite t x (.var y) := by
  unfold rename
  induction t using binder_induction generalizing x y with
  | var z | typeVar z => rw [renameSized, rewrite]; split <;> rfl
  | all z c ih | struct z _ c ih =>
    rw [renameSized, rewrite, isFree_var]
    by_cases shadowed : z = x
    · rw [if_pos shadowed, if_pos shadowed]
    rw [if_neg shadowed, if_neg shadowed]
    by_cases captured : z = y
    · rw [if_pos captured, if_pos (by simpa using captured.symm)]
      simp only [rename, ih _ (renameSized c z _).2]
    · rw [if_neg captured, if_neg (by simpa using fun h => captured h.symm)]
      simp only [ih c rfl]
  | implies z d c quantifier ihd ihc =>
    rw [rewrite_implication quantifier, renameSized]
    · simp only [ihd, ihc]
    · exact quantifier
  | succ s ih => simp only [renameSized, rewrite, ih]
  | zero | nat | never | any | hole => simp only [renameSized, rewrite]
  | _ l r ihl ihr => simp only [renameSized, rewrite, ihl, ihr]

theorem rewrite_all (z : String) (c : Formula) (x : String) (u : Formula) : rewrite (.arrow z .nat c) x u =
      if z = x then .arrow z .nat c else if isFree z u then .arrow (freshName z [u, c]) .nat
        (rewrite (rewrite c z (.var (freshName z [u, c]))) x u) else .arrow z .nat (rewrite c x u) := by
  simp only [← rename_eq_rewrite]
  rw [rewrite]

theorem rewrite_struct (z p : String) (s : Formula) (x : String) (u : Formula) : rewrite (.struct z p s) x u =
      if z = x then .struct z p s else if isFree z u then .struct (freshName z [u, s, .var p]) p
        (rewrite (rewrite s z (.var (freshName z [u, s, .var p]))) x u) else .struct z p (rewrite s x u) := by
  simp only [← rename_eq_rewrite]
  rw [rewrite]

theorem size_rewrite_var (t : Formula) (x y : String) : (rewrite t x (.var y)).size = t.size := by
  rw [← rename_eq_rewrite, size_rename]

theorem isNat_iff : t.isNat ↔ t = .nat := by
  cases t <;> simp [isNat]

theorem isNat_of_ne (h : t ≠ .nat) : t.isNat = false := by
  rw [Bool.eq_false_iff, Ne, isNat_iff]
  exact h

theorem isAny_eq_false_iff : t.isAny = false ↔ t ≠ .any := by
  cases t <;> simp [isAny]

/-- What is no `nat`, or no `any`, does not become one. -/
theorem rewrite_ne_of_ne {a : Formula} (plain : a = .nat ∨ a = .any) (hd : d ≠ a) (hu : u ≠ a) (x : String) :
    rewrite d x u ≠ a := by
  rcases plain with rfl | rfl
  all_goals
    cases d with
    | var z | typeVar z => rw [rewrite]; split <;> assumption
    | arrow z d c =>
      by_cases quantifier : d = .nat
      · subst quantifier
        rw [rewrite_all]
        repeat' split
        all_goals simp
      · simp [rewrite_implication quantifier]
    | struct z p s =>
      rw [rewrite_struct]
      repeat' split
      all_goals simp
    | _ => first | exact absurd rfl hd | simp [rewrite]

theorem var_ne_nat (x : String) : Formula.var x ≠ .nat := nofun

theorem rewrite_eq_nat {x y : String} (h : t.rewrite x (.var y) = .nat) : t = .nat :=
  Decidable.not_not.1 fun ne => rewrite_ne_of_ne (.inl rfl) ne (var_ne_nat y) x h

def anyFree : Formula → Bool
  | .any => false
  | .succ t => t.anyFree
  | .add l r | .mul l r | .eq l r | .and l r | .or l r | .rung l r => l.anyFree && r.anyFree
  | .arrow _ d c => d.anyFree && c.anyFree
  | .struct _ _ s => s.anyFree
  | _ => true

theorem anyFree_numeral (n : Nat) : (numeral n).anyFree := by
  induction n with
  | zero => rfl
  | succ n ih => exact ih

theorem anyFree_rewrite {x : String} (ht : t.anyFree) (hu : u.anyFree) : (t.rewrite x u).anyFree := by
  induction t using binder_induction generalizing x u with
  | var z | typeVar z => rw [rewrite]; split <;> first | exact hu | rfl
  | zero | nat | never | any | hole => rw [rewrite]; exact ht
  | succ s ih => rw [rewrite]; exact ih ht hu
  | implies z d c quantifier ihd ihc =>
    simp only [anyFree, Bool.and_eq_true] at ht
    rw [rewrite_implication quantifier]
    simp only [anyFree, ihd ht.1 hu, ihc ht.2 hu, Bool.and_self]
  | all z c ih | struct z _ c ih =>
    simp only [rewrite_all, rewrite_struct]
    split
    · exact ht
    split
    · exact ih _ (size_rewrite_var c z _) (ih c rfl ht rfl) hu
    · exact ih c rfl ht hu
  | _ l r ihl ihr =>
    simp only [anyFree, Bool.and_eq_true] at ht
    simp only [rewrite, anyFree, ihl ht.1 hu, ihr ht.2 hu, Bool.and_self]

end Peano.Formula
