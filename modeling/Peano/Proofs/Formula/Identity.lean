import Mathlib.Algebra.MvPolynomial.NoZeroDivisors
import Peano.Formula.Equal
import Peano.Proofs.Formula.Reading
import Peano.Proofs.Number.Normal
namespace Peano.Formula
open List
open Peano.Polynomial (add_spec equal_iff eval_toMv fit_neg mul_spec mv_ext simplify_spec sub_spec toMv_neg)

variable {t l r : Formula}

/-- A bound for the degree of the polynomial of a term. -/
def degree : Formula → Nat
  | .var _ => 1
  | .succ t => t.degree
  | .add l r => max l.degree r.degree
  | .mul l r => l.degree + r.degree
  | _ => 0

def plainNames : Formula → Bool
  | .var x => plainName x
  | .succ t => t.plainNames
  | .add l r | .mul l r => l.plainNames && r.plainNames
  | _ => true

/-- Signatures tell the monomials of this term apart, and its exponents are words. -/
def reckonable (t : Formula) : Bool := t.plainNames && decide (t.degree < 2 ^ 64)

def isTerm : Formula → Bool
  | .var _ | .zero => true
  | .succ t => t.isTerm
  | .add l r | .mul l r => l.isTerm && r.isTerm
  | _ => false

/-- The polynomial a term is, with natural coefficients. -/
noncomputable def function : Formula → MvPolynomial String ℕ
  | .var x => .X x
  | .succ t => t.function + 1
  | .add l r => l.function + r.function
  | .mul l r => l.function * r.function
  | _ => 0

theorem eval_function (term : t.isTerm) (ρ : String → ℕ) : t.function.eval ρ = t.value ρ := by
  induction t with
  | var x => exact MvPolynomial.eval_X x
  | zero => exact map_zero _
  | succ t ih => simp [function, value, ih term]
  | add l r ihl ihr | mul l r ihl ihr =>
    rw [isTerm, Bool.and_eq_true] at term
    simp [function, value, ihl term.1, ihr term.2]
  | _ => cases term

/-- Natural coefficients do not cancel, so no summand has a higher degree than the sum. -/
theorem totalDegree_le_add (p q : MvPolynomial String ℕ) : p.totalDegree ≤ (p + q).totalDegree := by
  refine Finset.sup_mono fun e he => ?_
  rw [MvPolynomial.mem_support_iff] at he ⊢
  rw [MvPolynomial.coeff_add]
  omega

noncomputable def integral (t : Formula) : MvPolynomial String ℤ := t.function.map (Nat.castRingHom ℤ)

theorem eval_integral (term : t.isTerm) (ρ : String → ℕ) :
    t.integral.eval (fun x => (ρ x : ℤ)) = t.value ρ := by
  rw [← eval_function term, integral, MvPolynomial.eval_map]
  exact (MvPolynomial.eval₂_comp_left (Nat.castRingHom ℤ) (.id ℕ) ρ t.function).symm

theorem totalDegree_integral (t : Formula) : t.integral.totalDegree = t.function.totalDegree := by
  rw [integral, MvPolynomial.totalDegree, MvPolynomial.totalDegree,
    MvPolynomial.support_map_of_injective _ Nat.cast_injective]

theorem function_of_numeralFrom? {seen n : Nat} (h : numeralFrom? seen t = some n) :
    t.isTerm ∧ (seen : MvPolynomial String ℕ) + t.function = n := by
  induction t generalizing seen with
  | zero =>
    obtain rfl : seen = n := Option.some.inj h
    exact ⟨rfl, add_zero _⟩
  | succ t ih =>
    obtain ⟨term, sum⟩ := ih h
    refine ⟨term, ?_⟩
    rw [← sum, function, Nat.cast_succ]
    ring
  | _ => cases h

theorem isSome_polynomial? (t : Formula) : (polynomial? t).isSome = t.isTerm := by
  induction t with
  | succ t ih =>
    rw [polynomial?, isTerm]
    split
    next n numeral =>
      have term : (Formula.succ t).isTerm := (function_of_numeralFrom? numeral).1
      exact term.symm
    · rw [Option.isSome_map, ih]
  | add l r ihl ihr | mul l r ihl ihr =>
    rw [polynomial?, isTerm, ← ihl, ← ihr]
    cases polynomial? l <;> cases polynomial? r <;> rfl
  | _ => rfl

structure Represents (p : Polynomial) (t : Formula) : Prop where
  normal : p.Normal
  same : p.toMv = t.integral

section Operations

variable {p q : Polynomial}

theorem normal_nil : Polynomial.Normal [] := ⟨forall_mem_nil _, forall_mem_nil _, nodup_nil⟩

theorem Represents.eq_nil (h : Represents p t) (zero : t.function = 0) : p = [] := by
  refine (h.normal.perm normal_nil ?_).eq_nil
  rw [h.same, integral, zero]
  rfl

theorem represents_nil (h : t.function = 0) : Represents [] t :=
  ⟨normal_nil, by rw [integral, h]; rfl⟩

theorem represents_const {n : ℕ} (h : t.function = n) : Represents (.const n) t := by
  obtain ⟨same, normal⟩ := simplify_spec (p := [⟨n, []⟩])
    (forall_mem_singleton.2 ⟨forall_mem_nil _, .nil, forall_mem_nil _⟩)
  refine ⟨normal, same.trans ?_⟩
  rw [integral, h]
  simp [Polynomial.toMv, Monomial.toMv, Monomial.exponents]

theorem represents_ofName {x : String} (plain : plainName x) : Represents (.ofName x) (.var x) := by
  refine ⟨⟨?_, ?_, nodup_singleton _⟩, ?_⟩
  · exact forall_mem_singleton.2 ⟨forall_mem_singleton.2 plain, pairwise_singleton _ _,
      forall_mem_singleton.2 Nat.one_pos⟩
  · exact forall_mem_singleton.2 one_ne_zero
  · simp [Polynomial.toMv, Polynomial.ofName, Monomial.toMv, Monomial.exponents, integral, function,
      MvPolynomial.X]

theorem represents_add (hp : Represents p l) (hq : Represents q r) : Represents (p.add q) (.add l r) := by
  obtain ⟨sum, normal⟩ := add_spec hp.normal.fit hq.normal.fit
  refine ⟨normal, ?_⟩
  rw [sum, hp.same, hq.same, integral, integral, integral, function, map_add]

theorem mul_nil (p : Polynomial) : p.mul [] = [] := by
  have products : (p.flatMap fun m => ([] : Polynomial).map m.mul) = [] := by simp
  rw [Polynomial.mul, products]
  rfl

/-- A factor 0 makes the product 0, however high the degree of the other factor is. -/
theorem represents_mul (hp : l.function.totalDegree < 2 ^ 64 → Represents p l)
    (hq : r.function.totalDegree < 2 ^ 64 → Represents q r)
    (small : (l.function * r.function).totalDegree < 2 ^ 64) : Represents (p.mul q) (.mul l r) := by
  by_cases zero : l.function = 0
  · rw [(hp (by simp [zero])).eq_nil zero]
    exact represents_nil (by rw [function, zero, zero_mul])
  by_cases zero' : r.function = 0
  · rw [(hq (by simp [zero'])).eq_nil zero', mul_nil]
    exact represents_nil (by rw [function, zero', mul_zero])
  · rw [MvPolynomial.totalDegree_mul_of_isDomain zero zero'] at small
    obtain ⟨normal, same⟩ := hp (by omega)
    obtain ⟨normal', same'⟩ := hq (by omega)
    rw [← totalDegree_integral, ← totalDegree_integral, ← same, ← same'] at small
    obtain ⟨product, normal''⟩ := mul_spec normal.fit normal'.fit (normal.room normal' small)
    refine ⟨normal'', ?_⟩
    rw [product, same, same', integral, integral, integral, function, map_mul]

end Operations

theorem polynomial?_represents {p : Polynomial} (plain : t.plainNames)
    (small : t.function.totalDegree < 2 ^ 64) (h : polynomial? t = some p) : Represents p t := by
  induction t generalizing p with
  | zero =>
    cases h
    exact represents_nil rfl
  | var x =>
    cases h
    exact represents_ofName plain
  | succ t ih =>
    have one : Represents .one (.succ .zero) := represents_const (n := 1) (by simp [function])
    rw [polynomial?] at h
    split at h
    next n numeral =>
      cases h
      refine represents_const ?_
      rw [← (function_of_numeralFrom? numeral).2, Nat.cast_zero, zero_add]
    · obtain ⟨q, hq, rfl⟩ := Option.map_eq_some_iff.1 h
      have degree := totalDegree_le_add t.function 1
      obtain ⟨normal, same⟩ := represents_add (ih plain (degree.trans_lt small) hq) one
      refine ⟨normal, same.trans ?_⟩
      simp [integral, function]
  | add l r ihl ihr =>
    rw [plainNames, Bool.and_eq_true] at plain
    have degree := totalDegree_le_add l.function r.function
    have degree' := totalDegree_le_add r.function l.function
    rw [add_comm] at degree'
    rw [polynomial?] at h
    split at h
    · cases h
      exact represents_add (ihl plain.1 (degree.trans_lt small) ‹_›) (ihr plain.2 (degree'.trans_lt small) ‹_›)
    · cases h
  | mul l r ihl ihr =>
    rw [plainNames, Bool.and_eq_true] at plain
    rw [polynomial?] at h
    split at h
    · cases h
      exact represents_mul (fun small => ihl plain.1 small ‹_›) (fun small => ihr plain.2 small ‹_›) small
    · cases h
  | _ => cases h

/-- An equation between terms in plain names whose degrees are words. -/
structure Equation where
  left : Formula
  right : Formula
  left_term : left.isTerm = true
  right_term : right.isTerm = true
  left_plain : left.plainNames = true
  right_plain : right.plainNames = true
  left_small : left.function.totalDegree < 2 ^ 64
  right_small : right.function.totalDegree < 2 ^ 64

theorem totalDegree_function_le (t : Formula) : t.function.totalDegree ≤ t.degree := by
  induction t with
  | var x => exact (MvPolynomial.totalDegree_X x).le
  | succ t ih =>
    refine (MvPolynomial.totalDegree_add _ _).trans (max_le ih ?_)
    rw [MvPolynomial.totalDegree_one]
    exact Nat.zero_le _
  | add l r ihl ihr =>
    exact (MvPolynomial.totalDegree_add _ _).trans (max_le_max ihl ihr)
  | mul l r ihl ihr =>
    exact (MvPolynomial.totalDegree_mul _ _).trans (Nat.add_le_add ihl ihr)
  | _ => exact MvPolynomial.totalDegree_zero.le

namespace Equation

variable {a b c : Equation}

/-- An equation all of whose conditions can be evaluated. -/
def ofReckonable (l r : Formula) (hl : (l.isTerm && l.reckonable) = true)
    (hr : (r.isTerm && r.reckonable) = true) : Equation :=
  have hl : l.isTerm = true ∧ l.plainNames = true ∧ l.degree < 2 ^ 64 := by
    simpa [reckonable] using hl
  have hr : r.isTerm = true ∧ r.plainNames = true ∧ r.degree < 2 ^ 64 := by
    simpa [reckonable] using hr
  ⟨l, r, hl.1, hr.1, hl.2.1, hr.2.1, (totalDegree_function_le l).trans_lt hl.2.2,
    (totalDegree_function_le r).trans_lt hr.2.2⟩

def Same (a b : Equation) : Prop := sameIdentity a.left a.right b.left b.right = true

def TrueAt (ρ : String → ℕ) (a : Equation) : Prop := a.left.value ρ = a.right.value ρ

def gap (ρ : String → ℕ) (a : Equation) : ℤ := a.left.value ρ - a.right.value ρ

theorem exists_difference (a : Equation) : ∃ p, difference? a.left a.right = some p ∧ p.Fit ∧
    p.toMv = a.left.integral - a.right.integral := by
  obtain ⟨p, hp⟩ := Option.isSome_iff_exists.1 ((isSome_polynomial? _).trans a.left_term)
  obtain ⟨q, hq⟩ := Option.isSome_iff_exists.1 ((isSome_polynomial? _).trans a.right_term)
  have reprP := polynomial?_represents a.left_plain a.left_small hp
  have reprQ := polynomial?_represents a.right_plain a.right_small hq
  obtain ⟨difference, normal⟩ := sub_spec reprP.normal.fit reprQ.normal.fit
  exact ⟨p.sub q, by rw [difference?, hp, hq], normal.fit, by rw [difference, reprP.same, reprQ.same]⟩

theorem eval_gap (a : Equation) (ρ : String → ℕ) :
    (a.left.integral - a.right.integral).eval (fun x => (ρ x : ℤ)) = a.gap ρ := by
  rw [map_sub, eval_integral a.left_term, eval_integral a.right_term, gap]

theorem same_iff_gap : a.Same b ↔ (∀ ρ, a.gap ρ = b.gap ρ) ∨ ∀ ρ, a.gap ρ = -b.gap ρ := by
  obtain ⟨p, hp, fit, difference⟩ := a.exists_difference
  obtain ⟨q, hq, fit', difference'⟩ := b.exists_difference
  unfold Same sameIdentity
  rw [hp, hq]
  simp only [Bool.or_eq_true, equal_iff fit fit', equal_iff fit (fit_neg fit'), toMv_neg, difference,
    difference', ← eval_gap, ← map_neg]
  exact or_congr ⟨fun same ρ => by rw [same], mv_ext⟩ ⟨fun same ρ => by rw [same], mv_ext⟩

theorem trueAt_iff_gap {ρ : String → ℕ} : a.TrueAt ρ ↔ a.gap ρ = 0 := by
  unfold TrueAt gap
  omega

theorem trueAt_iff_of_same (h : a.Same b) (ρ : String → ℕ) : a.TrueAt ρ ↔ b.TrueAt ρ := by
  rw [trueAt_iff_gap, trueAt_iff_gap]
  rcases same_iff_gap.1 h with same | opposite
  · rw [same]
  · rw [opposite, neg_eq_zero]

/-- Two functions that agree up to sign everywhere do so with one of the signs; equations inherit
reflexivity, symmetry and transitivity from that. -/
theorem same_equivalence : Equivalence Same where
  refl a := same_iff_gap.2 (.inl fun _ => rfl)
  symm h := same_iff_gap.2 <| (same_iff_gap.1 h).imp (fun same ρ => (same ρ).symm)
    fun opposite ρ => by rw [opposite, neg_neg]
  trans h h' := by
    rw [same_iff_gap] at *
    rcases h with same | opposite
    · simpa only [same] using h'
    · rcases h' with same' | opposite'
      · exact .inr fun ρ => by rw [opposite, same']
      · exact .inl fun ρ => by rw [opposite, opposite', neg_neg]

/-- `ring` decides identities: two equations are found to be the same exactly if the differences of
their sides agree at all numbers, with one sign or the other. So being the same is an equivalence,
and equations that are the same are true for the same numbers. -/
theorem ring_decides_identities : (∀ a b : Equation, a.Same b ↔
      (∀ ρ, a.left.value ρ + b.right.value ρ = a.right.value ρ + b.left.value ρ) ∨
        ∀ ρ, a.left.value ρ + b.left.value ρ = a.right.value ρ + b.right.value ρ) ∧
      Equivalence Same ∧ ∀ a b : Equation, a.Same b → ∀ ρ, a.TrueAt ρ ↔ b.TrueAt ρ := by
  refine ⟨fun a b => ?_, same_equivalence, fun a b h ρ => trueAt_iff_of_same h ρ⟩
  rw [same_iff_gap]
  refine or_congr (forall_congr' fun ρ => ?_) (forall_congr' fun ρ => ?_)
  · unfold gap
    omega
  · unfold gap
    omega

/-- `(x + 1)² = y`. -/
def square : Equation :=
  ofReckonable (.mul (.succ (.var "x")) (.succ (.var "x"))) (.var "y") (by decide) (by decide)

/-- `y = x² + 2x + 1`. -/
def expansion : Equation :=
  ofReckonable (.var "y") (.add (.mul (.var "x") (.var "x")) (.succ (.add (.var "x") (.var "x"))))
    (by decide) (by decide)

theorem square_same_expansion : square.Same expansion ∧ ∀ ρ, square.TrueAt ρ ↔ expansion.TrueAt ρ := by
  have same : square.Same expansion := (ring_decides_identities.1 _ _).2 <| .inr fun ρ => by
    simp only [square, expansion, ofReckonable, Formula.value]
    ring
  exact ⟨same, ring_decides_identities.2.2 _ _ same⟩

end Equation

theorem value_eq_iff_of_sameIdentity {l' r' : Formula} (hl : l.reckonable) (hr : r.reckonable)
    (hl' : l'.reckonable) (hr' : r'.reckonable) (h : sameIdentity l r l' r')
    (ρ : String → Nat) : l.value ρ = r.value ρ ↔ l'.value ρ = r'.value ρ := by
  have terms : (l.isTerm ∧ r.isTerm) ∧ l'.isTerm ∧ r'.isTerm := by
    simp only [← isSome_polynomial?]
    grind [sameIdentity, difference?]
  have side {t : Formula} (term : t.isTerm) (ht : t.reckonable) : (t.isTerm && t.reckonable) = true := by
    rw [term, ht, Bool.and_self]
  exact Equation.trueAt_iff_of_same (a := .ofReckonable l r (side terms.1.1 hl) (side terms.1.2 hr))
    (b := .ofReckonable l' r' (side terms.2.1 hl') (side terms.2.2 hr')) h ρ

end Peano.Formula
