import Mathlib.Algebra.MvPolynomial.Funext
import Mathlib.Data.Finsupp.Order
import Peano.Proofs.Number.Polynomial
import Peano.Proofs.Text.Bytes
namespace Peano
open List

namespace Monomial

section Exponents

variable {ps qs : List (String × UInt64)}

theorem exponents_of_not_mem {x : String} (h : ∀ p ∈ ps, p.1 ≠ x) : exponents ps x = 0 := by
  induction ps with
  | nil => rfl
  | cons p ps ih =>
    obtain ⟨head, rest⟩ := forall_mem_cons.1 h
    rw [exponents_cons, Finsupp.add_apply, Finsupp.single_eq_of_ne (Ne.symm head), ih rest]

theorem exponents_of_mem {p : String × UInt64} (h : Fit ps) (hp : p ∈ ps) : exponents ps p.1 = p.2.toNat := by
  induction ps with
  | nil => cases hp
  | cons q ps ih =>
    have least := (pairwise_cons.1 h.ascending).1
    rw [exponents_cons, Finsupp.add_apply]
    rcases mem_cons.1 hp with rfl | hp
    · rw [Finsupp.single_eq_same, exponents_of_not_mem fun q hq => (least q hq).ne', Nat.add_zero]
    · rw [Finsupp.single_eq_of_ne (least p hp).ne', ih h.tail hp, Nat.zero_add]

theorem subset_of_exponents (hp : Fit ps) (hq : Fit qs) (h : exponents ps = exponents qs) : ps ⊆ qs := by
  intro p mem
  have present := hp.positive p mem
  rw [← exponents_of_mem hp mem, h] at present
  obtain ⟨q, mem', name⟩ : ∃ q ∈ qs, q.1 = p.1 := by
    by_contra absent
    rw [exponents_of_not_mem fun q hq name => absent ⟨q, hq, name⟩] at present
    exact Nat.lt_irrefl 0 present
  have exponent : q.2 = p.2 := by
    apply UInt64.toNat_inj.1
    rw [← exponents_of_mem hp mem, ← exponents_of_mem hq mem', h, name]
  exact Prod.ext name exponent ▸ mem'

theorem exponents_injective (hp : Fit ps) (hq : Fit qs) (h : exponents ps = exponents qs) : ps = qs := by
  refine Perm.eq_of_pairwise (fun p q _ _ before after => (lt_asymm before after).elim) hp.ascending
    hq.ascending ?_
  have distinct {ps : List (String × UInt64)} (h : Fit ps) : ps.Nodup :=
    h.ascending.imp fun before same => before.ne (congrArg Prod.fst same)
  exact (perm_ext_iff_of_nodup (distinct hp) (distinct hq)).2 fun p =>
    ⟨fun mem => subset_of_exponents hp hq h mem, fun mem => subset_of_exponents hq hp h.symm mem⟩

end Exponents

def powersValue (ρ : String → Int) (ps : List (String × UInt64)) : Int :=
  (ps.map fun p => ρ p.1 ^ p.2.toNat).prod

def value (ρ : String → Int) (m : Monomial) : Int := m.coefficient * powersValue ρ m.powers

theorem eval_toMv (ρ : String → Int) (m : Monomial) : m.toMv.eval ρ = m.value ρ := by
  obtain ⟨c, ps⟩ := m
  unfold toMv value
  induction ps with
  | nil => simp [exponents, powersValue]
  | cons p ps ih =>
    rw [exponents_cons, MvPolynomial.monomial_single_add, map_mul, ih, powersValue, powersValue,
      map_cons, prod_cons, map_pow, MvPolynomial.eval_X, mul_left_comm]

end Monomial

namespace Polynomial
open Monomial (exponents)

def value (ρ : String → Int) (p : Polynomial) : Int := (p.map (Monomial.value ρ)).sum

theorem eval_toMv (ρ : String → Int) (p : Polynomial) : p.toMv.eval ρ = p.value ρ := by
  unfold toMv value
  rw [map_list_sum, map_map]
  congr 1
  exact map_congr_left fun m _ => Monomial.eval_toMv ρ m

theorem mv_ext {p q : MvPolynomial String ℤ}
    (h : ∀ ρ : String → ℕ, p.eval (fun x => (ρ x : ℤ)) = q.eval fun x => (ρ x : ℤ)) : p = q := by
  refine MvPolynomial.funext_set (fun _ => Set.range ((↑) : ℕ → ℤ))
    (fun _ => Set.infinite_range_of_injective Nat.cast_injective) fun x hx => ?_
  choose ρ hρ using fun i => hx i (Set.mem_univ i)
  obtain rfl : (fun i => (ρ i : ℤ)) = x := funext hρ
  exact h ρ

section Coefficients

variable {p q : Polynomial} {m : Monomial}

theorem coeff_of_not_mem {e : String →₀ ℕ} (h : ∀ m ∈ p, exponents m.powers ≠ e) : p.toMv.coeff e = 0 := by
  induction p with
  | nil => simp [toMv]
  | cons n p ih =>
    obtain ⟨head, rest⟩ := forall_mem_cons.1 h
    rw [toMv_cons, MvPolynomial.coeff_add, ih rest, Monomial.toMv, MvPolynomial.coeff_monomial,
      if_neg head, add_zero]

theorem coeff_of_mem (fit : p.Fit) (distinct : (p.map Monomial.signature).Nodup) (hm : m ∈ p) :
    p.toMv.coeff (exponents m.powers) = m.coefficient := by
  induction p with
  | nil => cases hm
  | cons n p ih =>
    obtain ⟨first, rest⟩ := forall_mem_cons.1 fit
    obtain ⟨new, distinct⟩ := nodup_cons.1 distinct
    have other (k : Monomial) (hk : k ∈ p) : exponents k.powers ≠ exponents n.powers := by
      intro same
      refine new (mem_map.2 ⟨k, hk, ?_⟩)
      rw [Monomial.signature, Monomial.signature, Monomial.exponents_injective (rest k hk) first same]
    rw [toMv_cons, MvPolynomial.coeff_add, Monomial.toMv, MvPolynomial.coeff_monomial]
    rcases mem_cons.1 hm with rfl | hm
    · rw [if_pos rfl, coeff_of_not_mem other, add_zero]
    · rw [if_neg (other m hm).symm, ih rest distinct hm, zero_add]

theorem Normal.le_totalDegree (hp : p.Normal) (hm : m ∈ p) {f : String × UInt64} (h : f ∈ m.powers) :
    f.2.toNat ≤ p.toMv.totalDegree := by
  have occurs : exponents m.powers ∈ p.toMv.support := by
    rw [MvPolynomial.mem_support_iff, coeff_of_mem hp.fit hp.distinct hm]
    exact hp.nonzero m hm
  have part : Finsupp.single f.1 f.2.toNat ≤ exponents m.powers := List.le_sum_of_mem (mem_map.2 ⟨f, h, rfl⟩)
  calc f.2.toNat = Finsupp.single f.1 f.2.toNat f.1 := Finsupp.single_eq_same.symm
    _ ≤ exponents m.powers f.1 := part f.1
    _ ≤ (exponents m.powers).degree := Finsupp.le_degree f.1 _
    _ ≤ p.toMv.totalDegree := MvPolynomial.le_totalDegree occurs

/-- Exponents do not overflow in a product whose degree is a word. -/
theorem Normal.room (hp : p.Normal) (hq : q.Normal)
    (small : p.toMv.totalDegree + q.toMv.totalDegree < 2 ^ 64) : Room p q :=
  fun _ hm _ hn _ hf _ hg _ =>
    (Nat.add_le_add (hp.le_totalDegree hm hf) (hq.le_totalDegree hn hg)).trans_lt small

theorem Normal.subset (hp : p.Normal) (hq : q.Normal) (h : p.toMv = q.toMv) : p ⊆ q := by
  intro m hm
  have coefficient := coeff_of_mem hp.fit hp.distinct hm
  by_cases found : ∃ n ∈ q, exponents n.powers = exponents m.powers
  · obtain ⟨n, hn, same⟩ := found
    have powers : n.powers = m.powers := Monomial.exponents_injective (hq.fit n hn) (hp.fit m hm) same
    have coefficient' := coeff_of_mem hq.fit hq.distinct hn
    rw [same, ← h, coefficient] at coefficient'
    obtain ⟨c', ps'⟩ := n
    dsimp only at powers coefficient'
    rwa [powers, ← coefficient'] at hn
  · rw [h, coeff_of_not_mem fun n hn same => found ⟨n, hn, same⟩] at coefficient
    exact (hp.nonzero m hm coefficient.symm).elim

theorem Normal.nodup (hp : p.Normal) : p.Nodup := hp.distinct.of_map _

/-- Normal forms of the same polynomial have the same monomials. -/
theorem Normal.perm (hp : p.Normal) (hq : q.Normal) (h : p.toMv = q.toMv) : p.Perm q :=
  (perm_ext_iff_of_nodup hp.nodup hq.nodup).2 fun _ =>
    ⟨fun hm => hp.subset hq h hm, fun hm => hq.subset hp h.symm hm⟩

theorem simplify_perm_iff (hp : p.Fit) (hq : q.Fit) : (simplify p).Perm (simplify q) ↔ p.toMv = q.toMv := by
  obtain ⟨same, normal⟩ := simplify_spec hp
  obtain ⟨same', normal'⟩ := simplify_spec hq
  rw [← same, ← same']
  exact ⟨fun perm => (perm.map _).sum_eq, fun h => normal.perm normal' h⟩

/-- The comparison of simplified forms decides whether polynomials are equal. -/
theorem equal_iff (hp : p.Fit) (hq : q.Fit) : p.equal q ↔ p.toMv = q.toMv := by
  rw [← simplify_perm_iff hp hq, equal, Bool.and_eq_true, beq_iff_eq, all_eq_true]
  constructor
  · rintro ⟨length, members⟩
    have subset : simplify p ⊆ simplify q := fun m hm => by simpa using members m hm
    exact (subperm_of_subset (simplify_spec hp).2.nodup subset).perm_of_length_le length.ge
  · exact fun perm => ⟨perm.length_eq, fun m hm => by simpa using perm.subset hm⟩

theorem isZero_iff (hp : p.Fit) : p.isZero ↔ p.toMv = 0 := by
  rw [isZero, List.isEmpty_iff, ← perm_nil]
  exact simplify_perm_iff hp (forall_mem_nil _)

end Coefficients

/-- The operations are those of polynomials, and what they return is simplified. -/
theorem operations_exact {p q : Polynomial} (hp : p.Fit) (hq : q.Fit) :
    (∀ ρ, (simplify p).value ρ = p.value ρ ∧ (p.add q).value ρ = p.value ρ + q.value ρ ∧
      p.neg.value ρ = -p.value ρ ∧ (p.sub q).value ρ = p.value ρ - q.value ρ) ∧
    (simplify p).Normal ∧ (p.add q).Normal ∧ (p.sub q).Normal ∧
    (Room p q → (∀ ρ, (p.mul q).value ρ = p.value ρ * q.value ρ) ∧ (p.mul q).Normal) := by
  obtain ⟨same, normal⟩ := simplify_spec hp
  obtain ⟨sum, normalSum⟩ := add_spec hp hq
  obtain ⟨difference, normalDifference⟩ := sub_spec hp hq
  refine ⟨fun ρ => ?_, normal, normalSum, normalDifference, fun room => ?_⟩
  · simp only [← eval_toMv, same, sum, toMv_neg, difference, map_add, map_neg, map_sub, and_self]
  · obtain ⟨product, normalProduct⟩ := mul_spec hp hq room
    exact ⟨fun ρ => by simp only [← eval_toMv, product, map_mul], normalProduct⟩

/-- `(x + 1) (x - 1)`, with a one that is added in two parts. -/
theorem product_of_binomials :
    let p : Polynomial := [⟨2, []⟩, ⟨1, [("x", 1)]⟩, ⟨-1, []⟩]
    let q : Polynomial := [⟨1, [("x", 1)]⟩, ⟨-1, []⟩]
    (p.Fit ∧ q.Fit ∧ Room p q) ∧ (∀ ρ, (p.mul q).value ρ = p.value ρ * q.value ρ) ∧ (p.mul q).Normal ∧
      p.mul q = [⟨-1, []⟩, ⟨1, [("x", 2)]⟩] := by
  obtain ⟨values, normal⟩ := (operations_exact (p := [⟨2, []⟩, ⟨1, [("x", 1)]⟩, ⟨-1, []⟩])
    (q := [⟨1, [("x", 1)]⟩, ⟨-1, []⟩]) (by decide) (by decide)).2.2.2.2 (by decide)
  exact ⟨by decide, values, normal, by decide⟩

end Polynomial

section Text

namespace Monomial

variable {m n : Monomial} {c : Char}

theorem negSucc_toList (k : Nat) : (toString (Int.negSucc k)).toList = '-' :: (Nat.repr (k + 1)).toList := by
  show ("-" ++ Nat.repr (k + 1)).toList = _
  rw [String.toList_append]
  rfl

theorem not_mem_integer (k : Int) (digit : c.isDigit = false) (minus : c ≠ '-') : c ∉ (toString k).toList := by
  cases k with
  | ofNat k => exact not_mem_digits k digit
  | negSucc k =>
    rw [negSucc_toList]
    exact not_mem_cons_of_ne_of_not_mem minus (not_mem_digits (k + 1) digit)

theorem integer_injective {k l : Int} (h : (toString k).toList = (toString l).toList) : k = l := by
  have minus (k l : Nat) : (Nat.repr k).toList ≠ (toString (Int.negSucc l)).toList := fun same =>
    not_mem_digits k (show '-'.isDigit = false by decide) (by rw [same, negSucc_toList]; exact mem_cons_self)
  cases k with
  | ofNat k => cases l with
    | ofNat l => exact congrArg Int.ofNat (digits_injective h)
    | negSucc l => exact (minus _ _ h).elim
  | negSucc k => cases l with
    | ofNat l => exact (minus _ _ h.symm).elim
    | negSucc l =>
      rw [negSucc_toList, negSucc_toList] at h
      rw [Nat.succ.inj (digits_injective (List.cons.inj h).2)]

theorem text_toList (m : Monomial) : m.text.toList =
    (toString m.coefficient).toList ++ if m.powers = [] then [] else '*' :: m.signature.toList := by
  simp only [text, beq_iff_eq, signature_eq_empty_iff]
  split <;> simp [toString]

theorem star_not_mem_coefficient (m : Monomial) : '*' ∉ (toString m.coefficient).toList :=
  not_mem_integer _ (by decide) (by decide)

theorem star_mem_text_iff : '*' ∈ m.text.toList ↔ m.powers ≠ [] := by
  rw [text_toList, mem_append, or_iff_right (star_not_mem_coefficient m)]
  split <;> simp_all

/-- The first star ends the coefficient. -/
theorem text_injective (hm : Fit m.powers) (hn : Fit n.powers) (h : m.text = n.text) : m = n := by
  obtain ⟨coefficient, powers⟩ : m.coefficient = n.coefficient ∧ m.powers = n.powers := by
    have same := congrArg String.toList h
    have star : m.powers ≠ [] ↔ n.powers ≠ [] := by rw [← star_mem_text_iff, same, star_mem_text_iff]
    rw [text_toList, text_toList] at same
    by_cases constant : m.powers = []
    · have constant' : n.powers = [] := not_not.1 (mt star.2 (not_not.2 constant))
      rw [if_pos constant, if_pos constant', append_nil, append_nil] at same
      exact ⟨integer_injective same, constant.trans constant'.symm⟩
    · rw [if_neg constant, if_neg (star.1 constant)] at same
      obtain ⟨coefficient, signature⟩ :=
        append_cons_inj (star_not_mem_coefficient m) (star_not_mem_coefficient n) same
      exact ⟨integer_injective coefficient,
        powers_eq_of_signature hm hn (String.toList_inj.1 signature)⟩
  cases m
  simp_all

theorem blank_not_mem_text (h : ∀ p ∈ m.powers, ' ' ∉ p.1.toList) : ' ' ∉ m.text.toList := by
  have signature : ' ' ∉ m.signature.toList := by
    intro mem
    rw [signature_toList] at mem
    rcases mem_intercalate mem with star | ⟨l, hl, mem⟩
    · cases mem_singleton.1 star
    · obtain ⟨p, hp, rfl⟩ := mem_map.1 hl
      rcases mem_append.1 mem with name | exponent
      · exact h p hp name
      · exact not_mem_cons_of_ne_of_not_mem (by decide) (not_mem_digits _ (by decide)) exponent
  rw [text_toList, mem_append, not_or]
  refine ⟨not_mem_integer _ (by decide) (by decide), ?_⟩
  split
  · exact not_mem_nil
  · exact not_mem_cons_of_ne_of_not_mem (by decide) signature

end Monomial

namespace Polynomial

variable {p q : Polynomial}

/-- Names have no blanks, as those of identifiers. -/
def Worded (p : Polynomial) : Prop := ∀ m ∈ p, ∀ x ∈ m.powers, ' ' ∉ x.1.toList

instance (p : Polynomial) : Decidable p.Worded := inferInstanceAs (Decidable (∀ m ∈ p, ∀ x ∈ m.powers, _))

theorem Worded.simplify (h : p.Worded) : (simplify p).Worded :=
  forall_simplify (P := fun ps => ∀ x ∈ ps, ' ' ∉ x.1.toList) h

def written (p : Polynomial) : List Monomial :=
  if p = [] then [⟨0, []⟩] else p.mergeSort fun a b => a.signature ≤ b.signature

theorem text_eq (p : Polynomial) :
    p.text = String.intercalate " + " ((written (simplify p)).map Monomial.text) := by
  rw [text]
  split
  next none =>
    rw [none]
    rfl
  next some => rw [written, if_neg some]

theorem forall_written {P : Monomial → Prop} (zero : P ⟨0, []⟩) (h : ∀ m ∈ p, P m) : ∀ m ∈ written p, P m := by
  rw [written]
  split
  · exact forall_mem_singleton.2 zero
  · exact fun m hm => h m ((mergeSort_perm p _).subset hm)

theorem written_ne_nil (p : Polynomial) : written p ≠ [] := by
  rw [written]
  split
  · exact cons_ne_nil _ _
  next some => exact fun none => some (nil_perm.1 (none ▸ mergeSort_perm p _))

/-- Only the zero that stands for no monomials is written and not one of them. -/
theorem Normal.filter_written (hp : p.Normal) : ((written p).filter (·.coefficient != 0)).Perm p := by
  rw [written]
  split
  next none =>
    rw [none]
    exact .nil
  · rw [filter_eq_self.2 fun m hm => by simpa using hp.nonzero m ((mergeSort_perm p _).subset hm)]
    exact mergeSort_perm p _

theorem Normal.written_eq (hp : p.Normal) (perm : p.Perm q) : written p = written q := by
  rw [written, written]
  by_cases none : p = []
  · rw [none] at perm ⊢
    rw [nil_perm.1 perm]
  · have none' : q ≠ [] := fun h => none (perm_nil.1 (h ▸ perm))
    rw [if_neg none, if_neg none']
    have sorted (r : Polynomial) : (r.mergeSort fun a b => a.signature ≤ b.signature).Pairwise
        fun a b => a.signature ≤ b.signature := by
      simpa using @pairwise_mergeSort Monomial (fun a b => decide (a.signature ≤ b.signature))
        (fun a b c => by simpa using le_trans) (fun a b => by simpa using le_total _ _) r
    refine Perm.eq_of_pairwise (fun a b ha hb below above => ?_) (sorted p) (sorted q)
      (((mergeSort_perm p _).trans perm).trans (mergeSort_perm q _).symm)
    exact inj_on_of_nodup_map hp.distinct ((mergeSort_perm p _).subset ha)
      (perm.symm.subset ((mergeSort_perm q _).subset hb)) (le_antisymm below above)

/-- What is written in the same way is the same polynomial. -/
theorem text_eq_iff (hp : p.Fit) (hq : q.Fit) (names : p.Worded) (names' : q.Worded) :
    p.text = q.text ↔ p.toMv = q.toMv := by
  obtain ⟨-, normal⟩ := simplify_spec hp
  obtain ⟨-, normal'⟩ := simplify_spec hq
  have fit {r : Polynomial} (h : r.Fit) : ∀ m ∈ written r, Monomial.Fit m.powers :=
    forall_written ⟨forall_mem_nil _, .nil, forall_mem_nil _⟩ h
  have words {r : Polynomial} (h : r.Worded) :
      ∀ l ∈ (written r).map fun m => m.text.toList, ' ' ∉ l := by
    refine forall_mem_map.2 (forall_written (by decide) fun m hm => ?_)
    exact Monomial.blank_not_mem_text (h m hm)
  rw [← simplify_perm_iff hp hq, text_eq, text_eq, ← String.toList_inj, String.toList_intercalate,
    String.toList_intercalate, map_map, map_map]
  refine ⟨fun same => ?_, fun perm => by rw [normal.written_eq perm]⟩
  have lists := Monomial.intercalate_injective (words names.simplify) (words names'.simplify) ?_ ?_ same
  · have equal : written (simplify p) = written (simplify q) := by
      refine Monomial.eq_of_map_eq (fun a ha b hb same => ?_) lists
      exact Monomial.text_injective (fit normal.fit a ha) (fit normal'.fit b hb) (String.toList_inj.1 same)
    exact normal.filter_written.symm.trans (equal ▸ normal'.filter_written)
  · exact map_eq_nil_iff.not.2 (written_ne_nil _)
  · exact map_eq_nil_iff.not.2 (written_ne_nil _)

/-- Equality is decided by the texts, by the values and by the difference. -/
theorem equality_canonical {p q : Polynomial} (hp : p.Fit) (hq : q.Fit) (names : p.Worded) (names' : q.Worded) :
    (p.equal q ↔ p.text = q.text) ∧ (p.equal q ↔ ∀ ρ, p.value ρ = q.value ρ) ∧
      (p.equal q ↔ (p.sub q).isZero) := by
  obtain ⟨difference, normal⟩ := sub_spec hp hq
  rw [equal_iff hp hq, text_eq_iff hp hq names names', isZero_iff normal.fit, difference, sub_eq_zero]
  refine ⟨Iff.rfl, ⟨fun same ρ => ?_, fun same => ?_⟩, Iff.rfl⟩
  · rw [← eval_toMv, ← eval_toMv, same]
  · refine MvPolynomial.funext fun ρ => ?_
    rw [eval_toMv, eval_toMv, same]

/-- `x + y + x` and `y + 2 x`. -/
theorem sum_written_once :
    let p : Polynomial := [⟨1, [("x", 1)]⟩, ⟨1, [("y", 1)]⟩, ⟨1, [("x", 1)]⟩]
    let q : Polynomial := [⟨1, [("y", 1)]⟩, ⟨2, [("x", 1)]⟩]
    (p.Fit ∧ q.Fit ∧ p.Worded ∧ q.Worded) ∧ p.text = q.text ∧ ∀ ρ, p.value ρ = q.value ρ := by
  obtain ⟨texts, values, -⟩ := equality_canonical (p := [⟨1, [("x", 1)]⟩, ⟨1, [("y", 1)]⟩, ⟨1, [("x", 1)]⟩])
    (q := [⟨1, [("y", 1)]⟩, ⟨2, [("x", 1)]⟩]) (by decide) (by decide) (by decide) (by decide)
  exact ⟨by decide, texts.1 (by decide), values.1 (by decide)⟩

end Polynomial

end Text

end Peano
