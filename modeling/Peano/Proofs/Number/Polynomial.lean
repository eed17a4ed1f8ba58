import Mathlib.Algebra.MvPolynomial.Eval
import Mathlib.Algebra.Order.Ring.Int
import Mathlib.Data.List.Nodup
import Mathlib.Data.String.Basic
import Peano.Number.Polynomial
namespace Peano
open List

/-- A name that can be told from the rest of a signature. -/
def plainName (x : String) : Bool := x.toList.all fun c => c != '*' && c != '^'

namespace Monomial

variable {ps : List (String × UInt64)}

/-- What the powers of a monomial are: the names are plain and ascend, and each one really occurs. -/
structure Fit (ps : List (String × UInt64)) : Prop where
  plain : ∀ p ∈ ps, plainName p.1 = true
  ascending : ps.Pairwise (·.1 < ·.1)
  positive : ∀ p ∈ ps, 0 < p.2.toNat

instance (ps : List (String × UInt64)) : Decidable (Fit ps) :=
  decidable_of_iff ((∀ p ∈ ps, plainName p.1 = true) ∧ ps.Pairwise (·.1 < ·.1) ∧ ∀ p ∈ ps, 0 < p.2.toNat)
    ⟨fun h => ⟨h.1, h.2.1, h.2.2⟩, fun h => ⟨h.plain, h.ascending, h.positive⟩⟩

section Signature

def factor (p : String × UInt64) : List Char := p.1.toList ++ '^' :: (Nat.repr p.2.toNat).toList

theorem signature_toList (m : Monomial) : m.signature.toList = ['*'].intercalate (m.powers.map factor) := by
  unfold signature
  rw [String.toList_intercalate]
  congr 1
  simp [factor, toString]

theorem not_mem_digits {c : Char} (n : Nat) (h : c.isDigit = false) : c ∉ (Nat.repr n).toList := by
  intro mem
  rw [Nat.repr, String.toList_ofList] at mem
  cases h.symm.trans (Nat.isDigit_of_mem_toDigits (by decide) (by decide) mem)

theorem digits_injective {m n : Nat} (h : (Nat.repr m).toList = (Nat.repr n).toList) : m = n := by
  rw [Nat.repr, Nat.repr, String.toList_ofList, String.toList_ofList] at h
  rw [← Nat.ofDigitChars_ten_toDigits (n := m), h, Nat.ofDigitChars_ten_toDigits]

theorem factor_injective {p q : String × UInt64} (hp : plainName p.1) (h : factor p = factor q) : p = q := by
  have caret : '^' ∉ p.1.toList := by
    intro mem
    have := all_eq_true.1 hp _ mem
    simp at this
  obtain ⟨name, -, digits⟩ :=
    (append_cons_inj_of_notMem caret (not_mem_digits _ (by decide))).1 h
  exact Prod.ext (String.toList_inj.1 name) (UInt64.toNat_inj.1 (digits_injective digits))

theorem star_not_mem_factor {p : String × UInt64} (hp : plainName p.1) : '*' ∉ factor p := by
  intro mem
  rcases mem_append.1 mem with mem | mem
  · have := all_eq_true.1 hp _ mem
    simp at this
  · rcases mem_cons.1 mem with mem | mem
    · cases mem
    · exact not_mem_digits _ (by decide) mem

theorem eq_of_map_eq {α β : Type} {f : α → β} {as bs : List α} (inj : ∀ a ∈ as, ∀ b ∈ bs, f a = f b → a = b)
    (h : as.map f = bs.map f) : as = bs := by
  induction as generalizing bs with
  | nil => exact (map_eq_nil_iff.1 h.symm).symm
  | cons a as ih => cases bs with
    | nil => cases h
    | cons b bs =>
      obtain ⟨head, tail⟩ := List.cons.inj h
      rw [inj a mem_cons_self b mem_cons_self head,
        ih (fun c hc d hd => inj c (mem_cons_of_mem _ hc) d (mem_cons_of_mem _ hd)) tail]

/-- What is before the first of some characters, and what is behind it. -/
theorem append_cons_inj {c : Char} {a b u v : List Char} (ha : c ∉ a) (hb : c ∉ b)
    (h : a ++ c :: u = b ++ c :: v) : a = b ∧ u = v := by
  have cut {a u : List Char} (ha : c ∉ a) : (a ++ c :: u).takeWhile (· != c) = a := by
    rw [takeWhile_append_of_pos fun d hd => bne_iff_ne.2 (ne_of_mem_of_not_mem hd ha)]
    simp
  obtain rfl : a = b := by rw [← cut ha, h, cut hb]
  exact ⟨rfl, (List.cons.inj (append_cancel_left h)).2⟩

/-- Words are told apart by a separator that begins with a character of none of them. -/
theorem intercalate_injective {c : Char} {s : List Char} {as bs : List (List Char)} (ha : ∀ a ∈ as, c ∉ a)
    (hb : ∀ b ∈ bs, c ∉ b) (some : as ≠ []) (some' : bs ≠ [])
    (h : (c :: s).intercalate as = (c :: s).intercalate bs) : as = bs := by
  induction as generalizing bs with
  | nil => exact (some rfl).elim
  | cons a as ih =>
    obtain ⟨b, bs, rfl⟩ := exists_cons_of_ne_nil some'
    obtain ⟨first, others⟩ := forall_mem_cons.1 ha
    obtain ⟨first', others'⟩ := forall_mem_cons.1 hb
    cases as with
    | nil => cases bs with
      | nil => simpa using h
      | cons b' bs =>
        rw [intercalate_singleton] at h
        exact (first (by simp [h])).elim
    | cons a' as => cases bs with
      | nil =>
        rw [intercalate_singleton] at h
        exact (first' (by simp [← h])).elim
      | cons b' bs =>
        obtain ⟨rfl, rest⟩ := append_cons_inj first first' h
        rw [ih others others' (cons_ne_nil _ _) (cons_ne_nil _ _) (append_cancel_left rest)]

theorem caret_mem_signature {m : Monomial} (h : m.powers ≠ []) : '^' ∈ m.signature.toList := by
  rw [signature_toList]
  cases powers : m.powers with
  | nil => exact (h powers).elim
  | cons p ps =>
    have here : '^' ∈ factor p := mem_append.2 (.inr mem_cons_self)
    cases ps with
    | nil => simpa using here
    | cons q qs => simp [here]

theorem signature_eq_empty_iff {m : Monomial} : m.signature = "" ↔ m.powers = [] := by
  rw [← String.toList_eq_nil_iff]
  refine ⟨fun none => ?_, fun none => by rw [signature_toList, none]; rfl⟩
  by_contra some
  have := caret_mem_signature some
  rw [none] at this
  cases this

/-- Monomials are told apart by their signatures. -/
theorem powers_eq_of_signature {m n : Monomial} (hm : Fit m.powers) (hn : Fit n.powers)
    (h : m.signature = n.signature) : m.powers = n.powers := by
  by_cases zero : m.powers = []
  · rw [zero, signature_eq_empty_iff.1 (h ▸ signature_eq_empty_iff.2 zero)]
  · have zero' : n.powers ≠ [] := fun none =>
      zero (signature_eq_empty_iff.1 (h ▸ signature_eq_empty_iff.2 none))
    have words {k : Monomial} (hk : Fit k.powers) : ∀ l ∈ k.powers.map factor, '*' ∉ l :=
      forall_mem_map.2 fun p hp => star_not_mem_factor (hk.plain p hp)
    refine eq_of_map_eq (fun p hp q _ => factor_injective (hm.plain p hp))
      (intercalate_injective (s := []) (words hm) (words hn) (by simpa) (by simpa) ?_)
    rw [← signature_toList, ← signature_toList, h]

end Signature

section Exponents

variable {x : String} {e : UInt64}

noncomputable def exponents (ps : List (String × UInt64)) : String →₀ ℕ :=
  (ps.map fun p => Finsupp.single p.1 p.2.toNat).sum

theorem exponents_cons (p : String × UInt64) (ps : List (String × UInt64)) :
    exponents (p :: ps) = Finsupp.single p.1 p.2.toNat + exponents ps := by
  simp [exponents]

theorem Fit.tail {p : String × UInt64} (h : Fit (p :: ps)) : Fit ps :=
  ⟨(forall_mem_cons.1 h.plain).2, (pairwise_cons.1 h.ascending).2, (forall_mem_cons.1 h.positive).2⟩

theorem Fit.cons {p : String × UInt64} (h : Fit ps) (plain : plainName p.1) (pos : 0 < p.2.toNat)
    (least : ∀ q ∈ ps, p.1 < q.1) : Fit (p :: ps) :=
  ⟨forall_mem_cons.2 ⟨plain, h.plain⟩, pairwise_cons.2 ⟨least, h.ascending⟩,
    forall_mem_cons.2 ⟨pos, h.positive⟩⟩

theorem mem_insertPower {q : String × UInt64} (h : q ∈ insertPower x e ps) : q.1 = x ∨ q ∈ ps := by
  induction ps with
  | nil =>
    rw [insertPower, mem_singleton] at h
    exact .inl (by rw [h])
  | cons p ps ih =>
    rw [insertPower] at h
    split at h
    next same =>
      refine (mem_cons.1 h).imp (fun head => ?_) (mem_cons_of_mem _)
      rw [head, same]
    split at h
    · exact (mem_cons.1 h).imp_left fun head => by rw [head]
    · rcases mem_cons.1 h with rfl | h
      · exact .inr mem_cons_self
      · exact (ih h).imp_right (mem_cons_of_mem _)

/-- Multiplying by a power adds to the exponent of its variable, unless that overflows. -/
theorem insertPower_spec (h : Fit ps) (plain : plainName x) (pos : 0 < e.toNat)
    (room : ∀ p ∈ ps, p.1 = x → p.2.toNat + e.toNat < 2 ^ 64) :
    Fit (insertPower x e ps) ∧ exponents (insertPower x e ps) = exponents ps + .single x e.toNat := by
  induction ps with
  | nil =>
    refine ⟨h.cons plain pos (forall_mem_nil _), ?_⟩
    rw [insertPower, exponents_cons, add_comm]
  | cons p ps ih =>
    obtain ⟨other, f⟩ := p
    obtain ⟨plain', -⟩ := forall_mem_cons.1 h.plain
    obtain ⟨least, -⟩ := pairwise_cons.1 h.ascending
    obtain ⟨hf, -⟩ := forall_mem_cons.1 h.positive
    rw [insertPower]
    split
    next same =>
      subst same
      have exact : (f + e).toNat = f.toNat + e.toNat := by
        rw [UInt64.toNat_add, Nat.mod_eq_of_lt (room _ mem_cons_self rfl)]
      refine ⟨h.tail.cons plain (by dsimp only; omega) least, ?_⟩
      simp only [exponents_cons, exact, Finsupp.single_add]
      abel
    split
    next before =>
      refine ⟨h.cons plain pos (forall_mem_cons.2 ⟨before, fun q hq => before.trans (least q hq)⟩), ?_⟩
      rw [exponents_cons, add_comm]
    next differ after =>
      obtain ⟨fit, sum⟩ := ih h.tail (forall_mem_cons.1 room).2
      refine ⟨fit.cons plain' hf fun q hq => ?_, by rw [exponents_cons, exponents_cons, sum, add_assoc]⟩
      rcases mem_insertPower hq with same | hq
      · rw [same]
        exact lt_of_le_of_ne (not_lt.1 after) (Ne.symm differ)
      · exact least q hq

/-- Exponents of the same variable can be added. -/
def Room (a b : List (String × UInt64)) : Prop :=
  ∀ p ∈ a, ∀ q ∈ b, p.1 = q.1 → p.2.toNat + q.2.toNat < 2 ^ 64

instance (a b : List (String × UInt64)) : Decidable (Room a b) :=
  inferInstanceAs (Decidable (∀ p ∈ a, ∀ q ∈ b, _ → _))

theorem mulPowers_spec {a b : List (String × UInt64)} (ha : Fit a) (hb : Fit b) (room : Room a b) :
    Fit (mulPowers a b) ∧ exponents (mulPowers a b) = exponents a + exponents b := by
  unfold mulPowers
  induction b generalizing a with
  | nil => exact ⟨ha, by simp [exponents]⟩
  | cons p b ih =>
    obtain ⟨fit, sum⟩ := insertPower_spec ha (hb.plain p mem_cons_self) (hb.positive p mem_cons_self)
      fun q hq same => room q hq p mem_cons_self same
    -- The variables to come are behind this one, so their exponents are still those of `a`.
    have room' : Room (insertPower p.1 p.2 a) b := by
      intro q hq r hr same
      have behind := (pairwise_cons.1 hb.ascending).1 r hr
      exact room q ((mem_insertPower hq).resolve_left (same ▸ behind.ne')) r (mem_cons_of_mem _ hr) same
    obtain ⟨fit', sum'⟩ := ih fit hb.tail room'
    exact ⟨fit', by rw [foldl_cons, sum', sum, exponents_cons, add_assoc]⟩

end Exponents

noncomputable def toMv (m : Monomial) : MvPolynomial String ℤ :=
  .monomial (exponents m.powers) m.coefficient

theorem toMv_mul {m n : Monomial} (hm : Fit m.powers) (hn : Fit n.powers) (room : Room m.powers n.powers) :
    (m.mul n).toMv = m.toMv * n.toMv := by
  rw [toMv, toMv, toMv, MvPolynomial.monomial_mul, ← (mulPowers_spec hm hn room).2]
  rfl

end Monomial

namespace Polynomial
open Monomial (Fit Room signature)

variable {p q : Polynomial}

def Fit (p : Polynomial) : Prop := ∀ m ∈ p, Monomial.Fit m.powers

instance (p : Polynomial) : Decidable p.Fit := inferInstanceAs (Decidable (∀ m ∈ p, _))

def Room (p q : Polynomial) : Prop := ∀ m ∈ p, ∀ n ∈ q, Monomial.Room m.powers n.powers

instance (p q : Polynomial) : Decidable (Room p q) := inferInstanceAs (Decidable (∀ m ∈ p, ∀ n ∈ q, _))

noncomputable def toMv (p : Polynomial) : MvPolynomial String ℤ := (p.map Monomial.toMv).sum

theorem toMv_cons (m : Monomial) (p : Polynomial) : toMv (m :: p) = m.toMv + p.toMv := by
  simp [toMv]

theorem toMv_append (p q : Polynomial) : toMv (p ++ q) = p.toMv + q.toMv := by
  simp [toMv]

/-- No two monomials have the same signature, and no coefficient is 0. -/
structure Normal (p : Polynomial) : Prop where
  fit : p.Fit
  nonzero : ∀ m ∈ p, m.coefficient ≠ 0
  distinct : (p.map signature).Nodup

section Collection

variable {acc : List (String × Monomial)} {key : String} {m : Monomial}

/-- Only coefficients change where there is a monomial already. -/
theorem mem_collect {a : String × Monomial} (h : a ∈ collect key m acc) :
    a = (key, m) ∨ ∃ b ∈ acc, a.1 = b.1 ∧ a.2.powers = b.2.powers := by
  induction acc with
  | nil => exact .inl (mem_singleton.1 h)
  | cons b acc ih =>
    rw [collect] at h
    split at h
    · rcases mem_cons.1 h with rfl | h
      · exact .inr ⟨b, mem_cons_self, rfl, rfl⟩
      · exact .inr ⟨a, mem_cons_of_mem _ h, rfl, rfl⟩
    · rcases mem_cons.1 h with rfl | h
      · exact .inr ⟨b, mem_cons_self, rfl, rfl⟩
      · exact (ih h).imp_right fun ⟨c, hc, same⟩ => ⟨c, mem_cons_of_mem _ hc, same⟩

theorem forall_collect {P : List (String × UInt64) → Prop} (h : ∀ a ∈ acc, P a.2.powers) (hm : P m.powers) :
    ∀ a ∈ collect key m acc, P a.2.powers := by
  intro a ha
  rcases mem_collect ha with rfl | ⟨b, hb, -, powers⟩
  · exact hm
  · exact powers ▸ h b hb

/-- Simplifying brings in no other powers. -/
theorem forall_simplify {P : List (String × UInt64) → Prop} (h : ∀ m ∈ p, P m.powers) :
    ∀ m ∈ simplify p, P m.powers := by
  have merged : ∀ a ∈ p.foldl (fun acc m => collect m.signature m acc) [], P a.2.powers :=
    List.foldlRecOn (motive := fun (acc : List (String × Monomial)) => ∀ a ∈ acc, P a.2.powers) p _
      (forall_mem_nil _) fun acc collected m hm => forall_collect collected (h m hm)
  intro m hm
  obtain ⟨a, ha, rfl⟩ := mem_map.1 (mem_of_mem_filter hm)
  exact merged a ha

/-- Monomials collected under their signatures. -/
structure Keyed (acc : List (String × Monomial)) : Prop where
  key : ∀ a ∈ acc, a.1 = a.2.signature
  fit : ∀ a ∈ acc, Monomial.Fit a.2.powers
  distinct : (acc.map Prod.fst).Nodup

theorem Keyed.tail {a : String × Monomial} (h : Keyed (a :: acc)) : Keyed acc :=
  ⟨(forall_mem_cons.1 h.key).2, (forall_mem_cons.1 h.fit).2, (nodup_cons.1 h.distinct).2⟩

theorem nodup_collect (h : (acc.map Prod.fst).Nodup) : ((collect key m acc).map Prod.fst).Nodup := by
  induction acc with
  | nil => exact nodup_singleton _
  | cons b acc ih =>
    rw [collect]
    split
    · exact h
    next new =>
      obtain ⟨first, rest⟩ := nodup_cons.1 h
      refine nodup_cons.2 ⟨fun mem => ?_, ih rest⟩
      obtain ⟨a, ha, same⟩ := mem_map.1 mem
      rcases mem_collect ha with rfl | ⟨c, hc, same', -⟩
      · exact new (by simpa using same.symm)
      · exact first (mem_map.2 ⟨c, hc, by rw [← same', same]⟩)

theorem Keyed.collect (h : Keyed acc) (hm : Monomial.Fit m.powers) :
    Keyed (Polynomial.collect m.signature m acc) := by
  refine ⟨fun a ha => ?_, forall_collect h.fit hm, nodup_collect h.distinct⟩
  rcases mem_collect ha with rfl | ⟨b, hb, same, powers⟩
  · rfl
  · rw [same, h.key b hb, signature, signature, powers]

theorem Keyed.toMv_collect (h : Keyed acc) (hm : Monomial.Fit m.powers) :
    toMv ((Polynomial.collect m.signature m acc).map Prod.snd) = toMv (acc.map Prod.snd) + m.toMv := by
  induction acc with
  | nil => simp [Polynomial.collect, toMv]
  | cons b acc ih =>
    rw [Polynomial.collect]
    split
    next same =>
      -- only the coefficients differ, so adding them is adding the monomials
      have powers : b.2.powers = m.powers := by
        refine Monomial.powers_eq_of_signature (h.fit b mem_cons_self) hm ?_
        rw [← h.key b mem_cons_self, beq_iff_eq.1 same]
      rw [map_cons, map_cons, toMv_cons, toMv_cons, Monomial.toMv, map_add, add_right_comm, Monomial.toMv,
        Monomial.toMv, ← powers]
    · rw [map_cons, map_cons, toMv_cons, toMv_cons, ih h.tail, add_assoc]

theorem Keyed.merged (h : Keyed acc) (hp : p.Fit) :
    Keyed (p.foldl (fun acc m => Polynomial.collect m.signature m acc) acc) ∧
      toMv ((p.foldl (fun acc m => Polynomial.collect m.signature m acc) acc).map Prod.snd) =
        toMv (acc.map Prod.snd) + p.toMv := by
  induction p generalizing acc with
  | nil => exact ⟨h, by simp [toMv]⟩
  | cons m p ih =>
    obtain ⟨hm, hp⟩ := forall_mem_cons.1 hp
    obtain ⟨keyed, sum⟩ := ih (h.collect hm) hp
    exact ⟨keyed, by rw [foldl_cons, sum, h.toMv_collect hm, toMv_cons, add_assoc]⟩

theorem toMv_filter (p : Polynomial) : toMv (p.filter (·.coefficient != 0)) = p.toMv := by
  induction p with
  | nil => rfl
  | cons m p ih =>
    rw [filter_cons]
    split
    · rw [toMv_cons, toMv_cons, ih]
    next zero =>
      have zero : m.coefficient = 0 := by simpa using zero
      rw [ih, toMv_cons, Monomial.toMv, zero, map_zero, zero_add]

/-- Simplifying gives a normal form of the same polynomial. -/
theorem simplify_spec (hp : p.Fit) : (simplify p).toMv = p.toMv ∧ (simplify p).Normal := by
  obtain ⟨keyed, sum⟩ := Keyed.merged ⟨forall_mem_nil _, forall_mem_nil _, nodup_nil⟩ hp
  refine ⟨?_, forall_simplify hp, fun m hm => by simpa using of_mem_filter hm, ?_⟩
  · rw [simplify, toMv_filter, sum]
    simp [toMv]
  · have distinct := keyed.distinct
    rw [map_congr_left keyed.key] at distinct
    refine List.Nodup.sublist (filter_sublist.map _) ?_
    rwa [map_map]

end Collection

section Operations

theorem fit_neg (hp : p.Fit) : p.neg.Fit := forall_mem_map.2 hp

theorem toMv_neg (p : Polynomial) : p.neg.toMv = -p.toMv := by
  induction p with
  | nil => simp [neg, toMv]
  | cons m p ih =>
    have head : m.neg.toMv = -m.toMv := by
      rw [Monomial.toMv, Monomial.toMv, ← map_neg]
      rfl
    rw [neg, map_cons, toMv_cons, toMv_cons, head, neg_add, ← ih]
    rfl

theorem add_spec (hp : p.Fit) (hq : q.Fit) : (p.add q).toMv = p.toMv + q.toMv ∧ (p.add q).Normal := by
  obtain ⟨same, normal⟩ := simplify_spec (forall_mem_append.2 ⟨hp, hq⟩)
  exact ⟨same.trans (toMv_append p q), normal⟩

theorem sub_spec (hp : p.Fit) (hq : q.Fit) : (p.sub q).toMv = p.toMv - q.toMv ∧ (p.sub q).Normal := by
  obtain ⟨same, normal⟩ := add_spec hp (fit_neg hq)
  exact ⟨by rw [sub, same, toMv_neg, sub_eq_add_neg], normal⟩

theorem toMv_map_mul {m : Monomial} (hm : Monomial.Fit m.powers) (hq : q.Fit)
    (room : ∀ n ∈ q, Monomial.Room m.powers n.powers) : toMv (q.map m.mul) = m.toMv * q.toMv := by
  induction q with
  | nil => simp [toMv]
  | cons n q ih =>
    obtain ⟨hn, hq⟩ := forall_mem_cons.1 hq
    obtain ⟨here, room⟩ := forall_mem_cons.1 room
    rw [map_cons, toMv_cons, toMv_cons, Monomial.toMv_mul hm hn here, ih hq room, mul_add]

theorem toMv_products (hp : p.Fit) (hq : q.Fit) (room : Room p q) :
    toMv (p.flatMap fun m => q.map m.mul) = p.toMv * q.toMv := by
  induction p with
  | nil => simp [toMv]
  | cons m p ih =>
    obtain ⟨hm, hp⟩ := forall_mem_cons.1 hp
    obtain ⟨here, room⟩ := forall_mem_cons.1 room
    rw [flatMap_cons, toMv_append, toMv_cons, toMv_map_mul hm hq here, ih hp room, add_mul]

theorem mul_spec (hp : p.Fit) (hq : q.Fit) (room : Room p q) :
    (p.mul q).toMv = p.toMv * q.toMv ∧ (p.mul q).Normal := by
  have fit : Fit (p.flatMap fun m => q.map m.mul) := by
    intro k hk
    obtain ⟨m, hm, hk⟩ := mem_flatMap.1 hk
    obtain ⟨n, hn, rfl⟩ := mem_map.1 hk
    exact (Monomial.mulPowers_spec (hp m hm) (hq n hn) (room m hm n hn)).1
  obtain ⟨same, normal⟩ := simplify_spec fit
  exact ⟨same.trans (toMv_products hp hq room), normal⟩

end Operations
end Polynomial
end Peano
