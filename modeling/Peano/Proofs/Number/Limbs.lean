import Mathlib.Data.Nat.Digits.Lemmas
import Peano.Number.Limbs
namespace Peano.Limbs
open List

variable (a : Limbs)

theorem limb_lt (x : UInt32) : x.toNat < base := x.toNat_lt

/-- A sum below the square of the base does not wrap around, and its carry fits into a limb. -/
theorem split_sum {sum : UInt64} {n : Nat} (h : sum.toNat = n % 2 ^ 64) (hn : n < base * base) :
    (split sum).1.toNat + base * (split sum).2.toNat = n ∧ (split sum).2.toNat < base := by
  have hshift : (sum >>> 32).toNat = sum.toNat / 2 ^ 32 := by
    rw [UInt64.toNat_shiftRight, Nat.shiftRight_eq_div_pow]
    rfl
  simp only [split, base, UInt64.toNat_toUInt32] at *
  omega

theorem trim_digits : (trim a).map UInt32.toNat = Nat.digits base (value a) := by
  induction a with
  | nil => simp [trim, value]
  | cons x rest ih =>
    have hadd (h : x.toNat ≠ 0 ∨ value rest ≠ 0) : Nat.digits base (value (x :: rest)) =
        x.toNat :: Nat.digits base (value rest) :=
      Nat.digits_add base (by decide) _ _ (limb_lt x) h
    rw [trim]
    split
    next hnil =>
      have hrest : value rest = 0 := by
        rw [← Nat.digits_eq_nil_iff_eq_zero (b := base), ← ih, hnil]
        rfl
      split
      next hx => subst hx; simp [value, hrest]
      next hx =>
        have hx' : x.toNat ≠ 0 := fun h => hx (UInt32.toNat_inj.1 h)
        rw [hadd (.inl hx'), hrest]
        simp
    next hcons =>
      have hrest : value rest ≠ 0 := by
        intro h
        rw [h, Nat.digits_zero, map_eq_nil_iff] at ih
        exact hcons ih
      rw [hadd (.inr hrest), ← ih]
      rfl

theorem value_eq_ofDigits : value a = Nat.ofDigits base (a.map UInt32.toNat) := by
  induction a with
  | nil => rfl
  | cons x rest ih => rw [value, ih, map_cons, Nat.ofDigits_cons]

theorem value_trim : value (trim a) = value a := by
  rw [value_eq_ofDigits, trim_digits, Nat.ofDigits_digits]

theorem value_lt : value a < base ^ a.length := by
  have h := Nat.ofDigits_lt_base_pow_length (b := base) (l := a.map UInt32.toNat) (by decide) (by
    intro x hx
    obtain ⟨y, -, rfl⟩ := mem_map.1 hx
    exact limb_lt y)
  rwa [← value_eq_ofDigits, length_map] at h

/-- The number of limbs without the zeros at the high end is the least that will do. -/
theorem length_trim_le (k : Nat) : (trim a).length ≤ k ↔ value a < base ^ k := by
  rw [← length_map UInt32.toNat, trim_digits]
  exact Nat.digits_length_le_iff (by decide) _

/-- The sums that are made while a carry is added, without a bound. -/
def carrySums : Limbs → UInt64 → List Nat
  | [], carry => [carry.toNat]
  | x :: rest, carry =>
    if carry = 0 then []
    else (x.toNat + carry.toNat) :: carrySums rest (split (x.toUInt64 + carry)).2

def mulAddSums (x : UInt32) : Limbs → Limbs → UInt64 → List Nat
  | [], acc, carry => carrySums acc carry
  | y :: b, acc, carry =>
    ((acc.headD 0).toNat + x.toNat * y.toNat + carry.toNat) ::
      mulAddSums x b acc.tail (split ((acc.headD 0).toUInt64 + x.toUInt64 * y.toUInt64 + carry)).2

/-- The sums that are made in all rows of a product. -/
def mulSums : Limbs → Limbs → Limbs → List Nat
  | [], _, _ => []
  | x :: a, b, acc => mulAddSums x b acc 0 ++ mulSums a b (mulAdd x b acc 0).tail

theorem value_headD_tail : value a = (a.headD 0).toNat + base * value a.tail := by
  cases a <;> rfl

section Carry

variable {carry : UInt64} (hc : carry.toNat < base)
include hc

/-- Adding a carry to a limb is exact, and the next carry fits into a limb too. -/
theorem carry_step (x : UInt32) :
    (split (x.toUInt64 + carry)).1.toNat + base * (split (x.toUInt64 + carry)).2.toNat =
        x.toNat + carry.toNat ∧ (split (x.toUInt64 + carry)).2.toNat < base := by
  have hx := limb_lt x
  exact split_sum (UInt64.toNat_add _ _) (by simp only [base] at *; omega)

theorem value_carryInto (a : Limbs) : value (carryInto a carry) = value a + carry.toNat := by
  fun_induction carryInto a carry with
  | case1 | case3 => rfl
  | case2 carry _ =>
    simp only [value, UInt64.toNat_toUInt32, base] at *
    omega
  | case4 x rest carry _ low high heq ih =>
    obtain ⟨hsplit, hcarry⟩ := carry_step hc x
    rw [heq] at hsplit hcarry
    simp only [value, base] at *
    omega

theorem carrySums_lt (a : Limbs) : ∀ s ∈ carrySums a carry, s < 2 ^ 64 := by
  fun_induction carrySums a carry with
  | case1 carry => simpa using carry.toNat_lt
  | case2 => simp
  | case3 x rest carry _ ih =>
    have hx := limb_lt x
    refine forall_mem_cons.2 ⟨?_, ih (carry_step hc x).2⟩
    simp only [base] at *
    omega

theorem value_addCarry (a b : Limbs) : value (addCarry a b carry) = value a + value b + carry.toNat := by
  fun_induction addCarry a b carry with
  | case1 b carry => rw [value_carryInto hc b, value, Nat.zero_add]
  | case2 a carry _ => rw [value_carryInto hc a, value, Nat.add_zero]
  | case3 x a y b carry low high heq ih =>
    have hx := limb_lt x
    have hy := limb_lt y
    have hn : x.toNat + y.toNat + carry.toNat < base * base := by simp only [base] at *; omega
    have hsum : (x.toUInt64 + y.toUInt64 + carry).toNat =
        (x.toNat + y.toNat + carry.toNat) % 2 ^ 64 := by simp
    obtain ⟨hsplit, hcarry⟩ := split_sum hsum hn
    rw [heq] at hsplit hcarry
    simp only [value, base] at *
    omega

theorem product_sum_lt (h x y : UInt32) : h.toNat + x.toNat * y.toNat + carry.toNat < base * base := by
  have hh := limb_lt h
  have hxy : x.toNat * y.toNat ≤ (base - 1) * (base - 1) :=
    Nat.mul_le_mul (Nat.le_pred_of_lt (limb_lt x)) (Nat.le_pred_of_lt (limb_lt y))
  simp only [base] at *
  omega

theorem product_step (h x y : UInt32) :
    let parts := split (h.toUInt64 + x.toUInt64 * y.toUInt64 + carry)
    parts.1.toNat + base * parts.2.toNat = h.toNat + x.toNat * y.toNat + carry.toNat ∧
      parts.2.toNat < base :=
  split_sum (by simp) (product_sum_lt hc h x y)

theorem value_mulAdd (x : UInt32) (b acc : Limbs) :
    value (mulAdd x b acc carry) = value acc + x.toNat * value b + carry.toNat := by
  induction b generalizing acc carry with
  | nil => rw [mulAdd, value_carryInto hc acc, value, Nat.mul_zero, Nat.add_zero]
  | cons y b ih =>
    obtain ⟨hsplit, hcarry⟩ := product_step hc (acc.headD 0) x y
    rw [mulAdd, value, ih hcarry, value_headD_tail acc, value]
    grind

theorem mulAddSums_lt (x : UInt32) (b acc : Limbs) : ∀ s ∈ mulAddSums x b acc carry, s < 2 ^ 64 := by
  induction b generalizing acc carry with
  | nil => exact carrySums_lt hc acc
  | cons y b ih =>
    exact forall_mem_cons.2 ⟨product_sum_lt hc (acc.headD 0) x y, ih (product_step hc _ x y).2 _⟩

end Carry

/-- A row is at most one limb longer than the number that is multiplied. -/
theorem length_mulAdd_le (x : UInt32) (b : Limbs) {acc : Limbs} {carry : UInt64}
    (fits : acc.length ≤ b.length) : (mulAdd x b acc carry).length ≤ b.length + 1 := by
  induction b generalizing acc carry with
  | nil =>
    obtain rfl := eq_nil_of_length_eq_zero (Nat.le_zero.1 fits)
    rw [mulAdd, carryInto]
    split <;> simp
  | cons y b ih =>
    have := @ih acc.tail (split ((acc.headD 0).toUInt64 + x.toUInt64 * y.toUInt64 + carry)).2
      (by simpa using fits)
    simpa [mulAdd] using this

theorem mulInto_cons (x : UInt32) (a b acc : Limbs) : mulInto (x :: a) b acc =
    (mulAdd x b acc 0).headD 0 :: mulInto a b (mulAdd x b acc 0).tail := by
  rw [mulInto]
  cases mulAdd x b acc 0 <;> rfl

theorem value_mulInto (a b acc : Limbs) : value (mulInto a b acc) = value acc + value a * value b := by
  induction a generalizing acc with
  | nil => rw [mulInto, value, Nat.zero_mul, Nat.add_zero]
  | cons x a ih =>
    have hrow := value_mulAdd (show (0 : UInt64).toNat < base by decide) x b acc
    rw [value_headD_tail] at hrow
    rw [mulInto_cons, value, ih, value]
    grind

theorem mulSums_lt (a b acc : Limbs) : ∀ s ∈ mulSums a b acc, s < 2 ^ 64 := by
  induction a generalizing acc with
  | nil => exact forall_mem_nil _
  | cons x a ih => exact forall_mem_append.2 ⟨mulAddSums_lt (by decide) x b acc, ih _⟩

theorem length_mulInto_le (a b : Limbs) {acc : Limbs} (fits : acc.length ≤ b.length) :
    (mulInto a b acc).length ≤ a.length + b.length := by
  induction a generalizing acc with
  | nil => simpa [mulInto] using fits
  | cons x a ih =>
    have hrow : (mulAdd x b acc 0).length ≤ b.length + 1 := length_mulAdd_le x b fits
    have := @ih (mulAdd x b acc 0).tail (by rw [length_tail]; omega)
    rw [mulInto_cons, length_cons, length_cons]
    omega

/-- The product of limbs is exact, no sum in a row wraps around, and the carry of the last row is
spent before the limbs of both numbers are used up. -/
theorem mul_exact (a b : Limbs) : (mul a b).map UInt32.toNat = Nat.digits base (value a * value b) ∧
      (∀ s ∈ mulSums (trim a) (trim b) [], s < 2 ^ 64) ∧
      (mulInto (trim a) (trim b) []).length ≤ (trim a).length + (trim b).length := by
  refine ⟨?_, mulSums_lt _ _ _, length_mulInto_le _ _ (Nat.zero_le _)⟩
  rw [mul, trim_digits, value_mulInto, value_trim, value_trim, value, Nat.zero_add]

/-- With a borrow of nought or one, what is taken away from a limb is made up for by the next borrow. -/
theorem value_subBorrow (a b : Limbs) {borrow : UInt64} (hw : borrow.toNat ≤ 1)
    (hle : value b + borrow.toNat ≤ value a) :
    value (subBorrow a b borrow) = value a - value b - borrow.toNat := by
  induction a generalizing b borrow with
  | nil => simp [subBorrow, value]
  | cons x a ih =>
    have hx := limb_lt x
    have hy := limb_lt (b.headD 0)
    have hlt : x.toUInt64 < (b.headD 0).toUInt64 + borrow ↔
        x.toNat < (b.headD 0).toNat + borrow.toNat := by
      rw [UInt64.lt_iff_toNat_lt, UInt64.toNat_add, UInt32.toNat_toUInt64, UInt32.toNat_toUInt64]
      simp only [base] at *
      omega
    have hlow : (x.toUInt64 - (b.headD 0).toUInt64 - borrow).toUInt32.toNat =
        (base + x.toNat - (b.headD 0).toNat - borrow.toNat) % base := by
      simp only [UInt64.toNat_toUInt32, UInt64.toNat_sub, UInt32.toNat_toUInt64, base] at *
      omega
    rw [value_headD_tail b, value] at *
    simp only [subBorrow, value, hlt]
    split
    next h =>
      rw [ih b.tail (show (1 : UInt64).toNat ≤ 1 by decide) (by simp [base] at *; omega)]
      simp [base] at *
      omega
    next h =>
      rw [ih b.tail (show (0 : UInt64).toNat ≤ 1 by decide) (by simp [base] at *; omega)]
      simp [base] at *
      omega

theorem compareLimbs_eq {a b : Limbs} (h : a.length = b.length) :
    compareLimbs a b = compare (value a) (value b) := by
  induction a generalizing b with
  | nil =>
    obtain rfl := eq_nil_of_length_eq_zero h.symm
    rfl
  | cons x a ih =>
    cases b with
    | nil => cases h
    | cons y b =>
      have hx := limb_lt x
      have hy := limb_lt y
      have hlow : compare x y = compare x.toNat y.toNat := by
        simp only [compare, compareOfLessAndEq, UInt32.lt_iff_toNat_lt, ← UInt32.toNat_inj]
      rw [compareLimbs, ih (Nat.succ.inj h), hlow, value, value]
      -- The high limbs decide unless they agree.
      rcases Nat.lt_trichotomy (value a) (value b) with hlt | heq | hgt
      · rw [Nat.compare_eq_lt.2 hlt, Ordering.lt_then, Nat.compare_eq_lt.2]
        simp only [base] at *
        omega
      · simp only [heq, compare, compareOfLessAndEq, Nat.lt_irrefl, if_false, if_true,
          Ordering.eq_then, Nat.add_lt_add_iff_right, Nat.add_right_cancel_iff]
      · rw [Nat.compare_eq_gt.2 hgt, Ordering.gt_then, Nat.compare_eq_gt.2]
        simp only [base] at *
        omega

theorem value_lt_of_length {a b : Limbs} (h : (trim a).length < (trim b).length) : value a < value b := by
  have ha := (length_trim_le a (trim a).length).1 le_rfl
  have hb := mt (length_trim_le b (trim a).length).2 (Nat.not_le.2 h)
  omega

theorem cmp_eq (a b : Limbs) : cmp a b = compare (value a) (value b) := by
  rw [cmp]
  rcases Nat.lt_trichotomy (trim a).length (trim b).length with hlt | heq | hgt
  · rw [Nat.compare_eq_lt.2 hlt, Nat.compare_eq_lt.2 (value_lt_of_length hlt), Ordering.lt_then]
  · rw [Nat.compare_eq_eq.2 heq, compareLimbs_eq heq, value_trim, value_trim, Ordering.eq_then]
  · rw [Nat.compare_eq_gt.2 hgt, Nat.compare_eq_gt.2 (value_lt_of_length hgt), Ordering.gt_then]

theorem sub_digits (a b : Limbs) : (sub a b).map (List.map UInt32.toNat) =
    if value a < value b then .error .underflow else .ok (Nat.digits base (value a - value b)) := by
  simp only [sub, cmp_eq, Nat.compare_eq_lt]
  split
  next => rfl
  next hle =>
    have := value_subBorrow (trim a) (trim b) (show (0 : UInt64).toNat ≤ 1 by decide)
      (by simpa [value_trim] using hle)
    rw [Except.map, trim_digits, this, value_trim, value_trim]
    rfl

theorem word_toNat (x y : UInt32) : (x.toUInt64 ||| y.toUInt64 <<< 32).toNat = value [x, y] := by
  have hx := limb_lt x
  have hy := limb_lt y
  have hshift : (y.toUInt64 <<< 32).toNat = y.toNat <<< 32 := by
    rw [UInt64.toNat_shiftLeft, Nat.mod_eq_of_lt]
    · rfl
    · show y.toNat <<< 32 < 2 ^ 64
      simp only [base] at *
      omega
  rw [UInt64.toNat_or, hshift, UInt32.toNat_toUInt64, Nat.or_comm,
    ← Nat.shiftLeft_add_eq_or_of_lt hx]
  simp only [value, base]
  omega

theorem toUInt64?_eq : (toUInt64? a).map UInt64.toNat =
    if value a < 2 ^ 64 then some (value a) else none := by
  have hlen : (trim a).length ≤ 2 ↔ value a < 2 ^ 64 := length_trim_le a 2
  rw [toUInt64?]
  split
  next h => rw [← value_trim, h]; rfl
  next x h => rw [if_pos (hlen.1 (by simp [h])), ← value_trim, h]; rfl
  next x y h => rw [if_pos (hlen.1 (by simp [h])), ← value_trim, h, ← word_toNat]; rfl
  next h0 h1 h2 =>
    rw [if_neg (mt hlen.2 _)]
    · rfl
    intro hle
    rcases h : trim a with _ | ⟨x, _ | ⟨y, _ | ⟨z, high⟩⟩⟩
    · exact h0 h
    · exact h1 x h
    · exact h2 x y h
    · simp [h] at hle

theorem value_append (a b : Limbs) : value (a ++ b) = value a + base ^ a.length * value b := by
  rw [value_eq_ofDigits, map_append, Nat.ofDigits_append, length_map, ← value_eq_ofDigits,
    ← value_eq_ofDigits]

theorem trim_last_ne_zero {a low : Limbs} {top : UInt32} (h : trim a = low ++ [top]) : top.toNat ≠ 0 := by
  have hdigits : Nat.digits base (value a) = low.map UInt32.toNat ++ [top.toNat] := by
    rw [← trim_digits, h, map_append]
    rfl
  have hne : Nat.digits base (value a) ≠ [] := by simp [hdigits]
  have := Nat.getLast_digit_ne_zero base (Nat.digits_ne_nil_iff_ne_zero.1 hne)
  simpa [hdigits] using this

theorem log2_add_mul {low p top : Nat} (hlow : low < 2 ^ p) (htop : top ≠ 0) :
    Nat.log2 (low + 2 ^ p * top) = p + Nat.log2 top := by
  have hpos : 0 < 2 ^ p * top := Nat.mul_pos (Nat.two_pow_pos p) (Nat.pos_of_ne_zero htop)
  have hle : 2 ^ p * 2 ^ Nat.log2 top ≤ 2 ^ p * top := Nat.mul_le_mul_left _ (Nat.log2_self_le htop)
  have hlt : 2 ^ p * (top + 1) ≤ 2 ^ p * 2 ^ (Nat.log2 top + 1) := Nat.mul_le_mul_left _ Nat.lt_log2_self
  rw [Nat.log2_eq_iff (by omega), Nat.add_assoc, Nat.pow_add, Nat.pow_add 2 p]
  constructor <;> lia

theorem bitLength_le (k : Nat) : bitLength a ≤ k ↔ value a < 2 ^ k := by
  rw [bitLength, ← value_trim]
  rcases eq_nil_or_concat (trim a) with h | ⟨low, top, h⟩
  · simp [h, value]
  · rw [concat_eq_append] at h
    have htop := trim_last_ne_zero h
    have hpow : base ^ low.length = 2 ^ (low.length * 32) := by
      rw [Nat.mul_comm, Nat.pow_mul]
      rfl
    have hlog : Nat.log2 (value (trim a)) = low.length * 32 + Nat.log2 top.toNat := by
      rw [h, value_append, hpow]
      exact log2_add_mul (hpow ▸ value_lt low) htop
    have hne : value (trim a) ≠ 0 := by
      intro hzero
      rw [value_trim, ← Nat.digits_eq_nil_iff_eq_zero (b := base), ← trim_digits, h] at hzero
      simp at hzero
    rw [← Nat.log2_lt hne, hlog, h]
    simp
    omega

/-- Sums, differences and comparisons of limbs are those of their values. -/
theorem arithmetic_exact (a b : Limbs) : (add a b).map UInt32.toNat = Nat.digits base (value a + value b) ∧
      (sub a b).map (List.map UInt32.toNat) =
        (if value a < value b then .error .underflow else .ok (Nat.digits base (value a - value b))) ∧
      cmp a b = compare (value a) (value b) ∧
      (toUInt64? a).map UInt64.toNat = (if value a < 2 ^ 64 then some (value a) else none) ∧
      ∀ k, bitLength a ≤ k ↔ value a < 2 ^ k := by
  refine ⟨?_, sub_digits a b, cmp_eq a b, toUInt64?_eq a, bitLength_le a⟩
  rw [add, trim_digits, value_addCarry (by decide) a b]
  rfl

end Peano.Limbs
