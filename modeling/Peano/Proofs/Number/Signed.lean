import Mathlib.Tactic.IntervalCases
import Peano.Number.Signed
import Peano.Proofs.Number.Limbs
namespace Peano
open Limbs (value_trim cmp_eq)

namespace Limbs

theorem trim_eq_of_value {a b : Limbs} (h : value a = value b) : trim a = trim b := by
  apply List.map_injective_iff.2 fun x y => UInt32.toNat_inj.1
  rw [trim_digits, trim_digits, h]

theorem trim_trim (a : Limbs) : trim (trim a) = trim a := trim_eq_of_value (value_trim a)

theorem isZero_iff (a : Limbs) : a.isZero ↔ value a = 0 := by
  rw [isZero, List.isEmpty_iff, ← List.map_eq_nil_iff, trim_digits, Nat.digits_eq_nil_iff_eq_zero]

theorem value_ofUInt64 (v : UInt64) : value (ofUInt64 v) = v.toNat := by
  have := (split_sum (Nat.mod_eq_of_lt v.toNat_lt).symm (by exact v.toNat_lt)).1
  have high := (split_sum (Nat.mod_eq_of_lt v.toNat_lt).symm (by exact v.toNat_lt)).2
  simp only [ofUInt64, value_trim, value, split, UInt64.toNat_toUInt32, base] at *
  omega

theorem value_add (a b : Limbs) : value (add a b) = value a + value b := by
  rw [add, value_trim, value_addCarry (by decide) a b]
  rfl

theorem value_mul (a b : Limbs) : value (mul a b) = value a * value b := by
  rw [mul, value_trim, value_mulInto, value_trim, value_trim, value, Nat.zero_add]

end Limbs

namespace Signed

/-- The number `a` is the integer `n`, in the form that results have. -/
structure Is (a : Signed) (n : Int) : Prop where
  value : a.value = n
  trimmed : a.limbs.trim = a.limbs
  unsigned : n = 0 → a.negative = false

variable {negative : Bool} {limbs : Limbs}

theorem is_zero : Is zero 0 := ⟨rfl, rfl, fun _ => rfl⟩

theorem is_of_ne_zero (negative : Bool) (trimmed : limbs.trim = limbs) (some : limbs.value ≠ 0) :
    Is ⟨negative, limbs⟩ (value ⟨negative, limbs⟩) := by
  refine ⟨rfl, trimmed, fun zero => ?_⟩
  simp only [value] at zero
  split at zero <;> omega

theorem is_signed (negative : Bool) (trimmed : limbs.trim = limbs) :
    Is (signed negative limbs) (value ⟨negative, limbs⟩) := by
  rw [signed]
  split
  next none =>
    rw [Limbs.isZero_iff] at none
    have zero : value ⟨negative, limbs⟩ = 0 := by simp [value, none]
    exact zero ▸ is_zero
  next some => exact is_of_ne_zero negative trimmed (mt (Limbs.isZero_iff limbs).2 some)

theorem difference_eq {a b : Limbs} (h : b.value < a.value) :
    (difference a b).trim = difference a b ∧ (difference a b).value = a.value - b.value := by
  have order : a.cmp b ≠ .lt := by
    rw [cmp_eq, Ne, Nat.compare_eq_lt]
    omega
  have exact := Limbs.value_subBorrow a.trim b.trim (show (0 : UInt64).toNat ≤ 1 by decide)
    (by simpa [value_trim] using Nat.le_of_lt h)
  rw [value_trim, value_trim] at exact
  rw [difference, Limbs.sub, if_neg order]
  exact ⟨Limbs.trim_trim _, (value_trim _).trans exact⟩

variable (a b : Signed)

theorem isZero_iff_value : a.isZero ↔ a.value = 0 := by
  rw [isZero, Limbs.isZero_iff, value]
  split <;> omega

theorem is_negated : Is a.negated (-a.value) := by
  rw [negated]
  split
  next none => simpa [(isZero_iff_value a).1 none] using is_zero
  next some =>
    have flipped : value ⟨!a.negative, a.limbs.trim⟩ = -a.value := by
      cases h : a.negative <;> simp [value, h, value_trim]
    refine flipped ▸ is_of_ne_zero _ (Limbs.trim_trim _) ?_
    rwa [value_trim, Ne, ← Limbs.isZero_iff]

theorem is_add : Is (add a b) (a.value + b.value) := by
  rw [add]
  split
  next same =>
    have sum : value ⟨a.negative, a.limbs.add b.limbs⟩ = a.value + b.value := by
      cases h : a.negative <;> simp [value, h, ← same, Limbs.value_add]
      omega
    exact sum ▸ is_signed _ (Limbs.trim_trim _)
  next other =>
    rw [cmp_eq]
    split
    next equal =>
      have sum : a.value + b.value = 0 := by
        cases h : a.negative <;> simp_all [value]
      exact sum ▸ is_zero
    next greater =>
      rw [Nat.compare_eq_gt] at greater
      obtain ⟨trimmed, exact⟩ := difference_eq greater
      have sum : value ⟨a.negative, difference a.limbs b.limbs⟩ = a.value + b.value := by
        cases h : a.negative <;> simp_all [value] <;> omega
      exact sum ▸ is_of_ne_zero _ trimmed (by omega)
    next less =>
      rw [Nat.compare_eq_lt] at less
      obtain ⟨trimmed, exact⟩ := difference_eq less
      have sum : value ⟨b.negative, difference b.limbs a.limbs⟩ = a.value + b.value := by
        cases h : a.negative <;> simp_all [value] <;> omega
      exact sum ▸ is_of_ne_zero _ trimmed (by omega)

theorem is_sub : Is (sub a b) (a.value - b.value) := by
  rw [Int.sub_eq_add_neg, ← (is_negated b).value]
  exact is_add a b.negated

theorem is_mul : Is (mul a b) (a.value * b.value) := by
  have product : value ⟨a.negative != b.negative, a.limbs.mul b.limbs⟩ = a.value * b.value := by
    cases h : a.negative <;> cases h' : b.negative <;> simp [value, h, h', Limbs.value_mul]
  exact product ▸ is_signed _ (Limbs.trim_trim _)

/-- Unless one of them is zero, the signs decide, and the limbs if the signs agree. -/
theorem cmp_eq_compare : cmp a b = compare a.value b.value := by
  have left := Limbs.isZero_iff a.limbs
  have right := Limbs.isZero_iff b.limbs
  have limbs : a.limbs.cmp b.limbs = compare (a.limbs.value : Int) b.limbs.value := by
    simp only [cmp_eq, compare, compareOfLessAndEq, Int.ofNat_lt, Int.ofNat_inj]
  have unfolds (m n : Int) : compare m n = if m < n then .lt else if m = n then .eq else .gt := rfl
  rw [cmp, isZero, isZero, limbs]
  simp only [unfolds, value]
  cases a.negative <;> cases b.negative <;> grind [Ordering.swap]

theorem is_ofInt64 (v : Int64) : Is (ofInt64 v) v.toInt := by
  have word : v.toInt = if 2 * v.toUInt64.toNat < 2 ^ 64 then (v.toUInt64.toNat : Int)
      else v.toUInt64.toNat - 2 ^ 64 := BitVec.toInt_eq_toNat_cond _
  have below : v < 0 ↔ v.toInt < 0 := Int64.lt_iff_toInt_lt
  have bound := v.toUInt64.toNat_lt
  rw [ofInt64]
  split
  next negative =>
    rw [below] at negative
    have magnitude : ((-(v + 1)).toUInt64 + 1).toNat = -v.toInt := by
      have flipped : (-(v + 1)).toUInt64 + 1 = -v.toUInt64 := by
        rw [Int64.toUInt64_neg, Int64.toUInt64_add, UInt64.neg_add]
        exact UInt64.sub_add_cancel _ _
      rw [flipped, UInt64.toNat_neg, UInt64.size]
      omega
    have exact : value ⟨true, Limbs.ofUInt64 ((-(v + 1)).toUInt64 + 1)⟩ = v.toInt := by
      rw [value, if_pos rfl, Limbs.value_ofUInt64]
      omega
    refine ⟨exact, Limbs.trim_trim _, fun zero => by omega⟩
  next positive =>
    rw [below] at positive
    refine ⟨?_, Limbs.trim_trim _, fun _ => rfl⟩
    rw [value, if_neg Bool.false_ne_true, Limbs.value_ofUInt64]
    omega

theorem equal_iff : equal a b ↔ a.value = b.value := by
  rw [equal, beq_iff_eq, cmp_eq_compare, Int.compare_eq_eq]

/-- Integers compute exactly, and every result has the form of its value. -/
theorem integers_exact (a b : Signed) : Is (add a b) (a.value + b.value) ∧ Is (sub a b) (a.value - b.value) ∧
      Is (mul a b) (a.value * b.value) ∧ Is a.negated (-a.value) ∧
      cmp a b = compare a.value b.value ∧ (equal a b ↔ a.value = b.value) ∧
      ∀ v : Int64, Is (ofInt64 v) v.toInt :=
  ⟨is_add a b, is_sub a b, is_mul a b, is_negated a, cmp_eq_compare a b, equal_iff a b, is_ofInt64⟩

/-- The least word has no counterpart among the positive ones. -/
example : ofInt64 Int64.minValue = ⟨true, [0, 0x80000000]⟩ := by decide

end Signed

namespace Limbs
open List

theorem exists_digit {c : Char} (h : c.isDigit) : ∃ d < 10, c = Nat.digitChar d := by
  have bounds : 48 ≤ c.toNat ∧ c.toNat ≤ 57 := by
    simpa [Char.isDigit, UInt32.le_iff_toNat_le] using h
  refine ⟨c.toNat - 48, by omega, ?_⟩
  rw [← Char.toNat_inj]
  generalize c.toNat = n at bounds ⊢
  obtain ⟨low, high⟩ := bounds
  interval_cases n <;> rfl

/-- Digits that are read behind a number are written behind it. -/
theorem toDigits_ofDigitChars {m : Nat} (hm : 0 < m) {cs : List Char} (digits : ∀ c ∈ cs, c.isDigit) :
    Nat.toDigits 10 (Nat.ofDigitChars 10 cs m) = Nat.toDigits 10 m ++ cs := by
  induction cs generalizing m with
  | nil => simp
  | cons c cs ih =>
    obtain ⟨digit, others⟩ := forall_mem_cons.1 digits
    obtain ⟨d, hd, rfl⟩ := exists_digit digit
    rw [Nat.ofDigitChars_cons_digitChar_of_lt_ten hd, ih (by omega) others,
      ← Nat.toDigits_append_toDigits (by decide) hm hd, Nat.toDigits_of_lt_base hd, append_assoc,
      singleton_append]

/-- The digits of a numeral without the zeros that it does not need. -/
def significant (cs : List Char) : List Char :=
  match cs.dropWhile (· == '0') with
  | [] => ['0']
  | digits => digits

theorem toDigits_significant {cs : List Char} (digits : ∀ c ∈ cs, c.isDigit) :
    Nat.toDigits 10 (Nat.ofDigitChars 10 cs 0) = significant cs := by
  induction cs with
  | nil => rfl
  | cons c cs ih =>
    obtain ⟨digit, others⟩ := forall_mem_cons.1 digits
    obtain ⟨d, hd, rfl⟩ := exists_digit digit
    rw [Nat.ofDigitChars_cons_digitChar_of_lt_ten hd, Nat.zero_add]
    obtain rfl | hd' := Nat.eq_zero_or_pos d
    · rw [ih others]
      rfl
    · have first : (Nat.digitChar d == '0') = false := by interval_cases d <;> rfl
      rw [toDigits_ofDigitChars hd' others, Nat.toDigits_of_lt_base hd, significant,
        dropWhile_cons_of_neg (by simp [first])]
      rfl

theorem padChunk_toList {x : UInt32} (h : x.toNat < 10 ^ 9) : (padChunk x).toList.length = 9 ∧
    (∀ c ∈ (padChunk x).toList, c.isDigit) ∧ Nat.ofDigitChars 10 (padChunk x).toList 0 = x.toNat := by
  have fits : (Nat.toDigits 10 x.toNat).length ≤ 9 := (Nat.length_toDigits_le_iff (by decide) (by decide)).2 h
  simp only [padChunk, String.toList_ofList]
  refine ⟨?_, ?_, ?_⟩
  · simp; omega
  · rw [forall_mem_append]
    exact ⟨fun c mem => eq_of_mem_replicate mem ▸ rfl,
      fun c mem => Nat.isDigit_of_mem_toDigits (by decide) (by decide) mem⟩
  · rw [Nat.ofDigitChars_append, Nat.ofDigitChars_replicate_zero, Nat.mul_zero, Nat.ofDigitChars_ten_toDigits]

theorem toString_append_padChunk {m : Nat} (hm : 0 < m) {x : UInt32} (h : x.toNat < 10 ^ 9) :
    toString m ++ padChunk x = toString (10 ^ 9 * m + x.toNat) := by
  obtain ⟨length, digits, value⟩ := padChunk_toList h
  have whole : Nat.ofDigitChars 10 (padChunk x).toList m = 10 ^ 9 * m + x.toNat := by
    rw [Nat.ofDigitChars_eq_ofDigitChars_zero, length, value]
  apply String.toList_inj.1
  rw [String.toList_append, Nat.toString_eq_ofList_toDigits, Nat.toString_eq_ofList_toDigits, ← whole,
    toDigits_ofDigitChars hm digits, String.toList_ofList, String.toList_ofList]

/-- What is left of the higher limbs is below the divisor, so the quotient of a limb is a limb. -/
theorem divMod_spec {d : UInt32} (hd : 0 < d.toNat) (a : Limbs) :
    value (divMod d a).1 = value a / d.toNat ∧ (divMod d a).2.toNat = value a % d.toNat := by
  induction a with
  | nil => simp [divMod, value]
  | cons x a ih =>
    obtain ⟨quotient, remainder⟩ := ih
    have word : ((divMod d a).2.toUInt64 <<< 32 ||| x.toUInt64).toNat =
        x.toNat + base * (value a % d.toNat) := by
      rw [UInt64.or_comm, word_toNat, value, value, remainder]
      rfl
    have whole : value (x :: a) =
        x.toNat + base * (value a % d.toNat) + d.toNat * (base * (value a / d.toNat)) := by
      have := Nat.mod_add_div (value a) d.toNat
      rw [value]
      grind
    have fits : (x.toNat + base * (value a % d.toNat)) / d.toNat < base := by
      have := limb_lt x
      have : base * (value a % d.toNat + 1) ≤ base * d.toNat := Nat.mul_le_mul_left _ (Nat.mod_lt _ hd)
      rw [Nat.div_lt_iff_lt_mul hd]
      lia
    rw [divMod, value, UInt64.toNat_toUInt32, UInt64.toNat_toUInt32, UInt64.toNat_div, UInt64.toNat_mod,
      UInt32.toNat_toUInt64, word, quotient, whole, Nat.add_mul_div_left _ _ hd, Nat.add_mul_mod_self_left]
    have := Nat.mod_lt (x.toNat + base * (value a % d.toNat)) hd
    have := limb_lt d
    exact ⟨congrArg (· + _) (Nat.mod_eq_of_lt fits), Nat.mod_eq_of_lt (by simp only [base] at *; omega)⟩

theorem chunks_of_zero (fuel : Nat) {a : Limbs} (none : value a = 0) : chunks fuel a = [] := by
  cases fuel with
  | zero => rfl
  | succ fuel => rw [chunks, if_pos ((isZero_iff a).2 none)]

/-- With enough fuel, the chunks behind each other are the numeral. -/
theorem exists_chunks {fuel : Nat} {a : Limbs} (some : value a ≠ 0) (enough : value a < (10 ^ 9) ^ fuel) :
    ∃ top rest, (chunks fuel a).reverse = top :: rest ∧
      toString top.toNat ++ String.join (rest.map padChunk) = toString (value a) := by
  induction fuel generalizing a with
  | zero => omega
  | succ fuel ih =>
    obtain ⟨quotient, remainder⟩ := @divMod_spec chunk (by decide) a
    have nine : chunk.toNat = 10 ^ 9 := rfl
    rw [nine] at quotient remainder
    rw [← value_trim] at quotient
    rw [chunks, if_neg (mt (isZero_iff a).1 some), reverse_cons]
    by_cases last : value (trim (divMod chunk a).1) = 0
    · refine ⟨(divMod chunk a).2, [], by rw [chunks_of_zero fuel last]; rfl, ?_⟩
      rw [map_nil, String.join_nil, String.append_empty, remainder, Nat.mod_eq_of_lt (by omega)]
    · have fewer : value (trim (divMod chunk a).1) < (10 ^ 9) ^ fuel := by
        rw [quotient]
        exact Nat.div_lt_of_lt_mul (Nat.pow_succ' ▸ enough)
      obtain ⟨top, rest, split, shown⟩ := ih last fewer
      refine ⟨top, rest ++ [(divMod chunk a).2], by rw [split]; rfl, ?_⟩
      rw [map_append, String.join_append, ← String.append_assoc, shown, map_singleton, String.join_cons,
        String.join_nil, String.append_empty, toString_append_padChunk (Nat.pos_of_ne_zero last) (by omega),
        quotient, remainder, Nat.div_add_mod]

theorem decimal_eq (a : Limbs) : decimal a = toString (value a) := by
  rw [decimal, ← value_trim]
  by_cases none : value (trim a) = 0
  · rw [chunks_of_zero _ none, none]
    rfl
  · have enough : value (trim a) < (10 ^ 9) ^ (2 * a.length) := by
      rw [value_trim, Nat.pow_mul]
      exact Nat.lt_of_lt_of_le (value_lt a) (Nat.pow_le_pow_left (by decide) _)
    obtain ⟨top, rest, split, shown⟩ := exists_chunks none enough
    rw [split, ← shown]

theorem foldl_digitLimbs {cs : List Char} (digits : ∀ c ∈ cs, c.isDigit) {acc : Limbs}
    (trimmed : trim acc = acc) : trim (cs.foldl digitLimbs acc) = cs.foldl digitLimbs acc ∧
      value (cs.foldl digitLimbs acc) = Nat.ofDigitChars 10 cs (value acc) := by
  induction cs generalizing acc with
  | nil => exact ⟨trimmed, rfl⟩
  | cons c cs ih =>
    obtain ⟨digit, others⟩ := forall_mem_cons.1 digits
    have step : value (digitLimbs acc c) = 10 * value acc + (c.toNat - '0'.toNat) := by
      obtain ⟨d, hd, rfl⟩ := exists_digit digit
      rw [digitLimbs, addSmall, value_add, value_mul, Nat.mul_comm]
      interval_cases d <;> rfl
    rw [Nat.ofDigitChars_cons, ← step]
    exact ih others (trim_trim _)

def IsNumeral (text : String) : Prop := text ≠ "" ∧ ∀ c ∈ text.toList, c.isDigit

instance (text : String) : Decidable (IsNumeral text) := inferInstanceAs (Decidable (_ ∧ _))

theorem ofDecimal_numeral {text : String} (h : IsNumeral text) : ∃ a, ofDecimal text = .ok a ∧
    trim a = a ∧ value a = Nat.ofDigitChars 10 text.toList 0 := by
  refine ⟨text.toList.foldl digitLimbs [], ?_, foldl_digitLimbs h.2 rfl⟩
  have some : text.toList ≠ [] := fun none => h.1 (String.toList_eq_nil_iff.1 none)
  rw [ofDecimal]
  simpa [some] using h.2

theorem ofDecimal_other {text : String} (h : ¬IsNumeral text) :
    ofDecimal text = .error (.notANumeral text) := by
  rw [ofDecimal]
  simpa [IsNumeral, ← String.toList_eq_nil_iff, imp_iff_not_or] using h

theorem isNumeral_toString (n : Nat) : IsNumeral (toString n) := by
  rw [IsNumeral, Nat.toString_eq_ofList_toDigits, String.toList_ofList]
  refine ⟨fun none => ?_, fun c mem => Nat.isDigit_of_mem_toDigits (by decide) (by decide) mem⟩
  simpa using congrArg String.toList none

theorem signed_decimal (n : Signed) : n.decimal = toString n.value := by
  rw [Signed.decimal, decimal_eq, Signed.value]
  cases sign : n.negative with
  | false => rfl
  | true =>
    rcases zero : n.limbs.value with _ | m
    · rw [Signed.isZero, (isZero_iff _).2 zero]
      rfl
    · have some : n.isZero = false := by
        rw [← Bool.not_eq_true, Signed.isZero, isZero_iff]
        omega
      rw [some]
      rfl

/-- Numerals are read exactly, and written without a zero that they do not need. -/
theorem numerals_exact (a : Limbs) (text : String) : ((ofDecimal text).map (List.map UInt32.toNat) =
      if IsNumeral text then .ok (Nat.digits base (Nat.ofDigitChars 10 text.toList 0))
      else .error (.notANumeral text)) ∧
    decimal a = toString (value a) ∧ ofDecimal (decimal a) = .ok (trim a) ∧ ((ofDecimal text).map decimal =
      if IsNumeral text then .ok (String.ofList (significant text.toList))
      else .error (.notANumeral text)) ∧ ∀ n : Signed, n.decimal = toString n.value := by
  refine ⟨?_, decimal_eq a, ?_, ?_, signed_decimal⟩
  · split
    next h =>
      obtain ⟨b, result, trimmed, value⟩ := ofDecimal_numeral h
      rw [result, Except.map, ← value, ← trim_digits, trimmed]
    next h => rw [ofDecimal_other h, Except.map]
  · obtain ⟨b, result, trimmed, value⟩ := ofDecimal_numeral (isNumeral_toString (value a))
    rw [decimal_eq, result, ← trimmed, trim_eq_of_value]
    rw [value, Nat.toString_eq_ofList_toDigits, String.toList_ofList, Nat.ofDigitChars_ten_toDigits]
  · split
    next h =>
      obtain ⟨b, result, -, value⟩ := ofDecimal_numeral h
      rw [result, Except.map, decimal_eq, value, Nat.toString_eq_ofList_toDigits, toDigits_significant h.2]
    next h => rw [ofDecimal_other h, Except.map]

end Limbs
end Peano
