import Mathlib.Data.List.Basic
import Peano.Text.Bytes
namespace Peano
open List

theorem mem_intercalate {α : Type} {i : α} {sep : List α} {xs : List (List α)}
    (h : i ∈ sep.intercalate xs) : i ∈ sep ∨ ∃ x ∈ xs, i ∈ x := by
  induction xs with
  | nil => simp at h
  | cons x xs ih =>
    cases xs with
    | nil => exact .inr ⟨x, mem_cons_self, by simpa using h⟩
    | cons y xs =>
      rw [intercalate_cons_cons, mem_append, mem_append] at h
      rcases h with (h | h) | h
      · exact .inr ⟨x, mem_cons_self, h⟩
      · exact .inl h
      · obtain h | ⟨z, hz, hi⟩ := ih h
        · exact .inl h
        · exact .inr ⟨z, mem_cons_of_mem _ hz, hi⟩

namespace Bytes
open Text

theorem toList_loop (bs : ByteArray) (i : Nat) (acc : List UInt8) :
    ByteArray.toList.loop bs i acc = acc.reverse ++ bs.data.toList.drop i := by
  have size : bs.data.toList.length = bs.size := rfl
  induction k : bs.size - i generalizing i acc with
  | zero =>
    rw [ByteArray.toList.loop, if_neg (by omega), drop_eq_nil_of_le (by omega),
      append_nil]
  | succ k ih =>
    have inside : i < bs.data.toList.length := by omega
    rw [ByteArray.toList.loop, if_pos (by omega), ih (i + 1) _ (by omega), reverse_cons,
      append_assoc, singleton_append, drop_eq_getElem_cons inside]
    congr 2
    exact getElem!_pos bs.data i inside

theorem ofString_eq (s : String) : ofString s = s.toList.flatMap String.utf8EncodeChar := by
  have bytes : ofString s = s.toByteArray.data.toList := by
    rw [ofString, ByteArray.toList, toList_loop]
    rfl
  rw [bytes, ← String.utf8Encode_toList]
  simp [List.utf8Encode]

theorem ofString_append (s t : String) : ofString (s ++ t) = ofString s ++ ofString t := by
  rw [ofString_eq, ofString_eq, ofString_eq, String.toList_append, flatMap_append]

theorem runes_of_isAscii {bs : Bytes} (h : bs.isAscii) :
    runes bs = bs.map fun b => .char (Char.ofNat b.toNat) := by
  induction bs with
  | nil => rw [runes]; rfl
  | cons b bs ih =>
    rw [isAscii, all_cons, Bool.and_eq_true, decide_eq_true_eq] at h
    have small : b.toNat < 0x80 := h.1
    have lead : leading? b bs = some (Char.ofNat b.toNat, 0) := by simp [leading?, small]
    rw [runes, lead]
    simp only [drop_zero, map_cons]
    rw [ih h.2]

theorem encode_of_small {b : UInt8} (small : b.toNat < 0x80) :
    String.utf8EncodeChar (Char.ofNat b.toNat) = [b] := by
  have valid : b.toNat.isValidChar := .inl (by omega)
  have code : (Char.ofNat b.toNat).val.toNat = b.toNat := by
    rw [Char.ofNat, dif_pos valid]
    rfl
  rw [String.utf8EncodeChar, code]
  simp only [if_pos (show b.toNat ≤ 127 by omega), UInt8.ofNat_toNat]

theorem ofString_toText {bs : Bytes} (h : bs.isAscii) : ofString (toText bs) = bs := by
  rw [toText, runes_of_isAscii h, ofString_eq, String.toList_ofList, map_map,
    flatMap_map]
  induction bs with
  | nil => rfl
  | cons b bs ih =>
    rw [isAscii, all_cons, Bool.and_eq_true, decide_eq_true_eq] at h
    have small : b.toNat < 0x80 := h.1
    rw [flatMap_cons, ih h.2]
    simp only [Function.comp_apply, Rune.shown, encode_of_small small, singleton_append]

end Bytes

end Peano
