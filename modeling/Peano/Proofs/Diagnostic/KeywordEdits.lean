import Mathlib.Algebra.Group.Nat.Defs
import Mathlib.Data.List.Sort
import Peano.Diagnostic.Apply
import Peano.Proofs.Syntax.Reworded
namespace Peano.Diagnostic
open List
open Source (Extent)
open Syntax (Correction Jump exitsFrom exits rewordFrom reworded reword)
open Token (Lexeme lexemes)

section Lexemes

theorem flatMap_text_lexemes (content : Bytes) : (lexemes content).flatMap Lexeme.text = content := by
  induction content using Token.lexemes.induct with
  | case1 => simp [lexemes]
  | case2 b rest piece ih =>
    rw [Token.lexemes_cons, flatMap_cons, ih]
    exact congrArg (b :: ·) (take_append_drop _ rest)

theorem text_ne_nil (content : Bytes) : ∀ l ∈ lexemes content, l.text ≠ [] := by
  induction content using Token.lexemes.induct with
  | case1 => simp [lexemes]
  | case2 b rest piece ih =>
    rw [Token.lexemes_cons]
    exact forall_mem_cons.2 ⟨cons_ne_nil _ _, ih⟩

variable {offset : Nat} {ls : List Lexeme}

theorem exitsFrom_within : ∀ e ∈ exitsFrom offset ls,
    offset ≤ e.start ∧ e.stop ≤ offset + (ls.flatMap Lexeme.text).length := by
  induction ls generalizing offset with
  | nil => simp [exitsFrom]
  | cons l rest ih =>
    intro e mem
    rw [flatMap_cons, length_append]
    have later : ∀ e ∈ exitsFrom (offset + l.text.length) rest, offset ≤ e.start ∧
        e.stop ≤ offset + (l.text.length + (rest.flatMap Lexeme.text).length) := by
      intro e mem
      have := ih e mem
      omega
    unfold exitsFrom at mem
    split at mem
    · rcases mem_cons.1 mem with rfl | mem
      · dsimp only
        omega
      · exact later e mem
    · exact later e mem

theorem exitsFrom_proper : ∀ e ∈ exitsFrom offset ls, e.start ≤ e.stop := by
  induction ls generalizing offset with
  | nil => simp [exitsFrom]
  | cons l rest ih =>
    unfold exitsFrom
    split
    · exact forall_mem_cons.2 ⟨Nat.le_add_right _ _, ih⟩
    · exact ih

theorem exitsFrom_increasing (full : ∀ l ∈ ls, l.text ≠ []) :
    (exitsFrom offset ls).Pairwise fun a b => a.start < b.start := by
  induction ls generalizing offset with
  | nil => exact .nil
  | cons l rest ih =>
    obtain ⟨some, full⟩ := forall_mem_cons.1 full
    have pos := length_pos_of_ne_nil some
    unfold exitsFrom
    split
    · refine .cons (fun e mem => ?_) (ih full)
      have := (exitsFrom_within e mem).1
      dsimp only
      omega
    · exact ih full

end Lexemes

section Edits

variable {κ : Correction} {file : UInt32}
variable {pre content : Bytes}

/-- The edit that puts in the keyword wanted at a place. -/
def keywordEdit? (κ : Correction) (file : UInt32) (e : Extent) : Option Edit :=
  (κ (some e)).map fun j => ⟨e.inFile file, j.text⟩

theorem apply?_keywordEdit {text post : Bytes} {offset : Nat} {j : Jump} (length : pre.length = offset)
    (small : offset + text.length < 2 ^ 32) :
    Edit.apply? (pre ++ (text ++ post)) ⟨Extent.inFile file ⟨offset, offset + text.length⟩, j.text⟩ =
      some (pre ++ (Bytes.ofString j.text ++ post)) := by
  subst length
  have start : pre.length.toUInt32.toNat = pre.length :=
    UInt32.toNat_ofNat_of_lt' ((Nat.le_add_right _ _).trans_lt small)
  have stop : (pre.length + text.length).toUInt32.toNat = pre.length + text.length :=
    UInt32.toNat_ofNat_of_lt' small
  unfold Edit.apply? Extent.inFile
  rw [start, stop, if_pos (by simp), take_left, append_assoc, ← append_assoc pre text,
    ← length_append, drop_left]

theorem foldlM_keywordEdits {offset : Nat} {ls : List Lexeme} (length : pre.length = offset)
    (small : offset + (ls.flatMap Lexeme.text).length < 2 ^ 32) :
    ((exitsFrom offset ls).filterMap (keywordEdit? κ file)).reverse.foldlM Edit.apply?
        (pre ++ ls.flatMap Lexeme.text) = some (pre ++ (rewordFrom κ offset ls).flatMap Lexeme.text) := by
  induction ls generalizing pre offset with
  | nil => rfl
  | cons l rest ih =>
    rw [flatMap_cons, length_append] at small
    have later := @ih (pre ++ l.text) (offset + l.text.length) (by simp [length]) (by omega)
    rw [append_assoc, append_assoc] at later
    rw [exitsFrom, rewordFrom, flatMap_cons]
    cases exit : l.isExit with
    | false =>
      rw [Syntax.reworded_of_plain _ exit]
      exact later
    | true =>
      unfold reworded
      rw [if_pos rfl]
      cases found : κ (some ⟨offset, offset + l.text.length⟩) with
      | none =>
        have same : keywordEdit? κ file ⟨offset, offset + l.text.length⟩ = none := by
          rw [keywordEdit?, found, Option.map_none]
        rw [filterMap_cons_none same]
        exact later
      | some j =>
        have made : keywordEdit? κ file ⟨offset, offset + l.text.length⟩ =
            some ⟨Extent.inFile file ⟨offset, offset + l.text.length⟩, j.text⟩ := by
          rw [keywordEdit?, found, Option.map_some]
        have here : offset + l.text.length < 2 ^ 32 := by omega
        rw [filterMap_cons_some made, reverse_cons, foldlM_append, later]
        simp only [exit, Option.bind_eq_bind, Option.bind_some, foldlM_cons]
        rw [apply?_keywordEdit length here]
        rfl

theorem keywordEdits_increasing (κ : Correction) (file : UInt32) (small : content.length < 2 ^ 32) :
    ((exits content).filterMap (keywordEdit? κ file)).Pairwise
      fun a b => a.span.start.toNat < b.span.start.toNat := by
  have offset : ∀ e ∈ exits content, e.start.toUInt32.toNat = e.start := by
    intro e mem
    have within := (exitsFrom_within e mem).2
    have proper := exitsFrom_proper e mem
    rw [flatMap_text_lexemes, Nat.zero_add] at within
    apply UInt32.toNat_ofNat_of_lt'
    exact (proper.trans within).trans_lt small
  rw [pairwise_filterMap]
  apply (exitsFrom_increasing (text_ne_nil content)).imp_of_mem
  intro e e' mem mem' before a made b made'
  obtain ⟨j, -, rfl⟩ := Option.map_eq_some_iff.1 made
  obtain ⟨j', -, rfl⟩ := Option.map_eq_some_iff.1 made'
  change e.start.toUInt32.toNat < e'.start.toUInt32.toNat
  rw [offset e mem, offset e' mem']
  exact before

/-- Edits at different offsets are put in one order only, from the last one to the first one. -/
theorem mergeSort_eq_reverse {edits sorted : List Edit}
    (increasing : sorted.Pairwise fun a b => a.span.start.toNat < b.span.start.toNat)
    (perm : edits.Perm sorted) :
    edits.mergeSort (fun a b => b.span.start ≤ a.span.start) = sorted.reverse := by
  have order := mergeSort_perm edits fun a b => b.span.start ≤ a.span.start
  have different : (sorted.map (·.span.start.toNat)).Nodup := by
    rw [List.Nodup, pairwise_map]
    exact increasing.imp Nat.ne_of_lt
  refine List.Perm.eq_of_pairwise ?_ (pairwise_mergeSort ?_ ?_ edits) ?_
    (order.trans (perm.trans (reverse_perm _).symm))
  · intro a b mem mem' le ge
    rw [decide_eq_true_eq] at le ge
    exact inj_on_of_nodup_map different ((order.trans perm).subset mem) (mem_reverse.1 mem')
      (Nat.le_antisymm ge le)
  · simp only [decide_eq_true_eq, UInt32.le_iff_toNat_le]
    omega
  · simp only [Bool.or_eq_true, decide_eq_true_eq, UInt32.le_iff_toNat_le]
    omega
  · rw [pairwise_reverse]
    apply increasing.imp
    intro a b before
    rw [decide_eq_true_eq]
    exact Nat.le_of_lt before

/-- In whichever order keyword edits are given, they make the reworded text. -/
theorem applyEdits?_keywordEdits {edits : List Edit} (small : content.length < 2 ^ 32)
    (perm : edits.Perm ((exits content).filterMap (keywordEdit? κ file))) :
    applyEdits? content edits = some (reword κ content) := by
  have made : ((exits content).filterMap (keywordEdit? κ file)).reverse.foldlM Edit.apply?
      ([] ++ (lexemes content).flatMap Lexeme.text) = some ([] ++ reword κ content) :=
    foldlM_keywordEdits rfl (by rwa [flatMap_text_lexemes, Nat.zero_add])
  rw [flatMap_text_lexemes] at made
  rw [applyEdits?, mergeSort_eq_reverse (keywordEdits_increasing κ file small) perm]
  exact made

end Edits

end Peano.Diagnostic
