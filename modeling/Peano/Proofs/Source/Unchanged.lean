import Peano.Proofs.Syntax.Reworded
import Peano.Proofs.Token.Composed
import Peano.Source.File
namespace Peano.Source
open List
open Syntax (Correction reword rewordFrom lexemes_reword faults_reword exchanged_rewordFrom)
open Text (Starts composed compose_eq)
open Token (Swapped composed_exchanges composed_lexemes composed_of_lexemes lexemes
  starts_of_clean)

variable {bs bs' content : Bytes} {isVirtual : Bool}

theorem isNormalized_eq_false_iff : (flagsOf isVirtual content).isNormalized = false ↔
    dropMark content = content ∧ joinLineEnds content = content ∧ Text.compose content = content := by
  unfold flagsOf Flags.isNormalized
  simp only [Bool.or_eq_false_iff, bne_eq_false_iff_eq]
  constructor
  · rintro ⟨⟨mark, ends⟩, composed⟩
    rw [mark] at ends composed
    rw [ends] at composed
    exact ⟨mark, ends, composed⟩
  · rintro ⟨mark, ends, composed⟩
    rw [mark, ends]
    exact ⟨⟨rfl, rfl⟩, composed⟩

theorem content_make {path : String} (normal : (File.make path content isVirtual).flags.isNormalized = false) :
    (File.make path content isVirtual).content = content := by
  obtain ⟨mark, ends, composed⟩ := isNormalized_eq_false_iff.1 normal
  change normalize content = content
  rw [normalize, mark, ends, composed]

theorem dropMark_of_starts (start : Starts content) : dropMark content = content := by
  unfold dropMark
  split
  · exact absurd (start 0xEF rfl) (by decide)
  · rfl

theorem joinLineEnds_cons {b : UInt8} (single : ¬[13, 10] <+: b :: bs) :
    joinLineEnds (b :: bs) = b :: joinLineEnds bs := by
  rw [joinLineEnds]
  rintro rest rfl rfl
  exact single ⟨rest, rfl⟩

theorem joinLineEnds_append {w : Bytes} (none : 13 ∉ w) (bs : Bytes) :
    joinLineEnds (w ++ bs) = w ++ joinLineEnds bs := by
  induction w with
  | nil => rfl
  | cons b w ih =>
    rw [mem_cons, not_or] at none
    have single : ¬[13, 10] <+: b :: (w ++ bs) := by
      rw [cons_prefix_cons]
      exact fun h => none.1 h.1
    rw [cons_append, joinLineEnds_cons single, ih none.2, cons_append]

/-- Text with single line feeds has no double line end at its front. -/
theorem single_of_joinLineEnds (joined : joinLineEnds bs = bs) : ¬[13, 10] <+: bs := by
  rintro ⟨rest, rfl⟩
  cases joined

theorem joinLineEnds_swapped (h : Swapped bs bs') (joined : joinLineEnds bs = bs) : joinLineEnds bs' = bs' := by
  induction h with
  | nil => rfl
  | @same b bs bs' h ih =>
    have single := single_of_joinLineEnds joined
    rw [joinLineEnds_cons single] at joined
    have single' : ¬[13, 10] <+: b :: bs' := fun double =>
      single (((Swapped.same b h).prefix_iff rfl).1 double)
    rw [joinLineEnds_cons single', ih (List.cons.inj joined).2]
  | @swap k k' bs bs' exit exit' h ih =>
    have letters : ∀ k : Token.Kind, k.isExit → 13 ∉ Bytes.ofString k.name := by
      intro k exit
      cases k <;> with_unfolding_all decide
    rw [joinLineEnds_append (letters k exit)] at joined
    rw [joinLineEnds_append (letters k' exit'), ih (append_cancel_left joined)]

/-- Content that loading leaves as it is, with other keywords, is left as it is too. -/
theorem isNormalized_reword (κ : Correction) (clean : Token.faults content = [])
    (normal : (flagsOf isVirtual content).isNormalized = false) :
    (flagsOf isVirtual (reword κ content)).isNormalized = false := by
  obtain ⟨-, joined, composed⟩ := isNormalized_eq_false_iff.1 normal
  have fine := Token.faults_eq_nil_iff.1 clean
  have fine' := Token.faults_eq_nil_iff.1 (faults_reword κ clean)
  have exchanged := exchanged_rewordFrom κ 0 (lexemes content)
  rw [isNormalized_eq_false_iff]
  refine ⟨dropMark_of_starts (starts_of_clean fine'), ?_, ?_⟩
  · exact joinLineEnds_swapped (Token.lexemes_exchanged fine exchanged).1 joined
  · rw [compose_eq] at composed ⊢
    refine composed_of_lexemes fine' ?_
    rw [lexemes_reword κ clean]
    exact composed_exchanges exchanged (composed_lexemes fine composed)

end Peano.Source
