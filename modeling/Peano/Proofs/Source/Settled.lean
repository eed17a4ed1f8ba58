import Peano.Proofs.Source.Origin
namespace Peano.Token
open List
open Text (Starts composed composed_append composed_plain)

variable {x y : UInt8} {bs bs' u : Bytes}

theorem pair_infix_plain (firm : x < 48) (plain : ∀ c ∈ u, 48 ≤ c) :
    [x, y] <:+: u ++ bs ↔ [x, y] <:+: bs := by
  induction u with
  | nil => rfl
  | cons c u ih =>
    rw [forall_mem_cons] at plain
    have other : x ≠ c := by grind
    simp [infix_cons_iff, other, ih plain.2]

theorem Refilled.pair_infix_iff (h : Refilled bs bs') (firm : x < 48) (firm' : y < 48) :
    [x, y] <:+: bs' ↔ [x, y] <:+: bs := by
  induction h with
  | nil => rfl
  | cons _ plain others same refilled ih =>
    rw [infix_cons_iff, infix_cons_iff, pair_prefix_iff firm' plain, pair_prefix_iff firm' others,
      pair_infix_plain firm plain, pair_infix_plain firm others, ih, same, refilled.head?_eq]

theorem pair_infix_composed (firm : x < 48) (firm' : y < 48) : [x, y] <:+: composed bs ↔ [x, y] <:+: bs := by
  obtain ⟨u, rest, rfl, plain, next⟩ := exists_plain_part bs
  have start : Starts rest := fun c mem => by
    grind
  rw [composed_append start, pair_infix_plain firm plain, pair_infix_plain firm (composed_plain plain),
    (refilled_composed next).pair_infix_iff firm firm']

end Peano.Token

namespace Peano.Source
open List
open Text (compose_eq)

theorem joinLineEnds_eq_iff (bs : Bytes) : joinLineEnds bs = bs ↔ ¬[13, 10] <:+: bs := by
  induction bs using joinLineEnds.induct with
  | case1 rest => simp [joinLineEnds, infix_cons_iff, lineFeed]
  | case2 b rest apart ih =>
    have single := single_of_apart apart
    rw [joinLineEnds_cons single, infix_cons_iff, not_or, ← ih]
    simp [single]
  | case3 => simp [joinLineEnds]

theorem lineFeed_prefix_joinLineEnds (bs : Bytes) :
    [10] <+: joinLineEnds bs ↔ [10] <+: bs ∨ [13, 10] <+: bs := by
  cases bs using joinLineEnds.induct with
  | case1 rest => simp [joinLineEnds, lineFeed]
  | case2 b rest apart => simp [joinLineEnds_cons (single_of_apart apart), single_of_apart apart]
  | case3 => simp [joinLineEnds]

/-- A double line end is left behind by a carriage return before another one. -/
theorem infix_joinLineEnds (bs : Bytes) : [13, 10] <:+: joinLineEnds bs ↔ [13, 13, 10] <:+: bs := by
  induction bs using joinLineEnds.induct with
  | case1 rest ih => simp [joinLineEnds, infix_cons_iff, lineFeed, ih]
  | case2 b rest apart ih =>
    have single := single_of_apart apart
    rw [cons_prefix_cons] at single
    rw [joinLineEnds_cons (single_of_apart apart), infix_cons_iff, infix_cons_iff, cons_prefix_cons,
      cons_prefix_cons, lineFeed_prefix_joinLineEnds]
    tauto
  | case3 => simp [joinLineEnds]

/-- The content of a file has a double line end exactly if a carriage return stood before one. Where
composing again changes nothing, a file made of that content differs from it, or has a flag set, only if
this is so or if the content starts with another mark. -/
theorem make_settled (given : Bytes) (path : String) (isVirtual : Bool) :
    let first := File.make path given isVirtual
    let again := File.make path first.content isVirtual
    ([13, 10] <:+: first.content ↔ [13, 13, 10] <:+: dropMark given) ∧
      (Text.compose first.content = first.content →
        (again.content = first.content ∧ again.flags.isNormalized = false ↔
          dropMark first.content = first.content ∧ ¬[13, 13, 10] <:+: dropMark given)) := by
  have ends : [13, 10] <:+: normalize given ↔ [13, 13, 10] <:+: dropMark given := by
    rw [normalize, compose_eq, Token.pair_infix_composed (by decide) (by decide), infix_joinLineEnds]
  refine ⟨ends, fun stable => ?_⟩
  rw [← ends, ← joinLineEnds_eq_iff]
  constructor
  · rintro ⟨-, normal⟩
    obtain ⟨mark, joined, -⟩ := isNormalized_eq_false_iff.1 normal
    exact ⟨mark, joined⟩
  · rintro ⟨mark, joined⟩
    have normal : (flagsOf isVirtual (normalize given)).isNormalized = false :=
      isNormalized_eq_false_iff.2 ⟨mark, joined, stable⟩
    exact ⟨content_make normal, normal⟩

/-- A mark, a double line end, and a carriage return that stays. -/
def markedLines : Bytes := [0xEF, 0xBB, 0xBF, 13, 10, 13, 120]

theorem markedLines_settled : Text.compose (normalize markedLines) = normalize markedLines ∧
    let first := File.make "a" markedLines false
    let again := File.make "a" first.content false
    again.content = first.content ∧ again.flags.isNormalized = false := by
  have stable : Text.compose (normalize markedLines) = normalize markedLines := by decide
  exact ⟨stable, ((make_settled markedLines "a" false).2 stable).2 (by decide)⟩

/-- Of two carriage returns before a line feed one is left, and makes a double line end again. -/
theorem repeated_return_unsettled : (File.make "a" [13, 13, 10] false).content = [13, 10] ∧
    (File.make "a" [13, 10] false).content = [10] ∧
    (File.make "a" [13, 10] false).flags.isNormalized = true := by
  decide

end Peano.Source
