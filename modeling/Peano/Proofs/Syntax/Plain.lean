import Peano.Syntax.Reading
namespace Peano.Syntax

/-- Whether two terms are the same, places included, and made of names, numerals and calls. -/
def Expr.isPlainly : Expr → Expr → Bool
  | .name x, .name y => x = y
  | .numeral d p, .numeral e q => d = e && p = q
  | .call f a p, .call g b q => f.isPlainly g && a.isPlainly b && p = q
  | _, _ => false

theorem Expr.eq_of_isPlainly {e f : Expr} (h : e.isPlainly f) : e = f := by
  fun_induction Expr.isPlainly e f with
  | case1 | case2 | case3 => simp_all
  | case4 => cases h

def isPlainType : Option TypeExpr → Option TypeExpr → Bool
  | none, none => true
  | some (.name x), some (.name y) => x = y
  | _, _ => false

theorem eq_of_isPlainType {t u : Option TypeExpr} (h : isPlainType t u) : t = u := by
  unfold isPlainType at h
  split at h <;> simp_all

/-- The same for programs of one statement. -/
def Block.isPlainly : Block → Block → Bool
  | ⟨[.define ⟨x, t, v, p⟩], place⟩, ⟨[.define ⟨y, u, w, q⟩], place'⟩ =>
    x = y && isPlainType t u && v.isPlainly w && p = q && place = place'
  | ⟨[.leave j k v p], place⟩, ⟨[.leave j' k' w q], place'⟩ =>
    j = j' && k = k' && v.isPlainly w && p = q && place = place'
  | _, _ => false

theorem Block.eq_of_isPlainly {b c : Block} (h : b.isPlainly c) : b = c := by
  unfold isPlainly at h
  split at h
  · simp only [Bool.and_eq_true, decide_eq_true_eq] at h
    obtain ⟨⟨⟨⟨rfl, type⟩, value⟩, rfl⟩, rfl⟩ := h
    rw [eq_of_isPlainType type, Expr.eq_of_isPlainly value]
  · simp only [Bool.and_eq_true, decide_eq_true_eq] at h
    obtain ⟨⟨⟨⟨rfl, rfl⟩, value⟩, rfl⟩, rfl⟩ := h
    rw [Expr.eq_of_isPlainly value]
  · cases h

/-- Syntax trees are not compared in general, but enough to tell what a short text is read as. -/
theorem readProgram_plain {bs : Bytes} {b : Block} (h : (readProgram bs).toOption.any b.isPlainly) :
    readProgram bs = .ok b := by
  cases read : readProgram bs with
  | error => simp [read, Except.toOption] at h
  | ok c =>
    rw [read] at h
    rw [Block.eq_of_isPlainly h]

end Peano.Syntax
