import Peano.Proofs.Formula.Equal
namespace Peano

inductive Shape where
  | number
  | equation
  | falsity
  | anything
  | pair (left right : Shape)
  | either (left right : Shape)
  | exist (property : Shape)
  | function (domain codomain : Shape)
  deriving DecidableEq, Repr

namespace Formula

def shape : Formula → Shape
  | .var _ | .zero | .succ _ | .add .. | .mul .. | .nat | .typeVar _ => .number
  | .eq .. | .rung .. => .equation
  | .never => .falsity
  | .any | .hole => .anything
  | .and l r => .pair l.shape r.shape
  | .or l r => .either l.shape r.shape
  | .struct _ _ s => .exist s.shape
  | .arrow _ d c => .function d.shape c.shape

theorem shape_of_isArithmetic {t : Formula} (h : t.isArithmetic) : t.shape = .number := by
  cases t with
  | var _ | zero | succ _ | add _ _ | mul _ _ => rfl
  | _ => cases h

theorem shape_numeral (n : Nat) : (numeral n).shape = .number := by
  cases n <;> rfl

theorem shape_rewrite (t : Formula) (x : String) {u : Formula} (hu : u.shape = .number) :
    (t.rewrite x u).shape = t.shape := by
  induction t using binder_induction generalizing x u with
  | var z | typeVar z => rw [rewrite]; split <;> first | exact hu | rfl
  | zero | nat | never | any | hole => rw [rewrite]
  | succ _ _ | add _ _ _ _ | mul _ _ _ _ | eq _ _ _ _ | rung _ _ _ _ => rw [rewrite]; rfl
  | and l r ihl ihr | or l r ihl ihr => simp only [rewrite, shape, ihl x hu, ihr x hu]
  | implies z d c quantifier ihd ihc =>
    rw [rewrite_implication quantifier]
    simp only [shape, ihd x hu, ihc x hu]
  | all z c ih | struct z _ c ih =>
    simp only [rewrite_all, rewrite_struct]
    split
    · rfl
    split
    · simp only [shape, ih _ (size_rewrite_var c z _) x hu, ih c rfl z (u := .var _) rfl]
    · simp only [shape, ih c rfl x hu]

theorem shape_of_sides? {b l r : Formula} (h : sides? b = some (l, r)) : b.shape = .equation := by
  cases b with
  | eq | rung => rfl
  | _ => cases h

theorem shape_alignBody? {x y : String} {b c : Formula} (h : alignBody? x y b = some c) :
    c.shape = b.shape := by
  unfold alignBody? at h
  split at h
  · cases h
    rfl
  split at h
  · cases h
  · cases h
    exact shape_rewrite b y rfl

theorem Alike.shape_eq {a b : Formula} (h : Alike a b) : a.shape = b.shape := by
  induction h with
  | rungLeft sides => exact (shape_of_sides? sides).symm
  | rungRight | var | zero | nat | never | succ | add | mul | eq => rfl
  | and _ _ ihl ihr | or _ _ ihl ihr => rw [shape, shape, ihl, ihr]
  | arrow _ renamed _ ihd ihc => rw [shape, shape, ihd, ihc, shape_alignBody? renamed]
  | struct renamed _ ih => rw [shape, shape, ih, shape_alignBody? renamed]

end Formula

end Peano
