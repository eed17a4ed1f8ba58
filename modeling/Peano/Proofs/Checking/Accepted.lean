import Peano.Proofs.Checking.Elaboration
import Peano.Proofs.Scope
namespace Peano.Judgement
open Syntax (Block Expr TypeExpr Name)

/-- The program is checked without an error and comes to `e`. -/
structure Accepted (cfg : Settings) (program : Block) (e : Elaborated) : Prop where
  run : elaborateProgram cfg Axiom.scope program = .ok e
  clean : e.hasErrors = false

def acceptedType? (cfg : Settings) (scope : Scope) (program : Block) : Option Formula :=
  match elaborateProgram cfg scope program with
  | .ok e => if e.hasErrors then none else some e.typed.type
  | .error _ => none

theorem exists_accepted {cfg : Settings} {program : Block} {t : Formula}
    (h : acceptedType? cfg Axiom.scope program = some t) :
    ∃ e, Accepted cfg program e ∧ e.typed.type = t := by
  unfold acceptedType? at h
  split at h
  next e run =>
    split at h
    case isTrue => cases h
    case isFalse clean =>
      cases h
      exact ⟨e, ⟨run, by simpa using clean⟩, rfl⟩
  · cases h

def comesTo (cfg : Settings) (scope : Scope) (program : Block) (test : Elaborated → Bool) : Bool :=
  match elaborateProgram cfg scope program with
  | .ok e => test e
  | .error _ => false

theorem exists_of_comesTo {cfg : Settings} {scope : Scope} {program : Block} {test : Elaborated → Bool}
    (h : comesTo cfg scope program test) : ∃ e, elaborateProgram cfg scope program = .ok e ∧ test e := by
  unfold comesTo at h
  split at h
  next e run =>
    exact ⟨e, run, h⟩
  · cases h

theorem Accepted.passes {cfg : Settings} {program : Block} {e : Elaborated} (h : Accepted cfg program e) :
    ∃ seen, Passes cfg (Allowed false) (.block Axiom.scope true program none seen e.typed) := by
  obtain ⟨seen, passes, -⟩ := elaborateProgram_passes h.run h.clean (absurd · Bool.false_ne_true)
  exact ⟨seen, passes⟩

/-- A name that is written nowhere in particular. -/
def written (text : String) : Name := ⟨text, none⟩

end Peano.Judgement
