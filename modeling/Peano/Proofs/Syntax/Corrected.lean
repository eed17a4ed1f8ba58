import Peano.Proofs.Syntax.Bare
namespace Peano.Syntax
open List

/-- The kinds of statements to be changed, by the places of their keywords. -/
abbrev Correction := Place → Option Jump

theorem TypeExpr.place_bare (t : TypeExpr) : t.bare.place = none := by
  cases t <;> rfl

section Leaves

mutual

/-- The statements inside a term that hand over a value: where their keywords are, and which kind is
wanted there. -/
@[simp]
def Expr.leaves : Expr → List (Place × Jump)
  | .name _ | .numeral .. | .generic .. => []
  | .arith _ l r _ | .call l r _ | .pair l r _ | .record _ l _ r _ => l.leaves ++ r.leaves
  | .lambda _ _ _ e _ | .emptyCall e _ | .ascribe e _ _ | .member e _ _ => e.leaves
  | .loop l => l.leaves
  | .switch s => s.leaves .stop
  | .block b => b.leaves .ret

def Definition.leaves : Definition → List (Place × Jump)
  | ⟨_, _, v, _⟩ => v.leaves

def Loop.leaves : Loop → List (Place × Jump)
  | ⟨c, p, _, bound, _, _, _, body, _⟩ => c.leaves ++ p.leaves ++ bound.leaves ++ body.leaves .next

def Block.leaves (ending : Jump) : Block → List (Place × Jump)
  | ⟨ss, _⟩ => statementLeaves ending ss

def Switch.leaves (ending : Jump) : Switch → List (Place × Jump)
  | ⟨e, cs, _⟩ => e.leaves ++ caseLeaves ending cs

def caseLeaves (ending : Jump) : List Case → List (Place × Jump)
  | [] => []
  | ⟨_, _, _, body, _⟩ :: rest => body.leaves ending ++ caseLeaves ending rest

def statementLeaves (ending : Jump) : List Statement → List (Place × Jump)
  | [] => []
  | s :: rest => s.leaves ending ++ statementLeaves ending rest

def Statement.leaves (ending : Jump) : Statement → List (Place × Jump)
  | .define d => d.leaves
  | .destructure _ _ v _ => v.leaves
  | .leave _ place v _ => (place, ending) :: v.leaves
  | .typedef .. | .generic .. | .empty _ => []
  | .log as _ => exprLeaves as
  | .switch s => s.leaves ending

def exprLeaves : List Expr → List (Place × Jump)
  | [] => []
  | e :: rest => e.leaves ++ exprLeaves rest

end

end Leaves

section Corrections

mutual

/-- A term in which statements are of the kinds that a correction gives. -/
def Expr.corrected (κ : Correction) : Expr → Expr
  | .name n => .name n
  | .numeral digits p => .numeral digits p
  | .arith op l r p => .arith op (l.corrected κ) (r.corrected κ) p
  | .lambda x d r b p => .lambda x d r (b.corrected κ) p
  | .call f a p => .call (f.corrected κ) (a.corrected κ) p
  | .emptyCall f p => .emptyCall (f.corrected κ) p
  | .generic f a p => .generic f a p
  | .pair l r p => .pair (l.corrected κ) (r.corrected κ) p
  | .record x a y b p => .record x (a.corrected κ) y (b.corrected κ) p
  | .ascribe e t p => .ascribe (e.corrected κ) t p
  | .member e f p => .member (e.corrected κ) f p
  | .loop l => .loop (l.corrected κ)
  | .switch s => .switch (s.corrected κ)
  | .block b => .block (b.corrected κ)

def Definition.corrected (κ : Correction) : Definition → Definition
  | ⟨x, t, v, p⟩ => ⟨x, t, v.corrected κ, p⟩

def Loop.corrected (κ : Correction) : Loop → Loop
  | ⟨c, q, x, bound, cp, y, sp, body, p⟩ =>
    ⟨c.corrected κ, q.corrected κ, x, bound.corrected κ, cp, y, sp, body.corrected κ, p⟩

def Block.corrected (κ : Correction) : Block → Block
  | ⟨ss, p⟩ => ⟨correctedStatements κ ss, p⟩

def Switch.corrected (κ : Correction) : Switch → Switch
  | ⟨e, cs, p⟩ => ⟨e.corrected κ, correctedCases κ cs, p⟩

def correctedCases (κ : Correction) : List Case → List Case
  | [] => []
  | ⟨tag, x, gp, body, p⟩ :: rest => ⟨tag, x, gp, body.corrected κ, p⟩ :: correctedCases κ rest

def correctedStatements (κ : Correction) : List Statement → List Statement
  | [] => []
  | s :: rest => s.corrected κ :: correctedStatements κ rest

/-- A statement in which those to be changed are of the kinds that a correction gives. -/
def Statement.corrected (κ : Correction) : Statement → Statement
  | .define d => .define (d.corrected κ)
  | .destructure x y v p => .destructure x y (v.corrected κ) p
  | .leave j place v p => .leave ((κ place).getD j) place (v.corrected κ) p
  | .typedef x t p => .typedef x t p
  | .generic x ps t p => .generic x ps t p
  | .log as p => .log (correctedExprs κ as) p
  | .empty p => .empty p
  | .switch s => .switch (s.corrected κ)

def correctedExprs (κ : Correction) : List Expr → List Expr
  | [] => []
  | e :: rest => e.corrected κ :: correctedExprs κ rest

end

def Case.corrected (κ : Correction) (c : Case) : Case := { c with body := c.body.corrected κ }

variable {κ : Correction}

theorem correctedCases_eq (cs : List Case) : correctedCases κ cs = cs.map (Case.corrected κ) :=
  eq_map rfl (fun ⟨_, _, _, _, _⟩ _ => rfl) cs

theorem correctedStatements_eq (ss : List Statement) :
    correctedStatements κ ss = ss.map (Statement.corrected κ) :=
  eq_map rfl (fun _ _ => rfl) ss

theorem correctedExprs_eq (es : List Expr) : correctedExprs κ es = es.map (Expr.corrected κ) :=
  eq_map rfl (fun _ _ => rfl) es

theorem caseLeaves_eq (ending : Jump) (cs : List Case) :
    caseLeaves ending cs = cs.flatMap fun c => c.body.leaves ending := by
  induction cs with
  | nil => rfl
  | cons c cs ih =>
    obtain ⟨tag, x, gp, body, place⟩ := c
    rw [caseLeaves, ih, flatMap_cons]

theorem statementLeaves_eq (ending : Jump) (ss : List Statement) :
    statementLeaves ending ss = ss.flatMap (Statement.leaves ending) := by
  induction ss with
  | nil => rfl
  | cons s ss ih => rw [statementLeaves, ih, flatMap_cons]

theorem exprLeaves_eq (es : List Expr) : exprLeaves es = es.flatMap Expr.leaves := by
  induction es with
  | nil => rfl
  | cons e es ih => rw [exprLeaves, ih, flatMap_cons]

@[simp] theorem Expr.leaves_withPlace (p : Place) (e : Expr) : (e.withPlace p).leaves = e.leaves := by
  cases e with
  | loop l => cases l; rfl
  | switch s => cases s; rfl
  | block b => cases b; rfl
  | _ => rfl

@[simp] theorem Statement.leaves_withPlace (p : Place) (ending : Jump) (s : Statement) :
    (s.withPlace p).leaves ending = s.leaves ending := by
  cases s with
  | define d => cases d; rfl
  | switch s => cases s; rfl
  | _ => rfl

@[simp] theorem Expr.corrected_withPlace (p : Place) (e : Expr) :
    (e.withPlace p).corrected κ = (e.corrected κ).withPlace p := by
  cases e with
  | loop l => cases l; rfl
  | switch s => cases s; rfl
  | block b => cases b; rfl
  | _ => rfl

@[simp] theorem Statement.corrected_withPlace (p : Place) (s : Statement) :
    (s.withPlace p).corrected κ = (s.corrected κ).withPlace p := by
  cases s with
  | define d => cases d; rfl
  | switch s => cases s; rfl
  | _ => rfl

def Correction.none : Correction := fun _ => Option.none

mutual

theorem Expr.corrected_none : (e : Expr) → e.corrected .none = e
  | .name _ | .numeral .. | .generic .. => by rw [Expr.corrected]
  | .arith _ l r _ | .call l r _ | .pair l r _ | .record _ l _ r _ => by
    rw [Expr.corrected, l.corrected_none, r.corrected_none]
  | .lambda _ _ _ e _ | .emptyCall e _ | .ascribe e _ _ | .member e _ _ => by
    rw [Expr.corrected, e.corrected_none]
  | .loop l => by rw [Expr.corrected, l.corrected_none]
  | .switch s => by rw [Expr.corrected, s.corrected_none]
  | .block b => by rw [Expr.corrected, b.corrected_none]

theorem Definition.corrected_none : (d : Definition) → d.corrected .none = d
  | ⟨x, t, v, p⟩ => by rw [Definition.corrected, v.corrected_none]

theorem Loop.corrected_none : (l : Loop) → l.corrected .none = l
  | ⟨c, q, x, bound, cp, y, sp, body, p⟩ => by
    rw [Loop.corrected, c.corrected_none, q.corrected_none, bound.corrected_none, body.corrected_none]

theorem Block.corrected_none : (b : Block) → b.corrected .none = b
  | ⟨ss, p⟩ => by rw [Block.corrected, correctedStatements_none ss]

theorem Switch.corrected_none : (s : Switch) → s.corrected .none = s
  | ⟨e, cs, p⟩ => by rw [Switch.corrected, e.corrected_none, correctedCases_none cs]

theorem correctedCases_none : (cs : List Case) → correctedCases .none cs = cs
  | [] => by rw [correctedCases]
  | ⟨tag, x, gp, body, p⟩ :: rest => by
    rw [correctedCases, body.corrected_none, correctedCases_none rest]

theorem correctedStatements_none : (ss : List Statement) → correctedStatements .none ss = ss
  | [] => by rw [correctedStatements]
  | s :: rest => by rw [correctedStatements, s.corrected_none, correctedStatements_none rest]

theorem Statement.corrected_none : (s : Statement) → s.corrected .none = s
  | .define d => by rw [Statement.corrected, d.corrected_none]
  | .destructure x y v p => by rw [Statement.corrected, v.corrected_none]
  | .leave j place v p => by rw [Statement.corrected, v.corrected_none, Correction.none, Option.getD_none]
  | .typedef .. | .generic .. | .empty _ => by rw [Statement.corrected]
  | .log as p => by rw [Statement.corrected, correctedExprs_none as]
  | .switch s => by rw [Statement.corrected, s.corrected_none]

theorem correctedExprs_none : (es : List Expr) → correctedExprs .none es = es
  | [] => by rw [correctedExprs]
  | e :: rest => by rw [correctedExprs, e.corrected_none, correctedExprs_none rest]

end

end Corrections

end Peano.Syntax
