import Peano.Judgement.Elaboration
namespace Peano.Judgement
open Syntax (Place Jump Statement)

section Step

variable (cfg : Settings) (isProgram : Bool) (block : Place) (ending : Jump) (require : Option Formula)

def goOn (after : Progressed) : Noting (Progressed ⊕ Typed) := do
  if isProgram then exerciseRule cfg.exercise after.scope
  return .inl after

/-- What a statement does: the block goes on, or it has its value. -/
def step (before : Progressed) (s : Statement) : Noting (Progressed ⊕ Typed) :=
  match s with
  | .empty _ => pure (.inl before)
  | .define ⟨x, t, v, place⟩ => do
    let (after, failed) ←
      defineRule isProgram (visibleAfter s.place block) x t (check cfg before.scope v) before
    reportAt place failed
    goOn cfg isProgram after
  | .destructure x y v place => do
    let (after, failed) ←
      destructureRule isProgram (visibleAfter s.place block) x y (check cfg before.scope v none) before
    reportAt place failed
    goOn cfg isProgram after
  | .leave jump jumpPlace v _ => do
    if jump ≠ ending then
      note (.error jumpPlace (.wrongEnding (.jump ending) (.jump jump)) (some ending.text))
    let r ← check cfg before.scope v require
    return .inr ⟨r.type, r.realizer.after before.bindings⟩
  | .switch sw => do
    match ← (inferSwitch cfg before.scope ending sw require).run with
    | .ok r => return .inr ⟨r.type, r.realizer.after before.bindings⟩
    | .error e =>
      report sw.place e
      goOn cfg isProgram before
  | .typedef x t _ => do
    let type ← resolveType before.scope t
    goOn cfg isProgram { before with scope := before.scope.insert x.text (.typedef type) }
  | .generic x ps t place => do
    let (scope, failed) ← genericRuleFor x ps t before.scope
    reportAt place failed
    goOn cfg isProgram { before with scope }
  | .log args _ => do
    logArguments cfg isProgram before args
    goOn cfg isProgram before

/-- Goes through statements until one of them ends the block. -/
def walk (before : Progressed) : List Statement → Noting (Progressed ⊕ Typed)
  | [] => pure (.inl before)
  | s :: rest => do
    match ← step cfg isProgram block ending require before s with
    | .inl after => walk after rest
    | .inr t => return .inr t

/-- The scope in which each statement is checked, and what is noted at it, up to the end of the block. -/
def trail (before : Progressed) (n : Notes) : List Statement → List (Scope × List Record)
  | [] => []
  | s :: rest =>
    match (step cfg isProgram block ending require before s).run n with
    | .error _ => []
    | .ok (.inl after, m) => (before.scope, m.records.toList.drop n.records.size) :: trail after m rest
    | .ok (.inr _, m) => [(before.scope, m.records.toList.drop n.records.size)]

variable {cfg isProgram block ending require}

theorem goOn_bind {α : Type} (after : Progressed) (k : Progressed ⊕ Typed → Noting α) :
    (goOn cfg isProgram after >>= k) =
      if isProgram then exerciseRule cfg.exercise after.scope >>= fun _ => k (.inl after) else k (.inl after) := by
  cases isProgram with
  | true => exact bind_assoc _ _ _
  | false => rfl

theorem inferStatements_cons (before : Progressed) (s : Statement) (rest : List Statement) :
    inferStatements cfg isProgram block ending require before (s :: rest) =
      step cfg isProgram block ending require before s >>= Sum.elim
        (fun after => inferStatements cfg isProgram block ending require after rest) fun t => pure (.ok t) := by
  cases s with
  | empty => rw [inferStatements, step, pure_bind, Sum.elim_inl]
  | define d =>
    obtain ⟨x, t, v, place⟩ := d
    simp only [inferStatements, step, bind_assoc, goOn_bind, Sum.elim_inl]
  | destructure x y v place | typedef x t place | generic x ps t place | log args place =>
    simp only [inferStatements, step, bind_assoc, goOn_bind, Sum.elim_inl]
  | leave jump jumpPlace v place =>
    rw [inferStatements, step]
    split
    · simp only [bind_assoc, pure_bind, Sum.elim_inr]
    · simp only [bind_assoc, pure_bind, Sum.elim_inr]
  | switch sw =>
    rw [inferStatements, step, bind_assoc]
    congr 1
    funext r
    cases r with
    | ok r => rfl
    | error e => simp only [bind_assoc, goOn_bind, Sum.elim_inl]

theorem inferStatements_append (before : Progressed) (ss rest : List Statement) :
    inferStatements cfg isProgram block ending require before (ss ++ rest) =
      walk cfg isProgram block ending require before ss >>= Sum.elim
        (fun after => inferStatements cfg isProgram block ending require after rest) fun t => pure (.ok t) := by
  induction ss generalizing before with
  | nil => rw [List.nil_append, walk, pure_bind, Sum.elim_inl]
  | cons s ss ih =>
    rw [List.cons_append, inferStatements_cons, walk, bind_assoc]
    congr 1
    funext r
    cases r with
    | inl after => exact ih after
    | inr t => rfl

end Step

end Peano.Judgement
