import Peano.Proofs.Checking.Accepted
import Peano.Proofs.Checking.Correction
import Peano.Proofs.Checking.Exchange
namespace Peano.Judgement
open List
open Syntax (Name Expr Block Statement TypeExpr Place Jump)

variable {cfg : Settings}

/-- Two checks may have noted anything. -/
abbrev Anywhere (_ _ : List Record) : Prop := True

theorem parallel_anywhere (s s' : List Record) : Parallel Anywhere s s' := by
  have whole : Parallel Anywhere (s ++ []) (s' ++ []) := .own trivial .nil
  rwa [append_nil, append_nil] at whole

section Required

variable {scope : Scope} {required : Formula} {n m : Notes} {t : Typed}

theorem finished_type {isName : Bool} {type : Formula} {r : Realizer}
    (run : (finished cfg isName type r).run n = .ok (t, m)) : t.type = type := by
  unfold finished at run
  split at run
  · obtain ⟨_, _, -, run⟩ := run_bind_eq_ok.1 run
    cases run
    rfl
  · cases run
    rfl

/-- What is required of a term is its type, whatever else is found out about it. -/
theorem recover_type {place : Place} {isName : Bool} {inferred : Checking Typed}
    (run : (recover cfg place isName (some required) inferred).run n = .ok (t, m)) : t.type = required := by
  have typed {r : Realizer} {k : Notes} (run : (finished cfg isName required r).run k = .ok (t, m)) :
      t.type = required := finished_type run
  obtain ⟨r, _, -, run⟩ := run_bind_eq_ok.1 run
  cases r with
  | error e =>
    exact typed run
  | ok u =>
    obtain ⟨fits, _, -, run⟩ := run_bind_eq_ok.1 run
    cases fits with
    | true => exact typed run
    | false =>
      exact typed run

theorem check_type {e : Expr} (run : (check cfg scope e (some required)).run n = .ok (t, m)) :
    t.type = required := by
  rw [check.eq_def] at run
  cases e with
  | block b =>
    obtain ⟨ss, p⟩ := b
    exact recover_type run
  | loop l =>
    obtain ⟨⟨i, iType, iValue, _⟩, ⟨q, qType, qValue, _⟩, compared, bound, _, stepped, _, body, p⟩ := l
    exact recover_type run
  | _ => exact recover_type run

/-- A written type hides the value. -/
theorem check_hides (scope : Scope) (v v' : Expr) (required : Formula) :
    Agree Anywhere false (agreement Anywhere).Same (check cfg scope v (some required))
      (check cfg scope v' (some required)) := by
  intro n n' t t' m m' run run'
  obtain ⟨⟨s, added⟩, setup⟩ := check_adds run
  obtain ⟨⟨s', added'⟩, setup'⟩ := check_adds run'
  exact ⟨⟨(check_type run).trans (check_type run').symm, nofun⟩, ⟨s, s', added, added', parallel_anywhere s s'⟩,
    fun _ => ⟨setup, setup'⟩⟩

end Required

section Blocks

variable {isProgram : Bool} {block : Place} {ending : Jump} {require : Option Formula}
  {before before' : Progressed} {n n' m m' : Notes} {r r' : Except Error Typed}

/-- The value does not matter to a definition with a written type. -/
theorem definition_hides (x : Name) (t : TypeExpr) (v v' : Expr) (p : Place) :
    Agreeing Anywhere cfg (.statement (.define ⟨x, some t, v, p⟩)) (.statement (.define ⟨x, some t, v', p⟩)) := by
  intro ending
  refine define_steps x (some t) fun scope required written => ?_
  obtain ⟨required, rfl⟩ := Option.isSome_iff_exists.1 written
  exact check_hides scope v v' required

/-- The scope of a statement and the outlines of what was noted at it. -/
def outlined (visit : Scope × List Record) : Scope × List Record := (visit.1, visit.2.map Record.outline)

theorem noted_outlines {s s' : List Record} (added : m.records.toList = n.records.toList ++ s)
    (added' : m'.records.toList = n'.records.toList ++ s') (same : Parallel Nowhere s s') :
    (m.records.toList.drop n.records.size).map Record.outline =
      (m'.records.toList.drop n'.records.size).map Record.outline := by
  rw [added, added', ← Array.length_toList, ← Array.length_toList, drop_left, drop_left]
  exact same.outlines fun _ _ => id

/-- From the same scope on the same statements leave the same trail. -/
theorem trail_alike {ss : List Statement} (alike : (agreement Nowhere).Alike before before')
    (run : (inferStatements cfg isProgram block ending require before ss).run n = .ok (r, m))
    (run' : (inferStatements cfg isProgram block ending require before' ss).run n' = .ok (r', m')) :
    (trail cfg isProgram block ending require before n ss).map outlined =
      (trail cfg isProgram block ending require before' n' ss).map outlined := by
  induction ss generalizing before before' n n' with
  | nil => rfl
  | cons s ss ih =>
    rw [inferStatements_cons] at run run'
    obtain ⟨a, k, first, run⟩ := run_bind_eq_ok.1 run
    obtain ⟨a', k', first', run'⟩ := run_bind_eq_ok.1 run'
    have itself : Agreeing Nowhere cfg (.statement s) (.statement s) := statement_agrees s
    obtain ⟨same, ⟨_, _, added, added', parallel⟩, -⟩ :=
      itself ending isProgram block require before before' alike n n' a a' k k' first first'
    have noted := noted_outlines added added' parallel
    rw [trail, trail, first, first']
    cases a with
    | inl after =>
      cases a' with
      | inl after' => simp only [map_cons, outlined, alike.scope, noted, ih same run run']
      | inr t' => exact same.elim
    | inr t =>
      cases a' with
      | inl after' => exact same.elim
      | inr t' => simp only [map_cons, outlined, alike.scope, noted]

/-- The same without what comes up to the definition, if the value of that is another one. -/
theorem trail_hides {pre post : List Statement} (x : Name) (t : TypeExpr) (v v' : Expr) (p : Place)
    (alike : (agreement Nowhere).Alike before before')
    (run : (inferStatements cfg isProgram block ending require before
      (pre ++ .define ⟨x, some t, v, p⟩ :: post)).run n = .ok (r, m))
    (run' : (inferStatements cfg isProgram block ending require before'
      (pre ++ .define ⟨x, some t, v', p⟩ :: post)).run n' = .ok (r', m')) :
    ((trail cfg isProgram block ending require before n
        (pre ++ .define ⟨x, some t, v, p⟩ :: post)).drop (pre.length + 1)).map outlined =
      ((trail cfg isProgram block ending require before' n'
        (pre ++ .define ⟨x, some t, v', p⟩ :: post)).drop (pre.length + 1)).map outlined := by
  induction pre generalizing before before' n n' with
  | nil =>
    rw [nil_append, inferStatements_cons] at run run'
    obtain ⟨a, k, first, run⟩ := run_bind_eq_ok.1 run
    obtain ⟨a', k', first', run'⟩ := run_bind_eq_ok.1 run'
    have same := (definition_hides x t v v' p ending isProgram block require before before'
      ⟨alike.scope, alike.bindings⟩ n n' a a' k k' first first').1
    rw [nil_append, nil_append, trail, trail, first, first']
    cases a with
    | inl after =>
      cases a' with
      | inl after' =>
        exact trail_alike ⟨same.scope, same.bindings⟩ run run'
      | inr t' => exact same.elim
    | inr t =>
      cases a' with
      | inl after' => exact same.elim
      | inr t' => rfl
  | cons s pre ih =>
    rw [cons_append, inferStatements_cons] at run run'
    obtain ⟨a, k, first, run⟩ := run_bind_eq_ok.1 run
    obtain ⟨a', k', first', run'⟩ := run_bind_eq_ok.1 run'
    have itself : Agreeing Nowhere cfg (.statement s) (.statement s) := statement_agrees s
    have same := (itself ending isProgram block require before before' alike n n' a a' k k' first first').1
    rw [cons_append, cons_append, trail, trail, first, first']
    cases a with
    | inl after =>
      cases a' with
      | inl after' => exact ih same run run'
      | inr t' => exact same.elim
    | inr t =>
      cases a' with
      | inl after' => exact same.elim
      | inr t' => rfl

theorem statements_hide (pre post : List Statement) (x : Name) (t : TypeExpr) (v v' : Expr) (p : Place) :
    Agreeing Anywhere cfg (.statements (pre ++ .define ⟨x, some t, v, p⟩ :: post))
      (.statements (pre ++ .define ⟨x, some t, v', p⟩ :: post)) := by
  induction pre with
  | nil => exact fun ending => walks_cons (definition_hides x t v v' p ending) (statements_agree post ending)
  | cons s pre ih => exact fun ending => walks_cons (statement_agrees s ending) (ih ending)

end Blocks

/-- A block but for the value of one definition, whose type is written. -/
structure Surroundings where
  before : List Statement
  name : Name
  type : TypeExpr
  place : Place
  after : List Statement
  blockPlace : Place

namespace Surroundings

variable (c : Surroundings)
variable {require : Option Formula}

def block (v : Expr) : Block := ⟨c.before ++ .define ⟨c.name, some c.type, v, c.place⟩ :: c.after, c.blockPlace⟩

def trailAfter (cfg : Settings) (scope : Scope) (isProgram : Bool) (ending : Jump) (require : Option Formula)
    (n : Notes) (v : Expr) : List (Scope × List Record) :=
  ((trail cfg isProgram c.blockPlace ending require ⟨scope, []⟩
    (n.add (.required c.blockPlace require (.jump ending))) (c.block v).statements).drop
      (c.before.length + 1)).map outlined

/-- Two stretches of records come from checks of the block with one value and with another one, in the
same scope and with the same requirement. -/
def Twins (cfg : Settings) (v v' : Expr) (s s' : List Record) : Prop :=
  ∃ scope isProgram ending require n n' t t' m m',
    (checkBlock cfg scope isProgram ending (c.block v) require).run n = .ok (t, m) ∧
    (checkBlock cfg scope isProgram ending (c.block v') require).run n' = .ok (t', m') ∧
    m.records.toList = n.records.toList ++ s ∧ m'.records.toList = n'.records.toList ++ s'

theorem run_block {scope : Scope} {isProgram : Bool} {ending : Jump} {n m : Notes} {v : Expr} {t : Typed}
    (run : (checkBlock cfg scope isProgram ending (c.block v) require).run n = .ok (t, m)) :
    ∃ r k, (inferStatements cfg isProgram c.blockPlace ending require ⟨scope, []⟩ (c.block v).statements).run
      (n.add (.required c.blockPlace require (.jump ending))) = .ok (r, k) := by
  obtain ⟨r, k, first, -⟩ := run_bind_eq_ok.1 run
  exact ⟨r, k, first⟩

theorem blocks_hide (v v' : Expr) (ending : Jump) :
    (agreement Anywhere).Blocks cfg ending (c.block v) (c.block v') :=
  block_coupled (statements_hide c.before c.after c.name c.type v v' c.place ending)

theorem trailAfter_hides {scope : Scope} {isProgram : Bool} {ending : Jump} {n n' m m' : Notes}
    {v v' : Expr} {t t' : Typed}
    (run : (checkBlock cfg scope isProgram ending (c.block v) require).run n = .ok (t, m))
    (run' : (checkBlock cfg scope isProgram ending (c.block v') require).run n' = .ok (t', m')) :
    c.trailAfter cfg scope isProgram ending require n v = c.trailAfter cfg scope isProgram ending require n' v' := by
  obtain ⟨r, k, inside⟩ := c.run_block run
  obtain ⟨r', k', inside'⟩ := c.run_block run'
  exact trail_hides c.name c.type v v' c.place ⟨rfl, rfl, fun _ => rfl⟩ inside inside'

theorem blocks_agree (v v' : Expr) :
    Agreeing (c.Twins cfg v v') cfg (.block (c.block v)) (.block (c.block v')) := by
  refine fun ending => ⟨rfl, fun scope isProgram require n n' t t' m m' run run' => ?_⟩
  obtain ⟨same, ⟨s, s', added, added', -⟩, setup⟩ :=
    (c.blocks_hide v v' ending).check scope isProgram require n n' t t' m m' run run'
  have own : c.Twins cfg v v' s s' :=
    ⟨scope, isProgram, ending, require, n, n', t, t', m, m', run, run', added, added'⟩
  have whole : Parallel (c.Twins cfg v v') (s ++ []) (s' ++ []) := .own own .nil
  rw [append_nil, append_nil] at whole
  exact ⟨same, ⟨s, s', added, added', whole⟩, setup⟩

end Surroundings

/-- Two programs that differ in the value of a definition with a written type, at the top or inside. In
whatever scope the block of the definition is checked, it has the same type with both values, and the
statements after the definition are checked in the same scopes and note the same. The programs have the
same type and note the same, but where that block is checked; it is checked in the same scope in both. -/
theorem annotated_definition_hides_value {scope : Scope} {program program' : Block} {e e' : Elaborated}
    (c : Surroundings) (v v' : Expr)
    (differ : Exchanged (fun b b' => b = c.block v ∧ b' = c.block v') (.block program) (.block program'))
    (ran : elaborateProgram cfg scope program = .ok e) (ran' : elaborateProgram cfg scope program' = .ok e') :
    (∀ scope isProgram ending require n n' t t' m m',
      (checkBlock cfg scope isProgram ending (c.block v) require).run n = .ok (t, m) →
      (checkBlock cfg scope isProgram ending (c.block v') require).run n' = .ok (t', m') →
      t.type = t'.type ∧ c.trailAfter cfg scope isProgram ending require n v =
        c.trailAfter cfg scope isProgram ending require n' v') ∧
    e.typed.type = e'.typed.type ∧ Parallel (c.Twins cfg v v') e.records e'.records := by
  refine ⟨fun scope isProgram ending require n n' t t' m m' run run' => ?_, ?_⟩
  · have same := ((c.blocks_hide v v' ending).check scope isProgram require n n' t t' m m' run run').1.1
    exact ⟨same, c.trailAfter_hides run run'⟩
  · have whole : Agreeing (c.Twins cfg v v') cfg (.block program) (.block program') := by
      refine exchanged_agree ?_ differ
      rintro _ _ ⟨rfl, rfl⟩
      exact c.blocks_agree v v'
    obtain ⟨same, ⟨s, s', added, added', parallel⟩, -⟩ := (whole .ret).check scope true none {} {} e.typed
      e'.typed e.notes e'.notes (elaborateProgram_eq_ok.1 ran) (elaborateProgram_eq_ok.1 ran')
    refine ⟨same.1, ?_⟩
    rwa [Elaborated.records, Elaborated.records, added, added']

/-- The surroundings of a value in the block `const a: 0 == 0 = ...; return a;`. -/
def reflexivity : Surroundings where
  before := []
  name := written "a"
  type := .binary .equal (.numeral "0" none) (.numeral "0" none) none
  place := none
  after := [.leave .ret none (.name (written "a")) none]
  blockPlace := none

/-- The program `return (x: N) => ...;` with that block. -/
def insideFunction (v : Expr) : Block :=
  ⟨[.leave .ret none (.lambda (written "x") (some (.name (written "N"))) none
    (.block (reflexivity.block v)) none) none], none⟩

/-- A value that is unknown and one that is a proof. -/
theorem reflexivity_hidden : ∃ e e',
    elaborateProgram {} Axiom.scope (insideFunction (.name (written "b"))) = .ok e ∧
    elaborateProgram {} Axiom.scope (insideFunction
      (.call (.name (written "eqRefl")) (.numeral "0" none) none)) = .ok e' ∧
    e.hasErrors = true ∧ e'.hasErrors = false ∧ e.typed.type = e'.typed.type ∧
    Parallel (reflexivity.Twins {} (.name (written "b"))
      (.call (.name (written "eqRefl")) (.numeral "0" none) none)) e.records e'.records := by
  have first : comesTo {} Axiom.scope (insideFunction (.name (written "b"))) (·.hasErrors) = true := by
    rw [Axiom.scope_eq]
    decide +kernel
  have second : comesTo {} Axiom.scope (insideFunction
      (.call (.name (written "eqRefl")) (.numeral "0" none) none)) (fun e => !e.hasErrors) = true := by
    rw [Axiom.scope_eq]
    decide +kernel
  obtain ⟨e, ran, first⟩ := exists_of_comesTo first
  obtain ⟨e', ran', second⟩ := exists_of_comesTo second
  refine ⟨e, e', ran, ran', first, by simpa using second, ?_⟩
  have differ : Exchanged (fun b b' => b = reflexivity.block (.name (written "b")) ∧
      b' = reflexivity.block (.call (.name (written "eqRefl")) (.numeral "0" none) none))
      (.block _) (.block _) := .exchange ⟨rfl, rfl⟩
  exact (annotated_definition_hides_value reflexivity _ _ (.block none (.statement (.leave .ret none none
    (.lambda (written "x") (some (.name (written "N"))) none none (.blockTerm differ))) (.same _)))
    ran ran').2

end Peano.Judgement
