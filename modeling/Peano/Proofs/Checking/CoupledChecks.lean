import Peano.Proofs.Checking.CoupledRules
import Peano.Proofs.Checking.Steps
namespace Peano.Judgement
open List
open Syntax (Name Expr Block Switch Case Statement TypeExpr TypeParam Rename Place Jump ArithOp
  caseLeaves statementLeaves exprLeaves)
open Record (Repair)
open Coupling (Outcome name_place name_text)

section Leaves

/-- The repairs that statements may need. -/
def repairsOf (leaves : List (Place × Jump)) : Multiset Repair :=
  (leaves.map fun l => ((l.1, .jump l.2, some l.2.text) : Repair) : List Repair)

theorem repairsOf_append (a b : List (Place × Jump)) : repairsOf (a ++ b) = repairsOf a + repairsOf b := by
  simp [repairsOf]

theorem caseLeaves_sum (ending : Jump) (cs : List Case) : repairsOf (caseLeaves ending cs) =
      (cs.map fun c => repairsOf (c.body.leaves ending)).sum := by
  rw [Syntax.caseLeaves_eq]
  induction cs with
  | nil => rfl
  | cons c cs ih =>
    rw [flatMap_cons, repairsOf_append, ih, map_cons, sum_cons]

end Leaves

variable (C : Coupling) (cfg : Settings)

structure Coupling.Terms (e e' : Expr) : Prop where
  place : e'.place = C.place e.place
  isSucc : isSucc e' = isSucc e
  check : ∀ scope require, C.Rel false (repairsOf e.leaves) C.Same (check cfg scope e require)
    (check cfg scope e' require)

/-- Whether a call or a pair looks into a term. -/
def isOpen : Expr → Bool
  | .name _ | .member .. | .call .. | .ascribe .. => true
  | _ => false

/-- What a call or a pair sees of terms. -/
inductive Coupling.Heads : Expr → Expr → Prop
  | name (x : Name) : Heads (.name x) (.name (C.name x))
  | member {x x' : Expr} (field : Name) (p p' : Place) (subject : C.Terms cfg x x') :
    Heads (.member x field p) (.member x' (C.name field) p')
  | call {f f' a a' : Expr} (p p' : Place) (fn : Heads f f') (arg : C.Terms cfg a a') :
    Heads (.call f a p) (.call f' a' p')
  | ascribe {x x' : Expr} (t : TypeExpr) (p p' : Place) (subject : C.Terms cfg x x') :
    Heads (.ascribe x t p) (.ascribe x' (C.type t) p')
  | other {e e' : Expr} (closed : isOpen e = false) (closed' : isOpen e' = false) : Heads e e'

/-- The same for terms inside others. -/
structure Coupling.Linked (e e' : Expr) : Prop extends C.Terms cfg e e' where
  heads : C.Heads cfg e e'

structure Coupling.Blocks (ending : Jump) (b b' : Block) : Prop where
  place : b'.place = C.place b.place
  check : ∀ scope isProgram require, C.Rel isProgram (repairsOf (b.leaves ending)) C.Same
    (checkBlock cfg scope isProgram ending b require) (checkBlock cfg scope isProgram ending b' require)

structure Coupling.Switches (ending : Jump) (s s' : Switch) : Prop where
  place : s'.place = C.place s.place
  check : ∀ scope require, C.Checks (repairsOf (s.leaves ending)) C.Same
    (inferSwitch cfg scope ending s require) (inferSwitch cfg scope ending s' require)

structure Coupling.Cases (ending : Jump) (c c' : Case) : Prop where
  tag : c'.tag.text = c.tag.text
  binding : c'.binding = C.name c.binding
  body : C.Blocks cfg ending c.body c'.body

/-- Statements lead on to the same, or end their blocks with the same. -/
def Coupling.Leads : Progressed ⊕ Typed → Progressed ⊕ Typed → Prop
  | .inl p, .inl p' => C.Alike p p'
  | .inr t, .inr t' => C.Same t t'
  | _, _ => False

/-- What follows two blocks that have come to the same. -/
def Coupling.Follows {α : Type} (L : Multiset Repair) (R : α → α → Prop)
    (x y : Bool → Place → Option Formula → Progressed → Noting α) : Prop :=
  ∀ isProgram block require before before', C.Alike before before' →
    C.Rel isProgram L R (x isProgram block require before) (y isProgram (C.place block) require before')

def Coupling.Steps (ending : Jump) (s s' : Statement) : Prop :=
  C.Follows (repairsOf (s.leaves ending)) C.Leads
    (fun isProgram block require before => step cfg isProgram block ending require before s)
    (fun isProgram block require before => step cfg isProgram block ending require before s')

def Coupling.Walks (ending : Jump) (ss ss' : List Statement) : Prop :=
  C.Follows (repairsOf (statementLeaves ending ss)) (Outcome C.Same)
    (fun isProgram block require before => inferStatements cfg isProgram block ending require before ss)
    (fun isProgram block require before => inferStatements cfg isProgram block ending require before ss')

def Coupling.Logs (es es' : List Expr) : Prop :=
  ∀ isProgram before before', C.Alike before before' → C.Rel false (repairsOf (exprLeaves es)) Eq
    (logArguments cfg isProgram before es) (logArguments cfg isProgram before' es')

variable {C cfg} {f f' a a' : Expr} {p : Place}

section Terms

variable {l l' r r' x x' : Expr}

attribute [local simp] check

theorem name_linked (x : Name) : C.Linked cfg (.name x) (.name (C.name x)) := by
  refine ⟨⟨name_place x, congrArg (· == "succ") (name_text x), fun scope require => ?_⟩, .name x⟩
  rw [check, check, name_place]
  exact judge_couples (nameRule_couples x)

theorem numeral_linked (digits : String) (p : Place) :
    C.Linked cfg (.numeral digits p) (.numeral digits (C.place p)) := by
  refine ⟨⟨rfl, rfl, fun scope require => ?_⟩, .other rfl rfl⟩
  exact judge_couples (.pure ⟨rfl, fun _ => rfl⟩)

theorem generic_linked (x : Name) (t : TypeExpr) (p : Place) :
    C.Linked cfg (.generic x t p) (.generic (C.name x) (C.type t) (C.place p)) := by
  refine ⟨⟨rfl, rfl, fun scope require => ?_⟩, .other rfl rfl⟩
  rw [check, check, name_text]
  exact judge_couples (genericRule_couples _ t)

theorem arith_linked (op : ArithOp) (hl : C.Terms cfg l l') (hr : C.Terms cfg r r') :
    C.Linked cfg (.arith op l r p) (.arith op l' r' (C.place p)) := by
  refine ⟨⟨rfl, rfl, fun scope require => ?_⟩, .other rfl rfl⟩
  rw [Expr.leaves, repairsOf_append]
  exact judge_couples (arithRule_couples op (hl.check scope none) (hr.check scope none))

theorem pair_linked (hl : C.Terms cfg l l') (hr : C.Terms cfg r r') :
    C.Linked cfg (.pair l r p) (.pair l' r' (C.place p)) := by
  refine ⟨⟨rfl, rfl, fun scope require => ?_⟩, .other rfl rfl⟩
  rw [Expr.leaves, repairsOf_append]
  exact judge_couples (pairRule_couples (hl.check scope) (hr.check scope))

theorem lambda_linked {b b' : Expr} (x : Name) (d r : Option TypeExpr) (hb : C.Terms cfg b b') :
    C.Linked cfg (.lambda x d r b p) (.lambda (C.name x) (C.type? d) (C.type? r) b' (C.place p)) := by
  refine ⟨⟨rfl, rfl, fun scope require => ?_⟩, .other rfl rfl⟩
  rw [check, check, hb.place]
  exact judge_couples (lambdaRule_couples hb.check)

theorem ascribe_linked (t : TypeExpr) (hx : C.Terms cfg x x') :
    C.Linked cfg (.ascribe x t p) (.ascribe x' (C.type t) (C.place p)) := by
  refine ⟨⟨rfl, rfl, fun scope require => ?_⟩, .ascribe t _ _ hx⟩
  exact judge_couples (ascriptionRule_couples (hx.check scope))

theorem member_linked (field : Name) (hx : C.Terms cfg x x') :
    C.Linked cfg (.member x field p) (.member x' (C.name field) (C.place p)) := by
  refine ⟨⟨rfl, rfl, fun scope require => ?_⟩, .member field _ _ hx⟩
  rw [check, check, name_text]
  exact judge_couples (memberRule_couples (hx.check scope none))

theorem emptyCall_linked (hf : C.Heads cfg f f') :
    C.Linked cfg (.emptyCall f p) (.emptyCall f' (C.place p)) := by
  refine ⟨⟨rfl, rfl, fun scope require => ?_⟩, .other rfl rfl⟩
  have failing {e e' : Expr} (closed : ∀ x, e ≠ .name x) (closed' : ∀ x, e' ≠ .name x)
      (alone : ∀ x field q, e ≠ .member x field q) (alone' : ∀ x field q, e' ≠ .member x field q) :
      C.Rel false (repairsOf (Expr.emptyCall e p).leaves) C.Same (check cfg scope (.emptyCall e p) require)
        (check cfg scope (.emptyCall e' (C.place p)) require) := by
    rw [check, check]
    · exact judge_couples (.throw rfl)
    all_goals assumption
  cases hf with
  | member field q q' hx =>
    rw [check, check, name_text]
    refine judge_couples ?_
    split
    · exact symmRule_couples (hx.check scope)
    · split
      · exact transRule_couples_none (hx.check scope none)
      · split
        · exact .throw rfl
        · exact .throw rfl
  | name x =>
    rw [check, check, name_text]
    refine judge_couples ?_
    split
    · exact .pure ⟨rfl, fun _ => rfl⟩
    · exact .throw rfl
  | call | ascribe => exact failing (by simp) (by simp) (by simp) (by simp)
  | other closed closed' =>
    refine failing ?_ ?_ ?_ ?_
    all_goals
      rintro _
      first
      | rintro rfl
        first | cases closed | cases closed'
      | rintro _ _ rfl
        first | cases closed | cases closed'

theorem isBuiltin_closed (h : isOpen f = false) : isBuiltin f = false := by
  cases f with
  | name | member | call | ascribe => cases h
  | _ => rfl

theorem isBuiltin_heads (h : C.Heads cfg f f') : isBuiltin f' = isBuiltin f := by
  have closed_call {e a : Expr} {q : Place} (h : isOpen e = false) : isBuiltin (.call e a q) = false := by
    cases e with
    | name => cases h
    | _ => rfl
  cases h with
  | name | member => simp only [isBuiltin, name_text]
  | call p p' fn =>
    cases fn with
    | name x => simp only [isBuiltin, name_text]
    | other closed closed' => rw [closed_call closed, closed_call closed']
    | _ => rfl
  | ascribe => rfl
  | other closed closed' => rw [isBuiltin_closed closed, isBuiltin_closed closed']

theorem check_call_plain {scope : Scope} {require : Option Formula} (plain : isBuiltin f = false) :
    check cfg scope (.call f a p) require = judge cfg p false require
      (applicationRule (check cfg scope f none) (check cfg scope a)) := by
  rw [check.eq_def]
  cases f with
  | member x field q | name x =>
    simp [isBuiltin] at plain
    simp [plain]
  | call g b q =>
    cases g with
    | name x =>
      simp [isBuiltin] at plain
      simp [plain]
    | _ => rfl
  | _ => rfl

theorem call_linked (hf : C.Linked cfg f f') (ha : C.Terms cfg a a') :
    C.Linked cfg (.call f a p) (.call f' a' (C.place p)) := by
  refine ⟨⟨rfl, rfl, fun scope require => ?_⟩, .call _ _ hf.heads ha⟩
  have argument := ha.check scope
  have builtin := isBuiltin_heads hf.heads
  rw [Expr.leaves, repairsOf_append]
  by_cases plain : isBuiltin f = false
  · rw [check_call_plain plain, check_call_plain (builtin.trans plain)]
    exact judge_couples (applicationRule_couples (hf.check scope none) argument)
  cases hf.heads with
  | member field q q' hx =>
    rw [check, check, name_text]
    refine judge_couples ?_
    split
    · exact .throw rfl
    · split
      · exact transRule_couples (hx.check scope none) argument
      · split
        · rw [ha.isSucc, add_comm]
          exact mapRule_couples (isSucc a) (argument none) (hx.check scope none)
        · simp_all [isBuiltin]
  | name x =>
    simp only [check, name_text]
    refine judge_couples ?_
    split
    · exact succRule_couples (argument _)
    · exact injectionRule_couples _ argument
    · exact injectionRule_couples _ argument
    · exact ringRule_couples (argument _)
    · exact neverElimRule_couples argument
    · simp_all [isBuiltin]
  | call q q' fn hb =>
    cases fn with
    | name x =>
      simp only [check, name_text]
      refine judge_couples ?_
      split
      · rw [hb.isSucc]
        exact mapRule_couples (isSucc _) (hb.check scope none) (argument none)
      · split
        · exact replaceAllRule_couples (hb.check scope none) (argument none)
        · simp_all [isBuiltin]
    | other closed =>
      refine (plain ?_).elim
      unfold isBuiltin
      split <;> simp_all [isOpen]
    | _ => exact (plain rfl).elim
  | ascribe => exact (plain rfl).elim
  | other closed => exact (plain (isBuiltin_closed closed)).elim

theorem record_linked {v v' w w' : Expr} (x y : Name) (hv : C.Terms cfg v v') (hw : C.Linked cfg w w') :
    C.Linked cfg (.record x v y w p) (.record (C.name x) v' (C.name y) w' (C.place p)) := by
  refine ⟨⟨rfl, rfl, fun scope require => ?_⟩, .other rfl rfl⟩
  have value := hv.check scope
  have proof := hw.check scope
  have whole (alone : ∀ e t q, w ≠ .ascribe e t q) (alone' : ∀ e t q, w' ≠ .ascribe e t q) :
      C.Rel false (repairsOf (Expr.record x v y w p).leaves) C.Same
        (check cfg scope (.record x v y w p) require)
        (check cfg scope (.record (C.name x) v' (C.name y) w' (C.place p)) require) := by
    rw [check, check, name_text, name_text, Expr.leaves, repairsOf_append]
    · have rule : C.Checks _ C.Same (witnessRule scope require x.text y.text none _ _) _ :=
        witnessRule_couples none value proof
      rw [type?_none] at rule
      exact judge_couples rule
    all_goals assumption
  cases hw.heads with
  | ascribe t q q' hx =>
    rw [check, check, name_text, name_text, Expr.leaves, repairsOf_append]
    have rule : C.Checks _ C.Same (witnessRule scope require x.text y.text (some t) _ _) _ :=
      witnessRule_couples (some t) value (hx.check scope)
    rw [type?_some] at rule
    exact judge_couples rule
  | other closed closed' =>
    refine whole ?_ ?_
    · rintro _ _ _ rfl
      cases closed
    · rintro _ _ _ rfl
      cases closed'
  | _ => exact whole (by simp) (by simp)

theorem loop_linked {iv iv' qv qv' bound bound' : Expr} {body body' : Block} (i q compared stepped : Name)
    (it qt : Option TypeExpr) (ip qp cp sp : Place) (hstart : C.Terms cfg iv iv') (hbase : C.Terms cfg qv qv')
    (hbound : C.Terms cfg bound bound') (hbody : C.Blocks cfg .next body body') :
    C.Linked cfg (.loop ⟨⟨i, it, iv, ip⟩, ⟨q, qt, qv, qp⟩, compared, bound, cp, stepped, sp, body, p⟩)
      (.loop ⟨⟨C.name i, C.type? it, iv', C.place ip⟩, ⟨C.name q, C.type? qt, qv', C.place qp⟩,
        C.name compared, bound', C.place cp, C.name stepped, C.place sp, body', C.place p⟩) := by
  refine ⟨⟨rfl, rfl, fun scope require => ?_⟩, .other rfl rfl⟩
  rw [check, check, hbody.place, Expr.leaves, Syntax.Loop.leaves, repairsOf_append, repairsOf_append, repairsOf_append]
  exact judge_couples (loopRule_couples ⟨i, q, compared, stepped, body.place⟩ (hstart.check scope)
    (hbase.check scope) (hbound.check scope) fun inner required => hbody.check inner false required)

theorem switchTerm_linked {s s' : Switch} (hs : C.Switches cfg .stop s s') :
    C.Linked cfg (.switch s) (.switch s') := by
  refine ⟨⟨hs.place, rfl, fun scope require => ?_⟩, .other rfl rfl⟩
  rw [check, check, hs.place]
  exact judge_couples (hs.check scope require)

theorem blockTerm_linked {b b' : Block} (hb : C.Blocks cfg .ret b b') : C.Linked cfg (.block b) (.block b') := by
  refine ⟨⟨hb.place, rfl, fun scope require => ?_⟩, .other rfl rfl⟩
  exact hb.check scope false require

end Terms

section Statements

variable {ending : Jump}
variable {ss ss' : List Statement} {e e' v v' : Expr} {isProgram : Bool} {after after' : Progressed}

attribute [local simp] step

theorem block_coupled (h : C.Walks cfg ending ss ss') : C.Blocks cfg ending ⟨ss, p⟩ ⟨ss', C.place p⟩ := by
  refine ⟨rfl, fun scope isProgram require => ?_⟩
  refine recover_couples ?_
  exact (C.notes (.required _ _ _)).after fun _ => h isProgram p require _ _ ⟨rfl, rfl, fun _ => rfl⟩

theorem switch_coupled {cs cs' : List Case} (hx : C.Terms cfg e e')
    (hcases : List.Forall₂ (C.Cases cfg ending) cs cs') :
    C.Switches cfg ending ⟨e, cs, p⟩ ⟨e', cs', C.place p⟩ := by
  refine ⟨rfl, fun scope require => ?_⟩
  obtain ⟨pairs, both, rfl, rfl⟩ : ∃ pairs : List (Case × Case),
      (∀ c ∈ pairs, C.Cases cfg ending c.1 c.2) ∧ pairs.map Prod.fst = cs ∧ pairs.map Prod.snd = cs' := by
    obtain ⟨count, zipped⟩ := List.forall₂_iff_zip.1 hcases
    exact ⟨cs.zip cs', fun _ => zipped, map_fst_zip count.le, map_snd_zip count.ge⟩
  rw [inferSwitch, inferSwitch, arms_eq_map, arms_eq_map, Switch.leaves, repairsOf_append, caseLeaves_sum,
    map_map, map_map, map_map]
  refine switchRule_couples (hx.check scope none) fun c hc => ?_
  have arm := both c hc
  exact ⟨arm.tag, arm.binding, arm.body.place, fun inner require => arm.body.check inner false require⟩

theorem goOn_couples (alike : C.Alike after after') :
    C.Rel isProgram 0 C.Leads (goOn cfg isProgram after) (goOn cfg isProgram after') := by
  unfold goOn
  rw [alike.scope]
  cases isProgram with
  | true => exact (exerciseRule_couples _ _).after fun _ => .pure alike
  | false => exact .pure alike

theorem reported_couples {failed : Option Error} (blames : Blames failed) (alike : C.Alike after after') :
    C.Rel isProgram 0 C.Leads (do reportAt p failed; goOn cfg isProgram after)
      (do reportAt (C.place p) failed; goOn cfg isProgram after') :=
  (reportAt_couples p blames).after fun _ => goOn_couples alike

theorem visibleAfter_seen (p block : Place) :
    visibleAfter (C.place p) (C.place block) = C.place (visibleAfter p block) := by
  unfold Coupling.place seen
  cases C.blurs <;> rfl

theorem leads_after {t t' : Typed} {before before' : Progressed} (alike : C.Alike before before')
    (same : C.Same t t') : C.Rel isProgram 0 C.Leads (pure (.inr ⟨t.type, t.realizer.after before.bindings⟩))
      (pure (.inr ⟨t'.type, t'.realizer.after before'.bindings⟩)) := by
  have done : C.Same ⟨t.type, t.realizer.after before.bindings⟩ ⟨t'.type, t'.realizer.after before'.bindings⟩ :=
    ⟨same.1, fun exact => by rw [same.2 exact, alike.bindings.2 exact]⟩
  exact .pure done

theorem empty_steps (p p' : Place) : C.Steps cfg ending (.empty p) (.empty p') :=
  fun _ _ _ _ _ alike => .pure alike

theorem define_steps (x : Name) (t : Option TypeExpr)
    (hv : ∀ scope (require : Option Formula), require.isSome = t.isSome →
      C.Rel false (repairsOf v.leaves) C.Same (check cfg scope v require) (check cfg scope v' require)) :
    C.Steps cfg ending (.define ⟨x, t, v, p⟩) (.define ⟨C.name x, C.type? t, v', C.place p⟩) := by
  intro isProgram block require before before' alike
  dsimp only
  rw [step, step, ← alike.scope]
  dsimp only [Statement.place]
  rw [visibleAfter_seen]
  refine (defineRule_couples alike (hv before.scope)).before ?_
  rintro ⟨after, failed⟩ ⟨after', _⟩ ⟨alike', rfl, blames⟩
  exact reported_couples blames alike'

theorem destructure_steps (x y : Rename) (hv : C.Terms cfg v v') : C.Steps cfg ending (.destructure x y v p)
      (.destructure (seen C.blurs Rename.bare x) (seen C.blurs Rename.bare y) v' (C.place p)) := by
  intro isProgram block require before before' alike
  dsimp only
  rw [step, step, ← alike.scope]
  dsimp only [Statement.place]
  rw [visibleAfter_seen]
  refine (destructureRule_couples alike (hv.check before.scope none)).before ?_
  rintro ⟨after, failed⟩ ⟨after', _⟩ ⟨alike', rfl, blames⟩
  exact reported_couples blames alike'

theorem leave_steps {jump jump' : Jump} {q : Place} (turns : C.Turns q ending jump jump')
    (hv : C.Terms cfg v v') :
    C.Steps cfg ending (.leave jump q v p) (.leave jump' (C.place q) v' (C.place p)) := by
  intro isProgram block require before before' alike
  dsimp only
  rw [step, step, ← alike.scope]
  exact C.leaves turns ((C.louder (hv.check before.scope require)).before
    fun _ _ same => leads_after alike same)

theorem switch_steps {s s' : Switch} (hs : C.Switches cfg ending s s') :
    C.Steps cfg ending (.switch s) (.switch s') := by
  intro isProgram block require before before' alike
  dsimp only
  rw [step, step, ← alike.scope, hs.place]
  refine (C.louder (hs.check before.scope require)).before ?_
  rintro (e | t) (e' | t') same
  · obtain ⟨rfl, fair⟩ := same
    exact (Coupling.Rel.report s.place fair).after fun _ => goOn_couples alike
  · exact same.elim
  · exact same.elim
  · exact leads_after alike same

theorem typedef_steps (x : Name) (t : TypeExpr) (p : Place) :
    C.Steps cfg ending (.typedef x t p) (.typedef (C.name x) (C.type t) (C.place p)) := by
  intro isProgram block require before before' alike
  dsimp only
  rw [step, step, ← alike.scope, name_text]
  exact (resolveType_couples _ t).after fun _ => goOn_couples ⟨rfl, alike.bindings⟩

theorem generic_steps (x : Name) (ps : List TypeParam) (t : TypeExpr) (p : Place) :
    C.Steps cfg ending (.generic x ps t p)
      (.generic (C.name x) (seen C.blurs (List.map TypeParam.bare) ps) (C.type t) (C.place p)) := by
  intro isProgram block require before before' alike
  dsimp only
  rw [step, step, ← alike.scope]
  refine (C.louder (genericRuleFor_couples _ x ps t)).before ?_
  rintro ⟨scope, failed⟩ _ ⟨rfl, blames⟩
  exact reported_couples blames ⟨rfl, alike.bindings⟩

theorem log_steps {es es' : List Expr} (h : C.Logs cfg es es') (p p' : Place) :
    C.Steps cfg ending (.log es p) (.log es' p') := by
  intro isProgram block require before before' alike
  exact (C.louder (h isProgram before before' alike)).before fun _ _ _ => goOn_couples alike

theorem walks_nil : C.Walks cfg ending [] [] := by
  intro isProgram block require before before' alike
  cases isProgram with
  | true => exact .pure ⟨rfl, fun _ => rfl⟩
  | false => exact .pure ⟨rfl, rfl⟩

theorem walks_cons {s s' : Statement} (hs : C.Steps cfg ending s s') (ih : C.Walks cfg ending ss ss') :
    C.Walks cfg ending (s :: ss) (s' :: ss') := by
  intro isProgram block require before before' alike
  dsimp only
  rw [inferStatements_cons, inferStatements_cons, statementLeaves, repairsOf_append]
  refine (hs isProgram block require before before' alike).bind ?_
  rintro (after | t) (after' | t') same
  · exact ih isProgram block require after after' same
  · exact same.elim
  · exact same.elim
  · exact .pure same

theorem logs_nil : C.Logs cfg [] [] := by
  intro isProgram before before' alike
  exact .pure rfl

theorem logs_cons {es es' : List Expr} (he : C.Terms cfg e e') (ih : C.Logs cfg es es') :
    C.Logs cfg (e :: es) (e' :: es') := by
  intro isProgram before before' alike
  rw [logArguments, logArguments, ← alike.scope, he.place, exprLeaves, repairsOf_append]
  have rest := ih isProgram before before' alike
  cases isProgram with
  | true =>
    refine (he.check before.scope none).bind ?_
    rintro ⟨t, r⟩ ⟨_, r'⟩ ⟨rfl, like⟩
    rw [← alike.bindings.1]
    exact (C.notes (.pending _ _ _ like)).after fun _ => rest
  | false =>
    rw [add_comm]
    exact C.more ((C.notes (.misplaced _)).after fun _ => rest)

end Statements

end Peano.Judgement
