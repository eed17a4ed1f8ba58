import Peano.Proofs.Checking.Agreement
import Peano.Proofs.Checking.CoupledChecks
namespace Peano.Judgement
open Syntax (Name Expr Block Switch Case Statement TypeExpr TypeParam Rename Place Jump ArithOp)

inductive Part where
  | term (e : Expr)
  | block (b : Block)
  | switch (s : Switch)
  | cases (cs : List Case)
  | statement (s : Statement)
  | statements (ss : List Statement)
  | terms (es : List Expr)

/-- Two trees that differ only in blocks that may be exchanged. -/
inductive Exchanged (May : Block → Block → Prop) : Part → Part → Prop
  | same (part : Part) : Exchanged May part part
  | arith {l l' r r' : Expr} (op : ArithOp) (p : Place) (left : Exchanged May (.term l) (.term l'))
    (right : Exchanged May (.term r) (.term r')) :
    Exchanged May (.term (.arith op l r p)) (.term (.arith op l' r' p))
  | lambda {b b' : Expr} (x : Name) (d r : Option TypeExpr) (p : Place)
    (body : Exchanged May (.term b) (.term b')) :
    Exchanged May (.term (.lambda x d r b p)) (.term (.lambda x d r b' p))
  | call {f f' a a' : Expr} (p : Place) (fn : Exchanged May (.term f) (.term f'))
    (arg : Exchanged May (.term a) (.term a')) :
    Exchanged May (.term (.call f a p)) (.term (.call f' a' p))
  | emptyCall {f f' : Expr} (p : Place) (fn : Exchanged May (.term f) (.term f')) :
    Exchanged May (.term (.emptyCall f p)) (.term (.emptyCall f' p))
  | pair {l l' r r' : Expr} (p : Place) (left : Exchanged May (.term l) (.term l'))
    (right : Exchanged May (.term r) (.term r')) :
    Exchanged May (.term (.pair l r p)) (.term (.pair l' r' p))
  | record {v v' w w' : Expr} (x y : Name) (p : Place) (value : Exchanged May (.term v) (.term v'))
    (proof : Exchanged May (.term w) (.term w')) :
    Exchanged May (.term (.record x v y w p)) (.term (.record x v' y w' p))
  | ascribe {e e' : Expr} (t : TypeExpr) (p : Place) (subject : Exchanged May (.term e) (.term e')) :
    Exchanged May (.term (.ascribe e t p)) (.term (.ascribe e' t p))
  | member {e e' : Expr} (field : Name) (p : Place) (subject : Exchanged May (.term e) (.term e')) :
    Exchanged May (.term (.member e field p)) (.term (.member e' field p))
  | loop {iv iv' qv qv' bound bound' : Expr} {body body' : Block} (i q : Name) (it qt : Option TypeExpr)
    (ip qp cp sp p : Place) (compared stepped : Name) (start : Exchanged May (.term iv) (.term iv'))
    (base : Exchanged May (.term qv) (.term qv')) (bounds : Exchanged May (.term bound) (.term bound'))
    (next : Exchanged May (.block body) (.block body')) :
    Exchanged May (.term (.loop ⟨⟨i, it, iv, ip⟩, ⟨q, qt, qv, qp⟩, compared, bound, cp, stepped, sp, body, p⟩))
      (.term (.loop ⟨⟨i, it, iv', ip⟩, ⟨q, qt, qv', qp⟩, compared, bound', cp, stepped, sp, body', p⟩))
  | switchTerm {s s' : Switch} (switch : Exchanged May (.switch s) (.switch s')) :
    Exchanged May (.term (.switch s)) (.term (.switch s'))
  | blockTerm {b b' : Block} (block : Exchanged May (.block b) (.block b')) :
    Exchanged May (.term (.block b)) (.term (.block b'))
  | exchange {b b' : Block} (may : May b b') : Exchanged May (.block b) (.block b')
  | block {ss ss' : List Statement} (p : Place) (inside : Exchanged May (.statements ss) (.statements ss')) :
    Exchanged May (.block ⟨ss, p⟩) (.block ⟨ss', p⟩)
  | switch {e e' : Expr} {cs cs' : List Case} (p : Place) (subject : Exchanged May (.term e) (.term e'))
    (cases : Exchanged May (.cases cs) (.cases cs')) : Exchanged May (.switch ⟨e, cs, p⟩) (.switch ⟨e', cs', p⟩)
  | arm {b b' : Block} {cs cs' : List Case} (tag x : Name) (gp p : Place)
    (body : Exchanged May (.block b) (.block b')) (rest : Exchanged May (.cases cs) (.cases cs')) :
    Exchanged May (.cases (⟨tag, x, gp, b, p⟩ :: cs)) (.cases (⟨tag, x, gp, b', p⟩ :: cs'))
  | define {v v' : Expr} (x : Name) (t : Option TypeExpr) (p : Place)
    (value : Exchanged May (.term v) (.term v')) :
    Exchanged May (.statement (.define ⟨x, t, v, p⟩)) (.statement (.define ⟨x, t, v', p⟩))
  | destructure {v v' : Expr} (x y : Rename) (p : Place) (value : Exchanged May (.term v) (.term v')) :
    Exchanged May (.statement (.destructure x y v p)) (.statement (.destructure x y v' p))
  | leave {v v' : Expr} (j : Jump) (q p : Place) (value : Exchanged May (.term v) (.term v')) :
    Exchanged May (.statement (.leave j q v p)) (.statement (.leave j q v' p))
  | log {es es' : List Expr} (p : Place) (args : Exchanged May (.terms es) (.terms es')) :
    Exchanged May (.statement (.log es p)) (.statement (.log es' p))
  | switchStatement {s s' : Switch} (switch : Exchanged May (.switch s) (.switch s')) :
    Exchanged May (.statement (.switch s)) (.statement (.switch s'))
  | statement {s s' : Statement} {ss ss' : List Statement}
    (first : Exchanged May (.statement s) (.statement s'))
    (rest : Exchanged May (.statements ss) (.statements ss')) :
    Exchanged May (.statements (s :: ss)) (.statements (s' :: ss'))
  | term {e e' : Expr} {es es' : List Expr} (first : Exchanged May (.term e) (.term e'))
    (rest : Exchanged May (.terms es) (.terms es')) :
    Exchanged May (.terms (e :: es)) (.terms (e' :: es'))

/-- Two checks differ nowhere. -/
abbrev Nowhere (_ _ : List Record) : Prop := False

/-- What is found out about two parts is the same. -/
def Agreeing (Own : List Record → List Record → Prop) (cfg : Settings) : Part → Part → Prop
  | .term e, .term e' => (agreement Own).Linked cfg e e'
  | .block b, .block b' => ∀ ending, (agreement Own).Blocks cfg ending b b'
  | .switch s, .switch s' => ∀ ending, (agreement Own).Switches cfg ending s s'
  | .cases cs, .cases cs' => ∀ ending, List.Forall₂ ((agreement Own).Cases cfg ending) cs cs'
  | .statement s, .statement s' => ∀ ending, (agreement Own).Steps cfg ending s s'
  | .statements ss, .statements ss' => ∀ ending, (agreement Own).Walks cfg ending ss ss'
  | .terms es, .terms es' => (agreement Own).Logs cfg es es'
  | _, _ => False

section Induction

variable {Own : List Record → List Record → Prop} {cfg : Settings} {May : Block → Block → Prop}

mutual

theorem term_agrees : (e : Expr) → Agreeing Own cfg (.term e) (.term e)
  | .name x => name_linked x
  | .numeral digits p => numeral_linked digits p
  | .generic f t p => generic_linked f t p
  | .arith op l r _ => arith_linked op (term_agrees l).toTerms (term_agrees r).toTerms
  | .lambda x d r b _ => lambda_linked x d r (term_agrees b).toTerms
  | .call f a _ => call_linked (term_agrees f) (term_agrees a).toTerms
  | .emptyCall f _ => emptyCall_linked (term_agrees f).heads
  | .pair l r _ => pair_linked (term_agrees l).toTerms (term_agrees r).toTerms
  | .record x v y w _ => record_linked x y (term_agrees v).toTerms (term_agrees w)
  | .ascribe e t _ => ascribe_linked t (term_agrees e).toTerms
  | .member e field _ => member_linked field (term_agrees e).toTerms
  | .loop ⟨⟨i, it, iv, ip⟩, ⟨q, qt, qv, qp⟩, compared, bound, cp, stepped, sp, body, _⟩ =>
    loop_linked i q compared stepped it qt ip qp cp sp (term_agrees iv).toTerms (term_agrees qv).toTerms
      (term_agrees bound).toTerms (block_agrees body .next)
  | .switch s => switchTerm_linked (switch_agrees s .stop)
  | .block b => blockTerm_linked (block_agrees b .ret)

theorem block_agrees : (b : Block) → Agreeing Own cfg (.block b) (.block b)
  | ⟨ss, _⟩ => fun ending => block_coupled (statements_agree ss ending)

theorem switch_agrees : (s : Switch) → Agreeing Own cfg (.switch s) (.switch s)
  | ⟨e, cs, _⟩ => fun ending => switch_coupled (term_agrees e).toTerms (cases_agree cs ending)

theorem cases_agree : (cs : List Case) → Agreeing Own cfg (.cases cs) (.cases cs)
  | [] => fun _ => .nil
  | ⟨_, _, _, b, _⟩ :: cs => fun ending => .cons ⟨rfl, rfl, block_agrees b ending⟩ (cases_agree cs ending)

theorem statement_agrees : (s : Statement) → Agreeing Own cfg (.statement s) (.statement s)
  | .define ⟨x, t, v, _⟩ => fun _ => define_steps x t fun scope require _ => (term_agrees v).check scope require
  | .destructure x y v _ => fun _ => destructure_steps x y (term_agrees v).toTerms
  | .leave _ _ v _ => fun _ => leave_steps rfl (term_agrees v).toTerms
  | .typedef x t p => fun _ => typedef_steps x t p
  | .generic x ps t p => fun _ => generic_steps x ps t p
  | .log es p => fun _ => log_steps (terms_agree es) p p
  | .empty p => fun _ => empty_steps p p
  | .switch s => fun ending => switch_steps (switch_agrees s ending)

theorem statements_agree : (ss : List Statement) → Agreeing Own cfg (.statements ss) (.statements ss)
  | [] => fun _ => walks_nil
  | s :: ss => fun ending => walks_cons (statement_agrees s ending) (statements_agree ss ending)

theorem terms_agree : (es : List Expr) → Agreeing Own cfg (.terms es) (.terms es)
  | [] => logs_nil
  | e :: es => logs_cons (term_agrees e).toTerms (terms_agree es)

end

/-- What is found out about a part does not depend on the notes. -/
theorem agrees_itself : (part : Part) → Agreeing Own cfg part part
  | .term e => term_agrees e
  | .block b => block_agrees b
  | .switch s => switch_agrees s
  | .cases cs => cases_agree cs
  | .statement s => statement_agrees s
  | .statements ss => statements_agree ss
  | .terms es => terms_agree es

/-- What is found out about the trees around exchanged blocks is the same if that is so for the blocks. -/
theorem exchanged_agree (may : ∀ b b', May b b' → Agreeing Own cfg (.block b) (.block b')) {part part' : Part}
    (h : Exchanged May part part') : Agreeing Own cfg part part' := by
  induction h with
  | same part => exact agrees_itself part
  | arith op p _ _ hl hr => exact arith_linked op hl.toTerms hr.toTerms
  | lambda x d r p _ hb => exact lambda_linked x d r hb.toTerms
  | call p _ _ hf ha => exact call_linked hf ha.toTerms
  | emptyCall p _ hf => exact emptyCall_linked hf.heads
  | pair p _ _ hl hr => exact pair_linked hl.toTerms hr.toTerms
  | record x y p _ _ hv hw => exact record_linked x y hv.toTerms hw
  | ascribe t p _ hx => exact ascribe_linked t hx.toTerms
  | member field p _ hx => exact member_linked field hx.toTerms
  | loop i q it qt ip qp cp sp p compared stepped _ _ _ _ hstart hbase hbound hbody =>
    exact loop_linked i q compared stepped it qt ip qp cp sp hstart.toTerms hbase.toTerms hbound.toTerms
      (hbody .next)
  | switchTerm _ hs => exact switchTerm_linked (hs .stop)
  | blockTerm _ hb => exact blockTerm_linked (hb .ret)
  | exchange h => exact may _ _ h
  | block p _ ih => exact fun ending => block_coupled (ih ending)
  | switch p _ _ hx hcases => exact fun ending => switch_coupled hx.toTerms (hcases ending)
  | arm tag x gp p _ _ hb hcases => exact fun ending => .cons ⟨rfl, rfl, hb ending⟩ (hcases ending)
  | define x t p _ hv => exact fun _ => define_steps x t fun scope require _ => hv.check scope require
  | destructure x y p _ hv => exact fun _ => destructure_steps x y hv.toTerms
  | leave j q p _ hv => exact fun _ => leave_steps rfl hv.toTerms
  | log p _ ih => exact fun _ => log_steps ih p p
  | switchStatement _ hs => exact fun ending => switch_steps (hs ending)
  | statement _ _ hs ih => exact fun ending => walks_cons (hs ending) (ih ending)
  | term _ _ he ih => exact logs_cons he.toTerms ih

/-- A check only adds to the records, and leaves the definitions of the program alone. -/
theorem check_adds {scope : Scope} {e : Expr} {require : Option Formula} {n m : Notes} {t : Typed}
    (run : (check cfg scope e require).run n = .ok (t, m)) :
    (∃ s, m.records.toList = n.records.toList ++ s) ∧ m.setup = n.setup := by
  have itself : Agreeing Nowhere cfg (.term e) (.term e) := term_agrees e
  obtain ⟨-, ⟨s, -, added, -⟩, setup⟩ := itself.check scope require n n t t m m run run
  exact ⟨⟨s, added⟩, (setup rfl).1⟩

end Induction

end Peano.Judgement
