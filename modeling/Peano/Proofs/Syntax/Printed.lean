import Peano.Proofs.Syntax.Spelling
namespace Peano.Syntax
open List
open Token (Stroke Kind Spell)

/-- The same term at other places. -/
def Expr.Like (e v : Expr) : Prop := v.bare = e.bare

def Statement.Like (s v : Statement) : Prop := v.bare = s.bare

/-- The printed term is read as it is. -/
def Expr.Printed (e : Expr) : Prop := Given .application e.layout e.Like

def Statement.Printed (s : Statement) : Prop := Given .statement s.layout s.Like

def Node.Printed : Node → Prop
  | type t => t.Printed
  | term e => e.Printed
  | statement s => s.Printed

def Item.Printed : Item → Prop
  | stroke _ => True
  | node n => n.Printed

@[simp] theorem Item.printed_stroke {s : Stroke} : (stroke s).Printed := trivial

@[simp] theorem Item.printed_node {n : Node} : (node n).Printed ↔ n.Printed := Iff.rfl

@[simp] theorem Item.printed_rename {r : Rename} : r.layout.Forall Item.Printed := by
  unfold Rename.layout
  split <;> simp

section Terms

variable {ws others : List Spell} {said : Expr → Prop} {e l r : Expr} {x y : Name} {t : TypeExpr} {p : Place}

theorem Takes.product (h : Takes .application ws others said) : Takes .product ws others said :=
  takes_rule 1 rfl (.last h kept)

theorem Takes.sum (h : Takes .product ws others said) : Takes .sum ws others said :=
  takes_rule 1 rfl (.last h kept)

theorem Takes.conjunct (h : Takes .sum ws others said) : Takes .conjunct ws others said :=
  takes_rule 1 rfl (.last h kept)

theorem Takes.abstraction (h : Takes .conjunct ws others said) : Takes .abstraction ws others said :=
  takes_rule 2 rfl (.last h kept)

theorem Takes.ascription (h : Takes .abstraction ws others said) : Takes .ascription ws others said :=
  takes_rule 1 rfl (.last h kept)

theorem Takes.arith (h : Takes .ascription ws others said) : Takes .arith ws others said :=
  takes_rule 0 rfl (.last h kept)

theorem Takes.expr (h : Takes .arith ws others said) : Takes .expr ws others said :=
  takes_rule 0 rfl (.last h kept)

theorem Takes.atom (h : Takes .atom ws others said) : Takes .application ws others said :=
  takes_rule 3 rfl (.last (takes_rule 1 rfl (.last h kept)) kept)

theorem Expr.Printed.item (h : e.Printed) : Takes .application ((Node.term e).spells ++ others) others e.Like :=
  Given.item (m := .term e) h

theorem Expr.Printed.low (h : e.Printed) : Takes .abstraction ((Node.term e).spells ++ others) others e.Like :=
  h.item.product.sum.conjunct.abstraction

theorem Expr.Printed.whole (h : e.Printed) : Takes .arith ((Node.term e).spells ++ others) others e.Like :=
  h.low.ascription.arith

theorem Takes.parens (h : Takes .arith ws (Kind.rightParen.spell :: others) e.Like) :
    Takes .application (Kind.leftParen.spell :: ws) others e.Like :=
  .atom (takes_rule 2 rfl (.mark fun _ => .phrase h fun v hv => .mark fun _ =>
    .done fun place => ⟨Expr.withPlace place v, rfl, (Expr.bare_withPlace place v).trans hv⟩))

attribute [local simp] Expr.Like TypeExpr.Like Expr.bare Name.bare nameOf

theorem printed_name : (Expr.name x).Printed :=
  fun _ => .atom (takes_rule 1 rfl (.sign fun t _ name => .done fun _ => ⟨_, rfl, by simp [name]⟩))

theorem printed_numeral {digits : String} : (Expr.numeral digits p).Printed :=
  fun _ => .atom (takes_rule 0 rfl (.sign fun t _ name => .done fun _ => ⟨_, rfl, by simp [name]⟩))

theorem Expr.Printed.arith {op : ArithOp} (hl : l.Printed) (hr : r.Printed) :
    (Expr.arith op l r p).Printed := by
  intro others
  refine .parens ?_
  cases op with
  | mul =>
    refine .arith (.ascription (.abstraction (.conjunct (.sum ?_))))
    refine takes_rule 0 rfl (.phrase hl.item.product fun v hv => .mark fun _ =>
      .last hr.item fun w hw _ => ⟨_, rfl, ?_⟩)
    simp_all
  | add =>
    refine .arith (.ascription (.abstraction (.conjunct ?_)))
    refine takes_rule 0 rfl (.phrase hl.item.product.sum fun v hv => .mark fun _ =>
      .last hr.item.product fun w hw _ => ⟨_, rfl, ?_⟩)
    simp_all

theorem Expr.Printed.call (hl : l.Printed) (hr : r.Printed) : (Expr.call l r p).Printed := by
  -- A call is printed with one argument, so there is no other call around it.
  have args {others : List Spell} : Takes .args ((Node.term r).spells ++ others) others
      fun (es : Several Expr) => ∃ v, es = ⟨v, []⟩ ∧ r.Like v :=
    takes_rule 0 rfl (.last hr.whole fun v hv _ => ⟨_, rfl, v, rfl, hv⟩)
  refine fun _ => takes_rule 0 rfl (.phrase hl.item fun f hf => .mark fun _ => .phrase args ?_)
  rintro _ ⟨v, rfl, hv⟩
  refine .mark fun _ => .done fun _ => ⟨_, rfl, ?_⟩
  simp_all [calls]

theorem Expr.Printed.emptyCall (he : e.Printed) : (Expr.emptyCall e p).Printed := by
  refine fun _ => takes_rule 1 rfl (.phrase he.item fun v hv => .mark fun _ => .mark fun _ =>
    .done fun _ => ⟨_, rfl, ?_⟩)
  simp_all

theorem Expr.Printed.generic (ht : t.Printed) : (Expr.generic x t p).Printed := by
  refine fun _ => takes_rule 3 rfl (.last (takes_rule 0 rfl (.sign fun y _ name => .mark fun _ =>
    .phrase ht.whole fun v hv => .mark fun _ => .done fun _ => ⟨_, rfl, ?_⟩)) kept)
  simp_all

theorem Expr.Printed.ascribe (he : e.Printed) (ht : t.Printed) : (Expr.ascribe e t p).Printed := by
  refine fun _ => .parens (.arith (takes_rule 0 rfl (.phrase he.low.ascription fun v hv => .mark fun _ =>
    .last ht.whole fun w hw _ => ⟨_, rfl, ?_⟩)))
  simp_all

theorem Expr.Printed.member (he : e.Printed) : (Expr.member e x p).Printed := by
  refine fun _ => takes_rule 2 rfl (.phrase he.item fun v hv => .mark fun _ => .sign fun y _ name =>
    .done fun _ => ⟨_, rfl, ?_⟩)
  simp_all

/-- Two fields, whatever they are to be. -/
theorem takes_record {a b : String} (hl : l.Printed) (hr : r.Printed)
    (h : ∀ (x y : Token) (v w : Expr) (place : Place), x.name = a → y.name = b → l.Like v → r.Like w →
      said (recordOf x v y w place)) :
    Takes .application (Kind.leftBrace.spell :: (.ident, a) :: Kind.colon.spell :: ((Node.term l).spells ++
      Kind.comma.spell :: (.ident, b) :: Kind.colon.spell :: ((Node.term r).spells ++
        Kind.rightBrace.spell :: others))) others said :=
  .atom (takes_rule 3 rfl (.last (takes_rule 0 rfl (.mark fun _ => .sign fun x _ first => .mark fun _ =>
    .phrase hl.whole fun v hv => .mark fun _ => .sign fun y _ second => .mark fun _ => .phrase hr.whole
      fun w hw => .mark fun _ => .done fun place => ⟨_, rfl, h x y v w place first second hv hw⟩)) kept))

theorem Expr.Printed.pair (hl : l.Printed) (hr : r.Printed) : (Expr.pair l r p).Printed := by
  refine fun _ => takes_record hl hr fun x y v w place first second hv hw => ?_
  simp_all [recordOf]

theorem Expr.Printed.record (hl : l.Printed) (hr : r.Printed)
    (regular : (Node.term (.record x l y r p)).Regular) : (Expr.record x l y r p).Printed := by
  refine fun _ => takes_record hl hr fun a b v w place first second hv hw => ?_
  -- The names are not those of a pair, in either order.
  rw [recordOf, if_neg (by simpa [first, second] using regular.1),
    if_neg (by simpa [first, second] using regular.2)]
  simp_all

end Terms

section Bodies

variable {x : Name} {e : Expr} {p : Place} {domain result : Option TypeExpr}

attribute [local simp] Node.Printed forall_append forall_flatMap Expr.Like TypeExpr.Like Expr.bare Name.bare nameOf

/-- All trees that stand on the page here are read as they are. -/
abbrev AllPrinted : List Item → Prop := List.Forall Item.Printed

theorem allPrinted_iff {x : List Item} : AllPrinted x ↔ ∀ m, .node m ∈ x → m.Printed := by
  refine forall_iff_forall_mem.trans ⟨fun h m hm => h _ hm, fun h i hi => ?_⟩
  cases i with
  | stroke s => exact trivial
  | node m => exact h m hi

def annotationLike (t u : Option TypeExpr) : Prop := u.map TypeExpr.bare = t.map TypeExpr.bare

theorem given_annotated {t : Option TypeExpr} (parts : AllPrinted (annotationLayout t)) :
    Given .assertion? (annotationLayout t) (annotationLike t) := by
  intro others
  cases t with
  | none => exact takes_rule 0 rfl (.done fun _ => ⟨none, rfl, rfl⟩)
  | some t =>
    have printed : t.Printed := by simpa [annotationLayout] using parts
    exact takes_rule 1 rfl (.last printed.whole.assertion fun v hv _ => ⟨_, rfl, congrArg some hv⟩)

theorem Expr.Like.apply {h : Head} {v : Expr} (name : h.first.name.bare = x.bare)
    (hd : annotationLike domain h.first.type) (one : h.others = []) (hr : annotationLike result h.result)
    (hv : e.Like v) : (Expr.lambda x domain result e p).Like (h.apply v) := by
  simp_all [Head.apply, curry, annotationLike]

theorem Expr.printed_lambda (domains : AllPrinted (annotationLayout domain))
    (results : AllPrinted (annotationLayout result)) (body : Given .lambdaBody e.bodyLayout e.Like) :
    (Expr.lambda x domain result e p).Printed := by
  have param : Given .param (x.item :: annotationLayout domain) fun (q : Param) =>
      q.name.bare = x.bare ∧ annotationLike domain q.type :=
    fun _ => takes_rule 0 rfl (.sign fun y _ name => .last (given_annotated domains _) fun v hv _ =>
      ⟨_, rfl, by simp [name], hv⟩)
  have params : Given .params (x.item :: annotationLayout domain) fun (ps : Several Param) =>
      ps.first.name.bare = x.bare ∧ annotationLike domain ps.first.type ∧ ps.others = [] :=
    fun _ => takes_rule 0 rfl (.last (param _) fun q hq _ => ⟨_, rfl, hq.1, hq.2, rfl⟩)
  have head : Given .head ([sign .leftParen] ++ (x.item :: annotationLayout domain) ++ [sign .rightParen] ++
      annotationLayout result) fun (h : Head) => h.first.name.bare = x.bare ∧
        annotationLike domain h.first.type ∧ h.others = [] ∧ annotationLike result h.result := by
    intro others
    simp only [spellsThen_append]
    exact takes_rule 0 rfl (.mark fun _ => .phrase (params _) fun ps hps => .mark fun _ =>
      .last (given_annotated results _) fun v hv _ => ⟨_, rfl, hps.1, hps.2.1, hps.2.2, hv⟩)
  intro others
  have start := head (spellsThen ([gap, sign .fatArrow, gap] ++ e.bodyLayout ++ [sign .rightParen]) others)
  simp only [spellsThen_append] at start
  simp only [Expr.layout, spellsThen_append]
  exact .parens (.arith (.ascription (takes_rule 1 rfl (.last (takes_rule 0 rfl (.phrase start
    fun h hh => .mark fun _ => .last (body _) fun v hv _ =>
      ⟨_, rfl, .apply hh.1 hh.2.1 hh.2.2.1 hh.2.2.2 hv⟩)) kept))))

def Block.Like (ss : List Statement) (b : Block) : Prop :=
  b.statements.map Statement.bare = ss.map Statement.bare

theorem Block.Like.push {ss : List Statement} {b : Block} {s v : Statement} (hb : Block.Like ss b)
    (hv : s.Like v) : Block.Like (ss ++ [s]) (b.push v) :=
  map_bare_concat hb hv

theorem Block.Like.bare {b c : Block} (h : Block.Like b.statements c) : c.bare = b.bare := by
  rw [Block.bare_eq, Block.bare_eq, h]

theorem given_statements (ss : List Statement) (parts : AllPrinted (statementsLayout ss)) :
    Given .statements (statementsLayout ss) (Block.Like ss) := by
  -- The grammar adds statements at the end.
  induction ss using List.reverseRecOn with
  | nil => exact fun _ => takes_rule 0 rfl (.done fun _ => ⟨_, rfl, rfl⟩)
  | append_singleton ss s ih =>
    have split : statementsLayout (ss ++ [s]) = statementsLayout ss ++ [gap, s.item] := by
      simp [statementsLayout]
    simp only [split, forall_append] at parts
    have printed : s.Printed := by simpa using parts.2
    intro others
    rw [split, spellsThen_append]
    exact takes_rule 1 rfl (.phrase (ih parts.1 _) fun b hb => .last (Given.item (m := .statement s) printed)
      fun v hv _ => ⟨_, rfl, hb.push hv⟩)

theorem given_block (b : Block) (parts : AllPrinted b.layout) :
    Given .block b.layout fun (c : Block) => c.bare = b.bare := by
  have inner := given_statements b.statements (by simpa [Block.layout] using parts)
  intro others
  rw [Block.layout, ← cons_append, spellsThen_append]
  exact takes_rule 0 rfl (.mark fun _ => .phrase (inner _) fun c hc => .mark fun _ =>
    .done fun _ => ⟨_, rfl, Block.Like.bare hc⟩)

theorem given_body (e : Expr) (parts : AllPrinted e.bodyLayout) : Given .lambdaBody e.bodyLayout e.Like := by
  intro others
  -- A block needs no parentheses there, and any other body is printed as a term.
  by_cases block : ∃ b, e = .block b
  · obtain ⟨b, rfl⟩ := block
    exact takes_rule 1 rfl (.last (given_block b parts _) fun c hc _ => ⟨_, rfl, congrArg Expr.block hc⟩)
  · have plain : e.bodyLayout = [e.item] := by
      unfold Expr.bodyLayout
      split
      · exact (block ⟨_, rfl⟩).elim
      · rfl
    rw [plain] at parts ⊢
    have printed : e.Printed := by simpa using parts
    exact takes_rule 0 rfl (.last printed.low kept)

theorem given_constWord : Given .constWord [sign .constWord] fun _ => True :=
  fun _ => takes_rule 0 rfl (.mark fun t => .done fun _ => ⟨t, rfl, trivial⟩)

theorem given_definition (d : Definition) (parts : AllPrinted d.layout) :
    Given .const d.layout fun (c : Definition) => c.bare = d.bare := by
  obtain ⟨types, value⟩ : AllPrinted (annotationLayout d.assertion) ∧ d.value.Printed := by
    simpa [Definition.layout] using parts
  intro others
  rw [Definition.layout, ← cons_append, ← cons_append, ← cons_append, spellsThen_append]
  refine takes_rule 0 rfl (.phrase (given_constWord _) fun _ _ => .sign fun x _ name =>
    .phrase (given_annotated types _) fun t ht => .mark fun _ => .last value.whole.expr fun v hv _ =>
      ⟨_, rfl, ?_⟩)
  rw [Definition.bare_eq, Definition.bare_eq, ht, hv]
  simp [name]

theorem given_loop (l : Loop) (parts : AllPrinted l.layout) :
    Given .loop l.layout fun (v : Loop) => v.bare = l.bare := by
  obtain ⟨counter, proof, bound, body⟩ : AllPrinted l.counter.layout ∧ AllPrinted l.proof.layout ∧
      l.bound.Printed ∧ AllPrinted l.body.layout := by
    simpa [Loop.layout, and_assoc] using parts
  have comparison : Given .comparison [l.compared.item, gap, sign .less, gap, l.bound.item, sign .semicolon]
      fun (c : Comparison) => c.left.bare = l.compared.bare ∧ l.bound.Like c.right :=
    fun _ => takes_rule 0 rfl (.sign fun x _ name => .mark fun _ => .phrase bound.whole fun v hv =>
      .mark fun _ => .done fun _ => ⟨_, rfl, by simp [name], hv⟩)
  have increment : Given .increment [gap, l.stepped.item, sign .plusPlus]
      fun (i : Increment) => i.name.bare = l.stepped.bare :=
    fun _ => takes_rule 0 rfl (.sign fun x _ name => .mark fun _ => .done fun _ => ⟨_, rfl, by simp [name]⟩)
  intro others
  simp only [Loop.layout, spellsThen_append]
  refine takes_rule 0 rfl (.mark fun _ => .mark fun _ =>
    .phrase (given_definition _ counter _) fun c hc => .mark fun _ => .phrase (given_definition _ proof _)
      fun q hq => .mark fun _ => .phrase (comparison _) fun k hk => .phrase (increment _) fun i hi =>
        .mark fun _ => .last (given_block _ body _) fun b hb _ => ⟨_, rfl, ?_⟩)
  rw [Loop.bare_eq, Loop.bare_eq, hc, hq, hk.1, hk.2, hi, hb]

/-- A case begins with a name that is a word there. -/
theorem Yields.word {α : Type} {good : α → Prop} {rest : List Part} {w : String} {more others : List Spell}
    {f : Builder (Syntax.word w :: rest) (Place → Except BadTag α)}
    (h : ∀ t : Token, Yields good others rest (f t) more) :
    Yields good others (Syntax.word w :: rest) f ((.ident, w) :: more) := by
  refine ⟨_, _, rfl, fun t same => ?_⟩
  obtain ⟨kind, name⟩ := Prod.mk.inj same
  exact ⟨by simp [Terminal.accepts, Token.isWord, kind, name], h t⟩

theorem given_case (c : Case) (parts : AllPrinted c.layout) :
    Given .case c.layout fun (d : Case) => d.bare = c.bare := by
  have guard : Given .caseGuard [sign .leftBrace, c.tag.item, sign .colon, gap, c.binding.item, sign .rightBrace]
      fun (g : Guard) => g.tag.bare = c.tag.bare ∧ g.binding.bare = c.binding.bare :=
    fun _ => takes_rule 0 rfl (.mark fun _ => .sign fun x _ tag => .mark fun _ => .sign fun y _ binding =>
      .mark fun _ => .done fun _ => ⟨_, rfl, by simp [tag], by simp [binding]⟩)
  have body := given_statements c.body.statements (by simpa [Case.layout] using parts)
  intro others
  refine takes_rule 0 rfl (.word fun _ => .phrase (guard _) fun g hg => .mark fun _ =>
    .last (body _) fun b hb _ => ⟨_, rfl, ?_⟩)
  rw [Case.bare, Case.bare, hg.1, hg.2, Block.Like.bare hb]

theorem given_cases (cs : List Case) (parts : AllPrinted (cs.flatMap Case.layout)) :
    Given .cases (cs.flatMap Case.layout) fun (ds : List Case) => ds.map Case.bare = cs.map Case.bare := by
  induction cs using List.reverseRecOn with
  | nil => exact fun _ => takes_rule 0 rfl (.done fun _ => ⟨_, rfl, rfl⟩)
  | append_singleton cs c ih =>
    simp only [flatMap_append, flatMap_singleton, forall_append] at parts
    intro others
    rw [flatMap_append, flatMap_singleton, spellsThen_append]
    exact takes_rule 1 rfl (.phrase (ih parts.1 _) fun ds hds => .last (given_case c parts.2 _) fun d hd _ =>
      ⟨_, rfl, map_bare_concat hds hd⟩)

theorem given_switch (s : Switch) (parts : AllPrinted s.layout) :
    Given .switch s.layout fun (v : Switch) => v.bare = s.bare := by
  have begins : Given .switchWord [sign .switchWord] fun _ => True :=
    fun _ => takes_rule 0 rfl (.mark fun t => .done fun _ => ⟨t, rfl, trivial⟩)
  obtain ⟨subject, cases⟩ : s.subject.Printed ∧ AllPrinted (s.cases.flatMap Case.layout) := by
    simpa [Switch.layout] using parts
  intro others
  simp only [Switch.layout, spellsThen_append]
  refine takes_rule 0 rfl (.phrase (begins _) fun _ _ => .mark fun _ => .phrase subject.whole fun e he =>
    .mark fun _ => .mark fun _ => .phrase (given_cases _ cases _) fun cs hcs => .mark fun _ =>
      .done fun _ => ⟨_, rfl, ?_⟩)
  rw [Switch.bare_eq, Switch.bare_eq, he, hcs]

theorem printed_loop {l : Loop} (parts : AllPrinted l.layout) : (Expr.loop l).Printed :=
  fun _ => .atom (takes_rule 4 rfl (.last (given_loop l parts _) fun _ hv _ => ⟨_, rfl, congrArg Expr.loop hv⟩))

theorem printed_switch {s : Switch} (parts : AllPrinted s.layout) : (Expr.switch s).Printed :=
  fun _ => .atom (takes_rule 5 rfl (.last (given_switch s parts _) fun _ hv _ => ⟨_, rfl, congrArg Expr.switch hv⟩))

end Bodies

section Statements

variable {ws others : List Spell} {x : Name} {t : TypeExpr} {e : Expr} {s : Statement} {p q : Place}

attribute [local simp] Statement.Like Expr.Like TypeExpr.Like Statement.bare Name.bare nameOf

theorem Takes.ended (h : Takes .statementBody ws (Kind.semicolon.spell :: others) s.Like) :
    Takes .statement ws others s.Like := by
  have body : Takes .statementBody? ws (Kind.semicolon.spell :: others)
      fun (o : Option Statement) => ∃ v, o = some v ∧ s.Like v :=
    takes_rule 1 rfl (.last h fun v hv _ => ⟨_, rfl, v, rfl, hv⟩)
  refine takes_rule 0 rfl (.phrase body ?_)
  rintro _ ⟨v, rfl, hv⟩
  exact .mark fun _ => .done fun place => ⟨_, rfl, (Statement.bare_withPlace place v).trans hv⟩

theorem printed_empty : (Statement.empty p).Printed := by
  have nothing {ws : List Spell} : Takes .statementBody? ws ws fun (o : Option Statement) => o = none :=
    takes_rule 0 rfl (.done fun _ => ⟨_, rfl, rfl⟩)
  refine fun _ => takes_rule 0 rfl (.phrase nothing ?_)
  rintro _ rfl
  exact .mark fun _ => .done fun _ => ⟨_, rfl, rfl⟩

theorem printed_define {d : Definition} (parts : AllPrinted d.layout) : (Statement.define d).Printed := by
  intro others
  rw [Statement.layout, spellsThen_append]
  exact .ended (takes_rule 0 rfl (.last (given_definition d parts _) fun c hc _ =>
    ⟨_, rfl, congrArg Statement.define hc⟩))

theorem printed_switchStatement {s : Switch} (parts : AllPrinted s.layout) : (Statement.switch s).Printed :=
  fun _ => takes_rule 1 rfl (.last (given_switch s parts _) fun _ hv _ => ⟨_, rfl, congrArg Statement.switch hv⟩)

theorem given_rename (r : Rename) : Given .rename r.layout fun (v : Rename) => v.bare = r.bare := by
  intro others
  obtain ⟨x, y⟩ := r
  cases y with
  | none =>
    exact takes_rule 0 rfl (.sign fun a _ name => .done fun _ =>
      ⟨_, rfl, by simp [Rename.bare, name]⟩)
  | some y =>
    exact takes_rule 1 rfl (.sign fun a _ name => .mark fun _ => .sign fun b _ other =>
      .done fun _ => ⟨_, rfl, by simp [Rename.bare, name, other]⟩)

theorem printed_destructure {a b : Rename} (he : e.Printed) : (Statement.destructure a b e p).Printed := by
  intro others
  simp only [Statement.layout, spellsThen_append]
  refine .ended (takes_rule 2 rfl (.last (takes_rule 0 rfl (.phrase (given_constWord _) fun _ _ => .mark fun _ =>
    .phrase (given_rename a _) fun v hv => .mark fun _ => .phrase (given_rename b _) fun w hw =>
      .mark fun _ => .mark fun _ => .last he.whole.expr fun u hu _ => ⟨_, rfl, ?_⟩)) kept))
  simp_all

theorem given_leaveWord (j : Jump) : Given .leaveWord [sign j.kind] fun (t : Token) => jumpOf t = j := by
  intro others
  cases j with
  | ret => exact takes_rule 0 rfl (.sign fun t kind _ => .done fun _ => ⟨t, rfl, by simp [jumpOf, kind]⟩)
  | next => exact takes_rule 1 rfl (.sign fun t kind _ => .done fun _ => ⟨t, rfl, by simp [jumpOf, kind]⟩)
  | stop => exact takes_rule 2 rfl (.sign fun t kind _ => .done fun _ => ⟨t, rfl, by simp [jumpOf, kind]⟩)

theorem printed_leave {j : Jump} (he : e.Printed) : (Statement.leave j q e p).Printed := by
  refine fun _ => .ended (takes_rule 1 rfl (.last (takes_rule 0 rfl (.phrase (given_leaveWord j _) fun w hw =>
    .last he.whole.expr fun v hv _ => ⟨_, rfl, ?_⟩)) kept))
  simp_all

theorem printed_typedef (ht : t.Printed) : (Statement.typedef x t p).Printed := by
  refine fun _ => .ended (takes_rule 3 rfl (.last (takes_rule 0 rfl (.mark fun _ => .sign fun y _ name =>
    .mark fun _ => .last ht.whole fun v hv _ => ⟨_, rfl, ?_⟩)) kept))
  simp_all

theorem given_typeParam (a : TypeParam) : Given .typeParam a.layout fun (v : TypeParam) => v.bare = a.bare :=
  fun _ => takes_rule 0 rfl (.sign fun x _ name => .mark fun _ => .sign fun y _ other => .done fun _ =>
    ⟨_, rfl, by simp [TypeParam.bare, name, other]⟩)

theorem given_typeParams {ps : List TypeParam} (some : ps ≠ []) :
    Given .typeParams (commas (ps.map TypeParam.layout)) (Several.Like TypeParam.bare ps) := by
  refine given_commas (fun _ => True) ?_ ?_ (fun _ _ => trivial) some
  · exact fun a _ _ => takes_rule 0 rfl (.last (given_typeParam a _) fun v hv _ => ⟨_, rfl, .one hv⟩)
  · exact fun ps a others _ hps => takes_rule 1 rfl (.phrase (hps _) fun vs hvs => .mark fun _ =>
      .last (given_typeParam a _) fun v hv _ => ⟨_, rfl, hvs.push hv⟩)

theorem printed_genericTypedef {ps : List TypeParam} (ht : t.Printed) (some : ps ≠ []) :
    (Statement.generic x ps t p).Printed := by
  intro others
  simp only [Statement.layout, spellsThen_append]
  refine .ended (takes_rule 4 rfl (.last (takes_rule 0 rfl (.mark fun _ => .sign fun y _ name =>
    .mark fun _ => .phrase (given_typeParams some _) fun vs hvs => .mark fun _ =>
      .mark fun _ => .last ht.whole fun v hv _ => ⟨_, rfl, ?_⟩)) kept))
  have entries : (Several.toList vs).map TypeParam.bare = ps.map TypeParam.bare := hvs
  simp_all

theorem given_args {es : List Expr} (each : ∀ e ∈ es, e.Printed) (some : es ≠ []) :
    Given .args (commas (es.map fun e => [e.item])) (Several.Like Expr.bare es) := by
  refine given_commas Expr.Printed ?_ ?_ each some
  · exact fun e he _ => takes_rule 0 rfl (.last he.whole fun v hv _ => ⟨_, rfl, .one hv⟩)
  · exact fun es e others he hes => takes_rule 1 rfl (.phrase (hes _) fun vs hvs => .mark fun _ =>
      .last he.whole fun v hv _ => ⟨_, rfl, hvs.push hv⟩)

theorem printed_log {es : List Expr} (each : ∀ e ∈ es, e.Printed) (some : es ≠ []) :
    (Statement.log es p).Printed := by
  intro others
  simp only [Statement.layout, spellsThen_append]
  refine .ended (takes_rule 5 rfl (.last (takes_rule 0 rfl (.mark fun _ => .mark fun _ =>
    .phrase (given_args each some _) fun vs hvs => .mark fun _ => .done fun _ => ⟨_, rfl, ?_⟩)) kept))
  have entries : bareExprs (Several.toList vs) = bareExprs es := by
    rw [bareExprs_eq, bareExprs_eq]
    exact hvs
  simp [entries]

end Statements

section Trees

attribute [local simp] Node.Printed forall_append forall_commas TypeExpr.layout Expr.layout
  Statement.layout

theorem TypeExpr.printed {t : TypeExpr} (regular : (Node.type t).Regular)
    (parts : AllPrinted t.layout) : t.Printed := by
  cases t <;> simp at parts
  case name => exact printed_typeName
  case numeral => exact printed_typeNumeral
  case binary => exact .binary parts.1 parts.2
  case arrow => exact .arrow parts.1 parts.2
  case record => exact .record parts.1 parts.2
  case not => exact .not parts
  case call => exact .call parts
  case generic => exact printed_generic parts regular

theorem Expr.printed {e : Expr} (regular : (Node.term e).Regular)
    (parts : AllPrinted e.layout) : e.Printed := by
  cases e <;> simp at parts
  case name => exact printed_name
  case numeral => exact printed_numeral
  case arith => exact .arith parts.1 parts.2
  case lambda body _ => exact printed_lambda parts.1 parts.2.1 (given_body body parts.2.2)
  case call => exact .call parts.1 parts.2
  case emptyCall => exact .emptyCall parts
  case generic => exact .generic parts
  case pair => exact .pair parts.1 parts.2
  case record => exact .record parts.1 parts.2 regular
  case ascribe => exact .ascribe parts.1 parts.2
  case member => exact .member parts
  case loop => exact printed_loop parts
  case switch => exact printed_switch parts
  case block => exact regular.elim

theorem Statement.printed {s : Statement} (regular : (Node.statement s).Regular)
    (parts : AllPrinted s.layout) : s.Printed := by
  cases s <;> simp at parts
  case define => exact printed_define parts
  case destructure => exact printed_destructure parts
  case leave => exact printed_leave parts
  case typedef => exact printed_typedef parts
  case generic => exact printed_genericTypedef parts.2 regular
  case log => exact printed_log parts regular
  case empty => exact printed_empty
  case switch => exact printed_switchStatement parts

/-- What reading gives is read again from its own tokens. -/
theorem Node.Proper.printed {n : Node} (h : n.Proper) : n.Printed := by
  induction h with
  | @intro n regular _ _ ih =>
    have parts := allPrinted_iff.2 ih
    cases n with
    | type t => exact TypeExpr.printed regular parts
    | term e => exact Expr.printed regular parts
    | statement s => exact Statement.printed regular parts

end Trees

end Peano.Syntax
