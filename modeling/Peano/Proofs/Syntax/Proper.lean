import Peano.Proofs.Syntax.Builds
import Peano.Proofs.Syntax.Spacing
namespace Peano.Syntax
open Token (Stroke Kind dotsAmong)

section Proper

variable {d c : Nat}

/-- What a tree of the grammar is like, but for its strokes and parts. -/
def Node.Regular : Node → Prop
  | type (.generic _ as _) => as ≠ []
  | term (.record x _ y _ _) =>
    ¬(x.text = "left" ∧ y.text = "right") ∧ ¬(x.text = "right" ∧ y.text = "left")
  | term (.block _) => False
  | statement (.generic _ ps _ _) => ps ≠ []
  | statement (.log as _) => as ≠ []
  | _ => True

/-- A tree that reading may give. -/
inductive Node.Proper : Node → Prop
  | intro {n : Node} (regular : n.Regular) (strokes : ∀ s, .stroke s ∈ n.layout → s.Legal)
      (parts : ∀ m, .node m ∈ n.layout → m.Proper) : n.Proper

def Item.Proper : Item → Prop
  | stroke s => s.Legal
  | node n => n.Proper

theorem Node.proper_iff {n : Node} : n.Proper ↔ n.Regular ∧ ∀ i ∈ n.layout, i.Proper := by
  constructor
  · rintro ⟨regular, strokes, parts⟩
    refine ⟨regular, fun i hi => ?_⟩
    cases i with
    | stroke s => exact strokes s hi
    | node m => exact parts m hi
  · rintro ⟨regular, items⟩
    exact .intro regular (fun s hs => items _ hs) fun m hm => items _ hm

def Item.fields (i : Item) : Nat := Token.fields i.strokes

def fieldsOf (x : List Item) : Nat := Token.fields (strokesOf x)

@[simp] theorem fieldsOf_nil : fieldsOf [] = 0 := rfl

@[simp] theorem fieldsOf_cons (i : Item) (x : List Item) : fieldsOf (i :: x) = i.fields + fieldsOf x := by
  simp [fieldsOf, strokesOf, Token.fields, Item.fields]

@[simp] theorem fieldsOf_append (x y : List Item) : fieldsOf (x ++ y) = fieldsOf x + fieldsOf y := by
  simp [fieldsOf, strokesOf, Token.fields]

@[simp] theorem Item.fields_stroke (s : Stroke) : (stroke s).fields = if s.isField then 1 else 0 := by
  simp [Item.fields, Item.strokes, Token.fields]

@[simp] theorem Item.proper_stroke {s : Stroke} : (stroke s).Proper ↔ s.Legal := Iff.rfl

@[simp] theorem legal_mark {k : Kind} :
    (Stroke.mark k).Legal ↔ k ≠ .dot ∧ (k.isKeyword || k.isPunctuation || k = .log) := Iff.rfl

@[simp] theorem legal_space : Stroke.space.Legal := trivial

@[simp] theorem legal_name {n : String} : (Stroke.name n).Legal ↔ Token.IsName n := Iff.rfl

@[simp] theorem legal_digits {d : String} : (Stroke.digits d).Legal ↔ Token.IsNumeral d := Iff.rfl

@[simp] theorem legal_field {n : String} : (Stroke.field n).Legal ↔ Token.IsName n := Iff.rfl

structure Sane (x : List Item) (count : Nat) : Prop where
  proper : ∀ i ∈ x, i.Proper
  fields : fieldsOf x = count

@[simp] theorem sane_iff {x : List Item} : Sane x c ↔ x.Forall Item.Proper ∧ c = fieldsOf x :=
  ⟨fun h => ⟨List.forall_iff_forall_mem.2 h.proper, h.fields.symm⟩,
    fun h => ⟨List.forall_iff_forall_mem.1 h.1, h.2.symm⟩⟩

theorem Sane.node {n : Node} (regular : n.Regular) (h : Sane n.layout c) : Sane [.node n] c := by
  have proper : (Item.node n).Proper := Node.proper_iff.2 ⟨regular, h.proper⟩
  have fields : (Item.node n).fields = c := by
    rw [Item.fields, Item.strokes, n.strokes_eq, ← fieldsOf, h.fields]
  simp [proper, fields]

/-- A tree that is laid out like another one. -/
theorem Sane.of_layout {m n : Node} (h : Sane [.node n] c) (same : m.layout = n.layout)
    (regular : n.Regular → m.Regular) : Sane [.node m] c := by
  have proper := Node.proper_iff.1 (h.proper (.node n) List.mem_cons_self)
  refine .node (regular proper.1) ⟨same ▸ proper.2, ?_⟩
  rw [same, fieldsOf, ← n.strokes_eq]
  simpa [Item.fields, Item.strokes] using h.fields

theorem Sane.of_eq {x : List Item} (h : Sane x c) (same : c = d) : Sane x d := same ▸ h

theorem fieldsOf_intercalate {sep : List Item} (plain : fieldsOf sep = 0) (xs : List (List Item)) :
    fieldsOf (sep.intercalate xs) = fieldsOf xs.flatten := by
  induction xs with
  | nil => rfl
  | cons x xs ih =>
    cases xs with
    | nil => simp
    | cons y xs =>
      simp only [List.intercalate_cons_cons, fieldsOf_append, plain, Nat.add_zero, ih, List.flatten_cons]

@[simp] theorem fieldsOf_commas (xs : List (List Item)) : fieldsOf (commas xs) = fieldsOf xs.flatten :=
  fieldsOf_intercalate (by simp [Stroke.isField]) xs

@[simp] theorem proper_commas {xs : List (List Item)} (h : xs.flatten.Forall Item.Proper) :
    (commas xs).Forall Item.Proper := by
  rw [← List.map_id xs, forall_commas (by simp [Kind.isPunctuation]) legal_space]
  rwa [← List.flatMap_id, forall_flatMap] at h

variable {p : Place}

theorem Sane.typeWithPlace {t : TypeExpr} (h : Sane [t.item] c) : Sane [(t.withPlace p).item] c := by
  refine h.of_layout ?_ ?_ <;> cases t <;> first | rfl | exact id

theorem Sane.withPlace {e : Expr} (h : Sane [e.item] c) : Sane [(e.withPlace p).item] c := by
  refine h.of_layout ?_ ?_ <;> cases e <;> first | rfl | exact id

theorem Sane.statementWithPlace {s : Statement} (h : Sane [s.item] c) : Sane [(s.withPlace p).item] c := by
  refine h.of_layout ?_ ?_ <;> cases s <;> first | rfl | exact id

theorem isName_of_word {w : String} (h : w ∈ ["left", "right", "case", "makeLeft", "makeRight"]) :
    Token.IsName w := by
  simp only [List.mem_cons, List.not_mem_nil, or_false] at h
  rcases h with rfl | rfl | rfl | rfl | rfl
  all_goals exact ⟨⟨by with_unfolding_all decide, by with_unfolding_all decide⟩, rfl, rfl⟩

end Proper

section Meanings

def Param.layout (p : Param) : List Item := p.name.item :: annotationLayout p.type

/-- A parameter that needs a type: a dot, which is no stroke, stands for a missing one. -/
def Param.typedLayout (p : Param) : List Item :=
  [p.name.item, p.type.elim (sign .dot) TypeExpr.item]

def Several.layout {α : Type} (layout : α → List Item) (xs : Several α) : List Item :=
  xs.toList.flatMap layout

open Nonterminal in
def Meaning.layout : (n : Nonterminal) → Meaning n → List Item
  | code, b | statements, b => statementsLayout (Block.statements b)
  | block, b => Block.layout b
  | statement, s | statementBody, s | leave, s | destructure, s | typedef, s | genericTypedef, s
  | log, s | function, s => [Statement.item s]
  | statementBody?, s => Option.elim s [] fun s => [Statement.item s]
  | constWord, _ | leaveWord, _ | switchWord, _ | fieldEnd, _ => []
  | const, d => Definition.layout d
  | assertion?, t => annotationLayout t
  | assertion, t | logic, t | implication, t | disjunction, t | conjunction, t | equation, t
  | typeSum, t | typeProduct, t | negation, t | typeAtom, t => [TypeExpr.item t]
  | rename, r => Rename.layout r
  | typeParams, ps => Several.layout TypeParam.layout ps
  | typeParam, p => TypeParam.layout p
  | args, es => Several.layout (fun e => [Expr.item e]) es
  | loop, l => Loop.layout l
  | comparison, c => [(Comparison.left c).item, (Comparison.right c).item]
  | increment, i => [(Increment.name i).item]
  | switch, s => Switch.layout s
  | cases, cs => List.flatMap Case.layout cs
  | case, c => Case.layout c
  | caseGuard, g => [(Guard.tag g).item, (Guard.binding g).item]
  | typedParams, ps => Several.layout Param.typedLayout ps
  | params, ps => Several.layout Param.layout ps
  | typedParam, p => Param.typedLayout p
  | param, p => Param.layout p
  | logicList, ts => Several.layout (fun t => [TypeExpr.item t]) ts
  | lambdaBody, e => Expr.bodyLayout e
  | expr, e | arith, e | ascription, e | abstraction, e | lambda, e | conjunct, e | sum, e
  | product, e | application, e | inst, e | atom, e | record, e | tagged, e => [Expr.item e]
  | head, h =>
    (Head.first h :: Head.others h).flatMap Param.layout ++ annotationLayout (Head.result h)

def Terminal.Gives : Terminal → Token → Prop
  | kind .ident, t => Token.IsName t.name
  | kind .num, t => Token.IsNumeral t.name
  | _, _ => True

/-- The number of dots after a token. -/
def Terminal.counted : Terminal → Nat → Nat
  | kind .dot, count => count + 1
  | _, count => count

/-- Sane parts make a sane whole; `count` is the number of dots so far. -/
def Keeps {α : Type} (layout : α → List Item) :
    (rhs : List Part) → Builder rhs (Place → Except BadTag α) → Nat → Prop
  | [], f, count => ∀ place,
    match (f place : Except BadTag α) with
    | .ok v => Sane (layout v) count
    | .error _ => True
  | .token k :: rest, f, count => ∀ t : Token, k.Gives t → Keeps layout rest (f t) (k.counted count)
  | .phrase n :: rest, f, count =>
    ∀ c u, Sane (Meaning.layout n u) c → Keeps layout rest (f u) (c + count)

def Production.Keeps (p : Production) : Prop :=
  Syntax.Keeps (Meaning.layout p.lhs) p.rhs p.build 0

theorem Sane.split {x y : List Item} {c : Nat} (h : Sane (x ++ y) c) :
    ∃ a b, Sane x a ∧ Sane y b ∧ c = a + b := by
  obtain ⟨hx, hy⟩ := List.forall_mem_append.1 h.proper
  exact ⟨_, _, ⟨hx, rfl⟩, ⟨hy, rfl⟩, by rw [← h.fields, fieldsOf_append]⟩

attribute [local simp] Node.layout Node.Regular TypeExpr.layout Expr.layout Statement.layout Kind.isKeyword
  Kind.isPunctuation Stroke.isField Meaning.layout Several.layout Several.toList Several.push
  Param.layout Param.typedLayout annotationLayout statementsLayout
  Loop.layout Case.layout Switch.layout Rename.layout TypeParam.layout TypeOp.kind ArithOp.kind
  Terminal.Gives Terminal.counted Block.push nameOf List.forall_append isName_of_word

section Builders

variable {a b c d : Nat} {p : Place} {e v : Expr}

theorem Sane.arrows {t : TypeExpr} {x : Param} {xs : List Param} (ht : Sane [t.item] c)
    (hxs : Sane ((x :: xs).flatMap Param.typedLayout) d) : Sane [(Syntax.arrows t p x xs).item] (c + d) := by
  induction xs generalizing x d with
  | nil =>
    obtain ⟨x, type⟩ := x
    cases type with
    | none => simp at hxs
    | some u =>
      refine .node trivial ?_
      simp_all [Syntax.arrows]
      omega
  | cons y ys ih =>
    obtain ⟨x, type⟩ := x
    cases type with
    | none => simp at hxs
    | some u =>
      obtain ⟨a, b, hx, hys, rfl⟩ := Sane.split (x := Param.typedLayout ⟨x, some u⟩) hxs
      replace ih := ih hys
      refine .node trivial ?_
      simp_all [Syntax.arrows]
      omega

theorem Sane.curry {result : Option TypeExpr} {x : Param} {xs : List Param}
    (hr : Sane (annotationLayout result) a) (he : Sane e.bodyLayout b)
    (hxs : Sane ((x :: xs).flatMap Param.layout) c) :
    Sane [(Syntax.curry result e x xs).item] (b + (a + c)) := by
  induction xs generalizing x c with
  | nil =>
    refine .node trivial ?_
    simp_all [Syntax.curry]
    omega
  | cons y ys ih =>
    obtain ⟨c, d, hx, hys, rfl⟩ := hxs.split
    replace ih := ih hys
    -- The body of an outer lambda is the next lambda and no block.
    have shape : (Syntax.curry result e y ys).bodyLayout = [(Syntax.curry result e y ys).item] := by
      cases ys <;> rfl
    refine .node trivial ?_
    simp_all [Syntax.curry]
    omega

theorem Sane.apply {h : Head} (hh : Sane (Meaning.layout .head h) c) (he : Sane e.bodyLayout d) :
    Sane [(h.apply e).item] (d + c) := by
  obtain ⟨a, b, params, result, rfl⟩ := hh.split
  exact (result.curry he params).withPlace.of_eq (by omega)

theorem Sane.call {f : Expr} (hf : Sane [f.item] c) (he : Sane [e.item] d) :
    Sane [(Expr.call f e p).item] (d + c) := by
  refine .node trivial ?_
  simp_all
  omega

theorem Sane.calls {f x : Expr} {xs : List Expr} (hf : Sane [f.item] c)
    (hxs : Sane ((x :: xs).flatMap fun e => [e.item]) d) : Sane [(Syntax.calls p f x xs).item] (d + c) := by
  induction xs generalizing f x c d with
  | nil => exact hf.call hxs
  | cons y xs ih =>
    obtain ⟨a, b, hx, hys, rfl⟩ := hxs.split
    exact (ih (hf.call hx) hys).of_eq (by omega)

theorem Sane.recordOf {x y : Token} {w : Expr} (hx : Token.IsName x.name) (hv : Sane [v.item] c)
    (hy : Token.IsName y.name) (hw : Sane [w.item] d) : Sane [(Syntax.recordOf x v y w p).item] (d + c) := by
  unfold Syntax.recordOf
  -- Pairs are recognised by their names in both orders; what is left is a regular record.
  split
  · refine .node trivial ?_
    simp_all
    omega
  split
  · refine .node trivial ?_
    simp_all
  · refine .node ?_ ?_ <;> simp_all [Nat.add_comm]

theorem Sane.taggedOf {tag : Token} (hv : Sane [v.item] c) (made : Syntax.taggedOf tag v p = .ok e) :
    Sane [e.item] c := by
  have inject {fn : String} {q : Place} (h : Token.IsName fn) :
      Sane [(Expr.call (.name ⟨fn, q⟩) v p).item] c :=
    Sane.call (c := 0) (.node trivial (by simp [h])) hv
  unfold Syntax.taggedOf at made
  split at made
  · cases made
    exact inject (isName_of_word (by decide))
  split at made
  · cases made
    exact inject (isName_of_word (by decide))
  · cases made

theorem Sane.body {e : Expr} (h : Sane [e.item] c) : Sane e.bodyLayout c := by
  unfold Expr.bodyLayout
  split
  -- A block is no proper term.
  · exact (Node.proper_iff.1 (h.proper _ List.mem_cons_self)).1.elim
  · exact h

end Builders

section Tables

-- Most productions are settled by computation; the others build lists of parts, or what they build
-- depends on a name.
theorem typeProductions_keep : ∀ p ∈ typeProductions, p.Keeps := by
  simp only [typeProductions, List.forall_mem_cons]
  and_intros
  all_goals try exact fun _ _ h _ => h
  all_goals try
    repeat intro
    refine .node ?_ ?_ <;> simp_all [← List.flatMap_def] <;> omega
  all_goals try
    repeat intro
    simp_all <;> omega
  · exact fun _ _ _ _ hps _ _ _ _ _ _ ht _ => ht.arrows hps
  · exact fun _ _ _ _ h _ _ _ => h.typeWithPlace

theorem statementProductions_keep : ∀ p ∈ statementProductions, p.Keeps := by
  simp only [statementProductions, List.forall_mem_cons]
  and_intros
  all_goals try
    repeat intro
    refine .node ?_ ?_ <;> simp_all [← List.flatMap_def] <;> omega
  all_goals try
    repeat intro
    simp_all [Definition.layout, Block.layout] <;> omega
  · intro c s h _ _ p
    cases s with
    | none => exact .node trivial (by simp_all)
    | some s => exact Sane.statementWithPlace h
  · intro _ w _ _ _ _ _
    refine .node trivial ?_
    cases jumpOf w <;> simp_all [Jump.kind]

theorem exprProductions_keep : ∀ p ∈ exprProductions, p.Keeps := by
  simp only [exprProductions, List.forall_mem_cons]
  and_intros
  all_goals try exact fun _ _ h _ => h
  all_goals try
    repeat intro
    refine .node ?_ ?_ <;> simp_all <;> omega
  all_goals try
    repeat intro
    simp_all [Block.layout] <;> omega
  · exact fun _ _ h _ => h.body
  · exact fun _ _ hh _ _ _ _ he _ => hh.apply he
  · intro _ _ x hx c h hh d b hb p
    have value : Sane [(Head.apply h (.block b)).item] (d + c) := hh.apply hb
    refine .node trivial ?_
    simp_all [Definition.layout]
  · exact fun _ _ hf _ _ _ _ hes _ _ _ => hf.calls hes
  · exact fun _ _ _ _ h _ _ _ => h.withPlace
  · exact fun _ _ _ hx _ _ _ _ hv _ _ _ hy _ _ _ _ hw _ _ _ => .recordOf hx hv hy hw
  · intro _ _ x _ _ _ c v hv _ _ p
    split
    next e made => exact hv.taggedOf made
    next => trivial

end Tables

theorem Terminal.gives_of_accepts {k : Terminal} {t : Token} (fits : k.accepts t = true)
    (sound : t.Sound) : k.Gives t := by
  unfold Gives
  split
  · exact sound.name (by simpa [accepts] using fits)
  · exact sound.numeral (by simpa [accepts] using fits)
  · trivial

theorem Terminal.counted_of_accepts {k : Terminal} {t : Token} (fits : k.accepts t = true)
    (count : Nat) : k.counted count = dotsAmong [t] + count := by
  cases k with
  | kind k =>
    obtain rfl : t.kind = k := by simpa [accepts] using fits
    cases kind : t.kind <;> simp [dotsAmong, kind, Nat.add_comm]
  | word w =>
    have ident : t.kind = .ident := by
      simp only [accepts, Token.isWord, Bool.and_eq_true, decide_eq_true_eq] at fits
      exact fits.1
    simp [dotsAmong, ident]

theorem Keeps.sane {α : Type} {layout : α → List Item} {rhs : List Part}
    {f : Builder rhs (Place → Except BadTag α)} {place : Place} {tokens : List Token} {v : α}
    {count : Nat} (keeps : Keeps layout rhs f count)
    (fills : Fills (fun n tokens u => (∀ t ∈ tokens, t.Sound) →
      Sane (Meaning.layout n u) (dotsAmong tokens)) rhs f place tokens v)
    (sound : ∀ t ∈ tokens, t.Sound) : Sane (layout v) (dotsAmong tokens + count) := by
  induction rhs generalizing place tokens count with
  | nil =>
    obtain ⟨rfl, given⟩ := fills
    have whole := keeps place
    rw [given] at whole
    exact whole.of_eq (Nat.zero_add count).symm
  | cons part rest ih =>
    cases part with
    | token k =>
      obtain ⟨t, others, rfl, fits, tail⟩ := fills
      obtain ⟨first, later⟩ := List.forall_mem_cons.1 sound
      have whole := ih (keeps t (k.gives_of_accepts fits first)) tail later
      rw [k.counted_of_accepts fits] at whole
      refine whole.of_eq ?_
      rw [show t :: others = [t] ++ others from rfl, Token.dotsAmong_append]
      omega
    | phrase n =>
      obtain ⟨first, others, u, rfl, head, tail⟩ := fills
      obtain ⟨before, later⟩ := List.forall_mem_append.1 sound
      have whole := ih (keeps _ u (head before)) tail later
      refine whole.of_eq ?_
      rw [Token.dotsAmong_append]
      omega

theorem Builds.sane {n : Nonterminal} {tokens : List Token} {v : Meaning n} (h : Builds n tokens v)
    (sound : ∀ t ∈ tokens, t.Sound) : Sane (Meaning.layout n v) (dotsAmong tokens) := by
  revert sound
  refine Builds.induction (motive := fun n tokens v => (∀ t ∈ tokens, t.Sound) →
    Sane (Meaning.layout n v) (dotsAmong tokens)) (fun p mem tokens v fills sound => ?_) h
  have keeps : p.Keeps :=
    forall_productions statementProductions_keep typeProductions_keep exprProductions_keep p mem
  exact keeps.sane fills sound

theorem Node.Proper.legal {n : Node} (h : n.Proper) : ∀ s ∈ n.strokes, s.Legal := by
  induction h with
  | @intro n regular strokes parts ih =>
    intro s hs
    rw [Node.strokes_eq, strokesOf, List.mem_flatMap] at hs
    obtain ⟨i, hi, hs⟩ := hs
    cases i with
    | stroke t =>
      obtain rfl : s = t := by simpa [Item.strokes] using hs
      exact strokes s hi
    | node m => exact ih m hi s hs

end Meanings

end Peano.Syntax
