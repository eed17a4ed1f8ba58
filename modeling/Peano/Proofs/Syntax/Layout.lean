import Peano.Proofs.Token.Stroke
import Peano.Syntax.Printer
namespace Peano.Syntax
open List
open Token (Stroke Kind textOf)
open String (toList_injective)

/-- A tree that stands on the page by itself. -/
inductive Node where
  | type (t : TypeExpr)
  | term (e : Expr)
  | statement (s : Statement)

inductive Item where
  | stroke (s : Stroke)
  | node (n : Node)

section Layout

abbrev sign (k : Kind) : Item := .stroke (.mark k)

abbrev gap : Item := .stroke .space

abbrev Name.item (n : Name) : Item := .stroke (.name n.text)

abbrev TypeExpr.item (t : TypeExpr) : Item := .node (.type t)

abbrev Expr.item (e : Expr) : Item := .node (.term e)

abbrev Statement.item (s : Statement) : Item := .node (.statement s)

def commas (xs : List (List Item)) : List Item := [sign .comma, gap].intercalate xs

def TypeOp.kind : TypeOp → Kind
  | equal => .equal
  | unequal => .unequal
  | and => .and
  | or => .or
  | add => .plus
  | mul => .star

def ArithOp.kind : ArithOp → Kind
  | add => .plus
  | mul => .star

def Jump.kind : Jump → Kind
  | ret => .returnWord
  | next => .continueWord
  | stop => .breakWord

def TypeExpr.layout : TypeExpr → List Item
  | .name n => [n.item]
  | .numeral digits _ => [.stroke (.digits digits)]
  | .binary op l r _ =>
    [sign .leftParen, l.item, gap, sign op.kind, gap, r.item, sign .rightParen]
  | .arrow x d c _ =>
    [sign .leftParen, sign .leftParen, x.item, sign .colon, gap, d.item, sign .rightParen, gap,
      sign .fatArrow, gap, c.item, sign .rightParen]
  | .record x t y u _ =>
    [sign .leftBrace, x.item, sign .colon, gap, t.item, sign .semicolon, gap, y.item, sign .colon,
      gap, u.item, sign .rightBrace]
  | .not t _ => [sign .bang, t.item]
  | .call f a _ => [f.item, sign .leftParen, a.item, sign .rightParen]
  | .generic f as _ =>
    f.item :: sign .less :: (commas (as.map fun t => [t.item]) ++ [sign .greater])

def annotationLayout : Option TypeExpr → List Item
  | some t => [sign .colon, gap, t.item]
  | none => []

def Rename.layout (r : Rename) : List Item :=
  match r.new with
  | some n => [r.field.item, sign .colon, gap, n.item]
  | none => [r.field.item]

def TypeParam.layout (p : TypeParam) : List Item :=
  [p.name.item, gap, sign .extendsWord, gap, p.constraint.item]

def statementsLayout (ss : List Statement) : List Item := ss.flatMap fun s => [gap, s.item]

def Block.layout (b : Block) : List Item :=
  sign .leftBrace :: (statementsLayout b.statements ++ [gap, sign .rightBrace])

def Definition.layout (d : Definition) : List Item :=
  sign .constWord :: gap :: d.name.item ::
    (annotationLayout d.assertion ++ [gap, sign .assign, gap, d.value.item])

def Loop.layout (l : Loop) : List Item :=
  [sign .forWord, gap, sign .leftParen] ++ l.counter.layout ++ [sign .semicolon, gap] ++
    l.proof.layout ++ [sign .semicolon, gap, l.compared.item, gap, sign .less, gap, l.bound.item,
      sign .semicolon, gap, l.stepped.item, sign .plusPlus, sign .rightParen, gap] ++ l.body.layout

/-- A case begins with a word that is reserved only there. -/
def Case.layout (c : Case) : List Item :=
  [gap, .stroke (.name "case"), gap, sign .leftBrace, c.tag.item, sign .colon, gap, c.binding.item,
    sign .rightBrace, sign .colon] ++ statementsLayout c.body.statements

def Switch.layout (s : Switch) : List Item :=
  [sign .switchWord, gap, sign .leftParen, s.subject.item, sign .rightParen, gap, sign .leftBrace] ++
    s.cases.flatMap Case.layout ++ [gap, sign .rightBrace]

/-- The body of a lambda. A block stands there without parentheses. -/
def Expr.bodyLayout : Expr → List Item
  | .block b => b.layout
  | e => [e.item]

def Expr.layout : Expr → List Item
  | .name n => [n.item]
  | .numeral digits _ => [.stroke (.digits digits)]
  | .arith op l r _ =>
    [sign .leftParen, l.item, gap, sign op.kind, gap, r.item, sign .rightParen]
  | .lambda x d r b _ =>
    [sign .leftParen, sign .leftParen, x.item] ++ annotationLayout d ++ [sign .rightParen] ++
      annotationLayout r ++ [gap, sign .fatArrow, gap] ++ b.bodyLayout ++ [sign .rightParen]
  | .call f a _ => [f.item, sign .leftParen, a.item, sign .rightParen]
  | .emptyCall f _ => [f.item, sign .leftParen, sign .rightParen]
  | .generic f a _ => [f.item, sign .less, a.item, sign .greater]
  | .pair l r _ =>
    [sign .leftBrace, .stroke (.name "left"), sign .colon, gap, l.item, sign .comma, gap,
      .stroke (.name "right"), sign .colon, gap, r.item, sign .rightBrace]
  | .record x a y b _ =>
    [sign .leftBrace, x.item, sign .colon, gap, a.item, sign .comma, gap, y.item, sign .colon, gap,
      b.item, sign .rightBrace]
  | .ascribe e t _ =>
    [sign .leftParen, e.item, gap, sign .asWord, gap, t.item, sign .rightParen]
  | .member e f _ => [e.item, .stroke (.field f.text)]
  | .loop l => l.layout
  | .switch s => s.layout
  | .block b => b.layout

def Statement.layout : Statement → List Item
  | .define d => d.layout ++ [sign .semicolon]
  | .destructure x y v _ =>
    [sign .constWord, gap, sign .leftBrace] ++ x.layout ++ [sign .comma, gap] ++ y.layout ++
      [sign .rightBrace, gap, sign .assign, gap, v.item, sign .semicolon]
  | .leave j _ v _ => [sign j.kind, gap, v.item, sign .semicolon]
  | .typedef x t _ =>
    [sign .typeWord, gap, x.item, gap, sign .assign, gap, t.item, sign .semicolon]
  | .generic x ps t _ =>
    [sign .typeWord, gap, x.item, sign .less] ++ commas (ps.map TypeParam.layout) ++
      [sign .greater, gap, sign .assign, gap, t.item, sign .semicolon]
  | .log as _ =>
    [sign .log, sign .leftParen] ++ commas (as.map fun e => [e.item]) ++
      [sign .rightParen, sign .semicolon]
  | .empty _ => [sign .semicolon]
  | .switch s => s.layout

def Node.layout : Node → List Item
  | type t => t.layout
  | term e => e.layout
  | statement s => s.layout

def Phrase.layout : Phrase → List Item
  | program b => [Item.stroke .newline].intercalate (b.statements.map fun s => [s.item])
  | term e => [e.item]
  | type t => [t.item]

end Layout

section Strokes

theorem mem_intercalate_of_mem {α : Type} {i : α} {x sep : List α} {xs : List (List α)} (hx : x ∈ xs)
    (hi : i ∈ x) : i ∈ sep.intercalate xs := by
  induction xs with
  | nil => cases hx
  | cons y xs ih =>
    cases xs with
    | nil =>
      obtain rfl := mem_singleton.1 hx
      simpa using hi
    | cons z xs =>
      rw [intercalate_cons_cons, mem_append, mem_append]
      rcases mem_cons.1 hx with rfl | hx
      · exact .inl (.inl hi)
      · exact .inr (ih hx)

/-- What comes from the separators only does not matter. -/
theorem flatMap_intercalate {α β : Type} {f : α → List β} {sep : List α} (plain : sep.flatMap f = [])
    (xs : List (List α)) : (sep.intercalate xs).flatMap f = xs.flatten.flatMap f := by
  induction xs with
  | nil => rfl
  | cons x xs ih =>
    cases xs with
    | nil => simp
    | cons y xs =>
      simp only [intercalate_cons_cons, flatMap_append, plain, append_nil, ih,
        flatten_cons]

theorem flatten_singles {α β : Type} (f : α → β) (xs : List α) :
    (xs.map fun x => [f x]).flatten = xs.map f := by
  rw [← flatMap_def, map_eq_flatMap]

section Forall

variable {α : Type} {P : Item → Prop} {f : α → List Item} {xs : List α}

theorem forall_intercalate {sep : List Item} (between : sep.Forall P) :
    (sep.intercalate (xs.map f)).Forall P ↔ ∀ x ∈ xs, (f x).Forall P := by
  simp only [forall_iff_forall_mem] at between ⊢
  constructor
  · exact fun h x hx i hi => h i (mem_intercalate_of_mem (mem_map_of_mem hx) hi)
  · intro h i hi
    obtain hi | ⟨y, hy, hi⟩ := mem_intercalate hi
    · exact between i hi
    · obtain ⟨x, hx, rfl⟩ := mem_map.1 hy
      exact h x hx i hi

theorem forall_commas (comma : P (sign .comma)) (space : P gap) :
    (commas (xs.map f)).Forall P ↔ ∀ x ∈ xs, (f x).Forall P :=
  forall_intercalate ⟨comma, space⟩

theorem forall_flatMap : (xs.flatMap f).Forall P ↔ ∀ x ∈ xs, (f x).Forall P := by
  simp only [forall_iff_forall_mem, mem_flatMap]
  exact ⟨fun h x hx i hi => h i ⟨x, hx, hi⟩, fun h i ⟨x, hx, hi⟩ => h x hx i hi⟩

end Forall

section Sizes

noncomputable def Node.size : Node → Nat
  | type t => sizeOf t
  | term e => sizeOf e
  | statement s => sizeOf s

@[simp] theorem size_type (t : TypeExpr) : (Node.type t).size = sizeOf t := rfl

@[simp] theorem size_term (e : Expr) : (Node.term e).size = sizeOf e := rfl

@[simp] theorem size_statement (s : Statement) : (Node.statement s).size = sizeOf s := rfl

/-- A tree below a size, or a stroke, which may be a field only if that is said. -/
def Item.Within (k : Nat) (fields : Prop) : Item → Prop
  | stroke s => s.isField → fields
  | node m => m.size < k

variable {k : Nat} {fields : Prop}

@[simp] theorem within_stroke {s : Stroke} : (Item.stroke s).Within k fields ↔ (s.isField → fields) := Iff.rfl

@[simp] theorem within_node {m : Node} : (Item.node m).Within k fields ↔ m.size < k := Iff.rfl

abbrev Bounded (k : Nat) (fields : Prop) : List Item → Prop := List.Forall (Item.Within k fields)

attribute [local simp] Stroke.isField forall_append forall_flatMap forall_commas

theorem bounded_annotation {t : Option TypeExpr} (le : sizeOf t ≤ k) : Bounded k fields (annotationLayout t) := by
  cases t with
  | none => exact trivial
  | some t =>
    simp [annotationLayout] at le ⊢
    omega

theorem bounded_rename (r : Rename) : Bounded k fields r.layout := by
  unfold Rename.layout
  split <;> simp

theorem bounded_statements {ss : List Statement} (le : sizeOf ss ≤ k) :
    Bounded k fields (statementsLayout ss) := by
  simp only [statementsLayout, forall_flatMap]
  intro s hs
  simpa using (sizeOf_lt_of_mem hs).trans_le le

theorem bounded_block {b : Block} (le : sizeOf b ≤ k) : Bounded k fields b.layout := by
  cases b
  rw [Block.mk.sizeOf_spec] at le
  simp (disch := omega) [Block.layout, bounded_statements]

theorem bounded_definition {d : Definition} (le : sizeOf d ≤ k) : Bounded k fields d.layout := by
  cases d
  rw [Definition.mk.sizeOf_spec] at le
  simp (disch := omega) [Definition.layout, bounded_annotation]
  omega

theorem bounded_loop {l : Loop} (le : sizeOf l ≤ k) : Bounded k fields l.layout := by
  cases l
  rw [Loop.mk.sizeOf_spec] at le
  simp (disch := omega) [Loop.layout, bounded_definition, bounded_block]
  omega

theorem bounded_case {c : Case} (le : sizeOf c ≤ k) : Bounded k fields c.layout := by
  obtain ⟨tag, x, _, ⟨ss, _⟩, _⟩ := c
  rw [Case.mk.sizeOf_spec, Block.mk.sizeOf_spec] at le
  simp (disch := omega) [Case.layout, bounded_statements]

theorem bounded_switch {s : Switch} (le : sizeOf s ≤ k) : Bounded k fields s.layout := by
  obtain ⟨e, cs, place⟩ := s
  rw [Switch.mk.sizeOf_spec] at le
  have cases (c : Case) (hc : c ∈ cs) : Bounded k fields c.layout := by
    have := sizeOf_lt_of_mem hc
    exact bounded_case (by omega)
  simp +contextual [Switch.layout, cases]
  omega

theorem bounded_body {e : Expr} (lt : sizeOf e < k) : Bounded k fields e.bodyLayout := by
  -- A body that is no block stands there itself.
  unfold Expr.bodyLayout
  split
  · rw [Expr.block.sizeOf_spec] at lt
    exact bounded_block (by omega)
  · simpa using lt

def Node.isMember : Node → Bool
  | term (.member ..) => true
  | _ => false

/-- Trees on the page of a tree are smaller, and only a member access has a field. -/
theorem Node.bounded_layout (n : Node) : Bounded n.size n.isMember n.layout := by
  cases n with
  | type t =>
    cases t with
    | generic f as place =>
      simp [Node.layout, TypeExpr.layout]
      exact fun t ht => (sizeOf_lt_of_mem ht).trans (by omega)
    | _ => simp [Node.layout, TypeExpr.layout] <;> omega
  | term e =>
    cases e <;> simp (disch := omega) [Node.layout, Expr.layout, Node.isMember, bounded_annotation, bounded_block,
      bounded_loop, bounded_switch, bounded_body] <;> omega
  | statement s =>
    cases s with
    | log as place =>
      simp [Node.layout, Statement.layout]
      exact fun e he => (sizeOf_lt_of_mem he).trans (by omega)
    | generic x ps t place =>
      simp [Node.layout, Statement.layout, TypeParam.layout]
      omega
    | _ =>
      simp (disch := omega) [Node.layout, Statement.layout, bounded_rename, bounded_definition,
        bounded_switch] <;> omega

theorem Node.size_layout {m n : Node} (h : .node m ∈ n.layout) : m.size < n.size :=
  forall_iff_forall_mem.1 n.bounded_layout _ h

end Sizes

theorem Node.induction {P : Node → Prop} (step : ∀ n : Node, (∀ m, .node m ∈ n.layout → P m) → P n)
    (n : Node) : P n := by
  induction size : n.size using Nat.strongRecOn generalizing n with
  | _ k ih =>
    subst size
    exact step n fun m h => ih m.size (size_layout h) m rfl

def Node.strokes (n : Node) : List Stroke :=
  n.layout.attach.flatMap fun ⟨i, h⟩ =>
    match i, h with
    | .stroke s, _ => [s]
    | .node m, _ => m.strokes
termination_by n.size
decreasing_by exact size_layout ‹_›

def Item.strokes : Item → List Stroke
  | stroke s => [s]
  | node n => n.strokes

def strokesOf (x : List Item) : List Stroke := x.flatMap Item.strokes

theorem Node.strokes_eq (n : Node) : n.strokes = strokesOf n.layout := by
  rw [Node.strokes]
  conv_rhs => rw [← unattach_attach (l := n.layout)]
  refine flatMap_subtype fun i h => ?_
  cases i <;> rfl

def Phrase.strokes (p : Phrase) : List Stroke := strokesOf p.layout

end Strokes

section Text

def Node.source : Node → String
  | type t => t.source
  | term e => e.source
  | statement s => s.source

def Item.source : Item → String
  | stroke s => s.text
  | node n => n.source

def sourceOf (x : List Item) : String := String.join (x.map Item.source)

@[simp] theorem sourceOf_nil : sourceOf [] = "" := rfl

@[simp] theorem sourceOf_cons (i : Item) (x : List Item) : sourceOf (i :: x) = i.source ++ sourceOf x := by
  simp [sourceOf]

@[simp] theorem sourceOf_append (x y : List Item) : sourceOf (x ++ y) = sourceOf x ++ sourceOf y := by
  simp [sourceOf]

theorem sourceOf_intercalate (sep : List Item) (xs : List (List Item)) :
    sourceOf (sep.intercalate xs) = String.intercalate (sourceOf sep) (xs.map sourceOf) := by
  induction xs with
  | nil => simp
  | cons x xs ih =>
    cases xs with
    | nil => simp
    | cons y xs =>
      rw [intercalate_cons_cons, map_cons, map_cons, String.intercalate_cons_cons,
        ← map_cons, ← ih, sourceOf_append, sourceOf_append]

/-- What goes through a list entry by entry. -/
theorem eq_map {α β : Type} {f : α → β} {g : List α → List β} (nil : g [] = [])
    (cons : ∀ x xs, g (x :: xs) = f x :: g xs) (xs : List α) : g xs = xs.map f := by
  induction xs with
  | nil => exact nil
  | cons x xs ih => rw [cons, ih, map_cons]

theorem typeSources_eq (ts : List TypeExpr) : typeSources ts = ts.map TypeExpr.source :=
  eq_map rfl (fun _ _ => rfl) ts

theorem exprSources_eq (es : List Expr) : exprSources es = es.map Expr.source :=
  eq_map rfl (fun _ _ => rfl) es

theorem statementSources_eq (ss : List Statement) : statementSources ss = ss.map Statement.source :=
  eq_map rfl (fun _ _ => rfl) ss

attribute [local simp] Item.source Node.source Stroke.text Kind.name braced

@[simp] theorem sourceOf_annotation (t : Option TypeExpr) : sourceOf (annotationLayout t) = annotation t := by
  apply toList_injective
  cases t <;> simp [annotationLayout, annotation]

@[simp] theorem sourceOf_rename (r : Rename) : sourceOf r.layout = r.source := by
  apply toList_injective
  unfold Rename.layout Rename.source
  split <;> simp_all

@[simp] theorem sourceOf_typeParam (p : TypeParam) : sourceOf p.layout = p.source := by
  apply toList_injective
  simp [TypeParam.layout, TypeParam.source]

@[simp] theorem sourceOf_commas {α : Type} (f : α → List Item) (xs : List α) :
    sourceOf (commas (xs.map f)) = String.intercalate ", " (xs.map fun x => sourceOf (f x)) := by
  rw [commas, sourceOf_intercalate, map_map]
  rfl

@[simp] theorem sourceOf_statements (ss : List Statement) :
    sourceOf (statementsLayout ss) = String.join ((statementSources ss).map (" " ++ ·)) := by
  induction ss with
  | nil => rfl
  | cons s ss ih =>
    rw [statementsLayout, flatMap_cons, sourceOf_append, statementSources, map_cons,
      String.join_cons, ← ih]
    simp [statementsLayout]

@[simp] theorem sourceOf_block (b : Block) : sourceOf b.layout = b.source := by
  apply toList_injective
  obtain ⟨ss, place⟩ := b
  simp [Block.layout, Block.source]

@[simp] theorem sourceOf_definition (d : Definition) : sourceOf d.layout = d.source := by
  apply toList_injective
  obtain ⟨x, t, v, place⟩ := d
  simp [Definition.layout, Definition.source]

theorem Loop.source_eq (l : Loop) : l.source = "for (" ++ l.counter.source ++ "; " ++ l.proof.source ++
    "; " ++ l.compared.text ++ " < " ++ l.bound.source ++ "; " ++ l.stepped.text ++ "++) " ++
      l.body.source := by
  obtain ⟨c, p, x, bound, _, y, _, body, _⟩ := l
  rfl

-- Texts are compared as lists of characters, where it does not matter how they are put together.
@[simp] theorem sourceOf_loop (l : Loop) : sourceOf l.layout = l.source := by
  apply toList_injective
  rw [l.source_eq]
  simp [Loop.layout]

@[simp] theorem sourceOf_cases (cs : List Case) :
    sourceOf (cs.flatMap Case.layout) = String.join (caseSources cs) := by
  apply toList_injective
  induction cs with
  | nil => rfl
  | cons c cs ih =>
    obtain ⟨tag, x, _, ⟨ss, _⟩, _⟩ := c
    simp [Case.layout, caseSources, ih]

@[simp] theorem sourceOf_switch (s : Switch) : sourceOf s.layout = s.source := by
  apply toList_injective
  obtain ⟨e, cs, place⟩ := s
  simp [Switch.layout, Switch.source]

@[simp] theorem sourceOf_body (e : Expr) : sourceOf e.bodyLayout = e.source := by
  unfold Expr.bodyLayout
  split
  · rw [sourceOf_block, Expr.source]
  · simp

theorem TypeExpr.sourceOf_layout (t : TypeExpr) : sourceOf t.layout = t.source := by
  apply toList_injective
  cases t with
  | generic f as place => simp [TypeExpr.layout, TypeExpr.source, typeSources_eq]
  | binary op => cases op <;> simp [TypeExpr.layout, TypeExpr.source, TypeOp.kind, TypeOp.text]
  | _ => simp [TypeExpr.layout, TypeExpr.source]

theorem Expr.sourceOf_layout (e : Expr) : sourceOf e.layout = e.source := by
  apply toList_injective
  cases e with
  | arith op => cases op <;> simp [Expr.layout, Expr.source, ArithOp.kind, ArithOp.text]
  | _ => simp [Expr.layout, Expr.source]

theorem Statement.sourceOf_layout (s : Statement) : sourceOf s.layout = s.source := by
  apply toList_injective
  cases s with
  | log as place => simp [Statement.layout, Statement.source, exprSources_eq]
  | leave j => cases j <;> simp [Statement.layout, Statement.source, Jump.kind, Jump.text]
  | _ => simp [Statement.layout, Statement.source]

theorem Node.sourceOf_layout (n : Node) : sourceOf n.layout = n.source := by
  cases n with
  | type t => exact t.sourceOf_layout
  | term e => exact e.sourceOf_layout
  | statement s => exact s.sourceOf_layout

theorem textOf_strokesOf {x : List Item} (h : ∀ m, .node m ∈ x → textOf m.strokes = m.source) :
    textOf (strokesOf x) = sourceOf x := by
  induction x with
  | nil => rfl
  | cons i x ih =>
    have rest := ih fun m hm => h m (mem_cons_of_mem _ hm)
    rw [strokesOf, flatMap_cons, Token.textOf_append, sourceOf_cons]
    congr 1
    cases i with
    | stroke s => simp [Item.strokes, textOf]
    | node m => exact h m mem_cons_self

theorem Node.textOf_strokes (n : Node) : textOf n.strokes = n.source := by
  induction n using Node.induction with
  | step n ih => rw [strokes_eq, textOf_strokesOf ih, sourceOf_layout]

theorem Phrase.textOf_strokes (p : Phrase) : textOf p.strokes = p.source := by
  rw [strokes, textOf_strokesOf fun m _ => m.textOf_strokes]
  cases p with
  | program b =>
    rw [layout, sourceOf_intercalate, source, Block.programSource, statementSources_eq, map_map]
    congr 2
  | term e | type t => simp [layout, source]

end Text

end Peano.Syntax
