import Peano.Proofs.Syntax.Layout
namespace Peano.Syntax
open List
open Token (Stroke)

section Erasure

def Name.bare (n : Name) : Name := ⟨n.text, none⟩

mutual

def TypeExpr.bare : TypeExpr → TypeExpr
  | .name n => .name n.bare
  | .numeral digits _ => .numeral digits none
  | .binary op l r _ => .binary op l.bare r.bare none
  | .arrow x d c _ => .arrow x.bare d.bare c.bare none
  | .record x t y u _ => .record x.bare t.bare y.bare u.bare none
  | .not t _ => .not t.bare none
  | .call f a _ => .call f.bare a.bare none
  | .generic f as _ => .generic f.bare (bareTypes as) none

def bareTypes : List TypeExpr → List TypeExpr
  | [] => []
  | t :: rest => t.bare :: bareTypes rest

end

def Rename.bare (r : Rename) : Rename := ⟨r.field.bare, r.new.map Name.bare⟩

def TypeParam.bare (p : TypeParam) : TypeParam := ⟨p.name.bare, p.constraint.bare⟩

mutual

def Expr.bare : Expr → Expr
  | .name n => .name n.bare
  | .numeral digits _ => .numeral digits none
  | .arith op l r _ => .arith op l.bare r.bare none
  | .lambda x d r b _ => .lambda x.bare (d.map TypeExpr.bare) (r.map TypeExpr.bare) b.bare none
  | .call f a _ => .call f.bare a.bare none
  | .emptyCall f _ => .emptyCall f.bare none
  | .generic f a _ => .generic f.bare a.bare none
  | .pair l r _ => .pair l.bare r.bare none
  | .record x a y b _ => .record x.bare a.bare y.bare b.bare none
  | .ascribe e t _ => .ascribe e.bare t.bare none
  | .member e f _ => .member e.bare f.bare none
  | .loop l => .loop l.bare
  | .switch s => .switch s.bare
  | .block b => .block b.bare

def Definition.bare : Definition → Definition
  | ⟨x, t, v, _⟩ => ⟨x.bare, t.map TypeExpr.bare, v.bare, none⟩

def Loop.bare : Loop → Loop
  | ⟨c, p, x, bound, _, y, _, body, _⟩ =>
    ⟨c.bare, p.bare, x.bare, bound.bare, none, y.bare, none, body.bare, none⟩

def Block.bare : Block → Block
  | ⟨ss, _⟩ => ⟨bareStatements ss, none⟩

def Switch.bare : Switch → Switch
  | ⟨e, cs, _⟩ => ⟨e.bare, bareCases cs, none⟩

def bareCases : List Case → List Case
  | [] => []
  | ⟨tag, x, _, body, _⟩ :: rest => ⟨tag.bare, x.bare, none, body.bare, none⟩ :: bareCases rest

def bareStatements : List Statement → List Statement
  | [] => []
  | s :: rest => s.bare :: bareStatements rest

def Statement.bare : Statement → Statement
  | .define d => .define d.bare
  | .destructure x y v _ => .destructure x.bare y.bare v.bare none
  | .leave j _ v _ => .leave j none v.bare none
  | .typedef x t _ => .typedef x.bare t.bare none
  | .generic x ps t _ => .generic x.bare (ps.map TypeParam.bare) t.bare none
  | .log as _ => .log (bareExprs as) none
  | .empty _ => .empty none
  | .switch s => .switch s.bare

def bareExprs : List Expr → List Expr
  | [] => []
  | e :: rest => e.bare :: bareExprs rest

end

def Case.bare (c : Case) : Case := ⟨c.tag.bare, c.binding.bare, none, c.body.bare, none⟩

def Phrase.bare : Phrase → Phrase
  | program b => program b.bare
  | term e => term e.bare
  | type t => type t.bare

def Node.bare : Node → Node
  | type t => type t.bare
  | term e => term e.bare
  | statement s => statement s.bare

def Item.bare : Item → Item
  | stroke s => stroke s
  | node n => node n.bare

theorem bareTypes_eq (ts : List TypeExpr) : bareTypes ts = ts.map TypeExpr.bare :=
  eq_map rfl (fun _ _ => rfl) ts

theorem bareExprs_eq (es : List Expr) : bareExprs es = es.map Expr.bare :=
  eq_map rfl (fun _ _ => rfl) es

theorem bareStatements_eq (ss : List Statement) : bareStatements ss = ss.map Statement.bare :=
  eq_map rfl (fun _ _ => rfl) ss

theorem bareCases_eq (cs : List Case) : bareCases cs = cs.map Case.bare :=
  eq_map rfl (fun ⟨_, _, _, _, _⟩ _ => rfl) cs

theorem Definition.bare_eq (d : Definition) :
    d.bare = ⟨d.name.bare, d.assertion.map TypeExpr.bare, d.value.bare, none⟩ := by
  obtain ⟨x, t, v, place⟩ := d
  rfl

theorem Block.bare_eq (b : Block) : b.bare = ⟨b.statements.map Statement.bare, none⟩ := by
  obtain ⟨ss, place⟩ := b
  rw [← bareStatements_eq]
  rfl

theorem Loop.bare_eq (l : Loop) :
    l.bare = ⟨l.counter.bare, l.proof.bare, l.compared.bare, l.bound.bare, none, l.stepped.bare, none,
      l.body.bare, none⟩ := by
  obtain ⟨c, p, x, bound, _, y, _, body, _⟩ := l
  rfl

theorem Switch.bare_eq (s : Switch) : s.bare = ⟨s.subject.bare, s.cases.map Case.bare, none⟩ := by
  obtain ⟨e, cs, place⟩ := s
  rw [← bareCases_eq]
  rfl

@[simp] theorem TypeExpr.bare_withPlace (p : Place) (t : TypeExpr) : (t.withPlace p).bare = t.bare := by
  cases t <;> rfl

@[simp] theorem Expr.bare_withPlace (p : Place) (e : Expr) : (e.withPlace p).bare = e.bare := by
  cases e with
  | loop l => simp [withPlace, bare, Loop.bare_eq]
  | switch s => simp [withPlace, bare, Switch.bare_eq]
  | block b => simp [withPlace, bare, Block.bare_eq]
  | _ => rfl

@[simp] theorem Statement.bare_withPlace (p : Place) (s : Statement) : (s.withPlace p).bare = s.bare := by
  cases s with
  | define d => simp [withPlace, bare, Definition.bare_eq]
  | switch s => simp [withPlace, bare, Switch.bare_eq]
  | _ => rfl

end Erasure

section Layout

theorem map_intercalate {α β : Type} (f : α → β) (sep : List α) (xs : List (List α)) :
    (sep.intercalate xs).map f = (sep.map f).intercalate (xs.map (List.map f)) := by
  induction xs with
  | nil => rfl
  | cons x xs ih =>
    cases xs with
    | nil => simp
    | cons y xs => simp_all [intercalate_cons_cons]

theorem map_bare_commas (xs : List (List Item)) :
    (commas xs).map Item.bare = commas (xs.map (List.map Item.bare)) :=
  map_intercalate ..

attribute [local simp] Item.bare Node.bare Name.bare

@[simp] theorem layout_bare_annotation (t : Option TypeExpr) :
    annotationLayout (t.map TypeExpr.bare) = (annotationLayout t).map Item.bare := by
  cases t <;> simp [annotationLayout]

@[simp] theorem Rename.layout_bare (r : Rename) : r.bare.layout = r.layout.map Item.bare := by
  obtain ⟨x, y⟩ := r
  cases y <;> simp [Rename.bare, Rename.layout]

@[simp] theorem TypeParam.layout_bare (p : TypeParam) : p.bare.layout = p.layout.map Item.bare := by
  simp [TypeParam.bare, TypeParam.layout]

@[simp] theorem layout_bare_statements (ss : List Statement) :
    statementsLayout (ss.map Statement.bare) = (statementsLayout ss).map Item.bare := by
  simp [statementsLayout, flatMap_map, map_flatMap]

@[simp] theorem Block.layout_bare (b : Block) : b.bare.layout = b.layout.map Item.bare := by
  simp [Block.bare_eq, Block.layout]

@[simp] theorem Definition.layout_bare (d : Definition) : d.bare.layout = d.layout.map Item.bare := by
  simp [Definition.bare_eq, Definition.layout]

@[simp] theorem Loop.layout_bare (l : Loop) : l.bare.layout = l.layout.map Item.bare := by
  simp [Loop.bare_eq, Loop.layout]

@[simp] theorem Case.layout_bare (c : Case) : c.bare.layout = c.layout.map Item.bare := by
  simp [Case.bare, Case.layout, Block.bare_eq]

@[simp] theorem Switch.layout_bare (s : Switch) : s.bare.layout = s.layout.map Item.bare := by
  simp [Switch.bare_eq, Switch.layout, flatMap_map, map_flatMap]

@[simp] theorem Expr.bodyLayout_bare (e : Expr) : e.bare.bodyLayout = e.bodyLayout.map Item.bare := by
  cases e <;> simp [bare, bodyLayout]

theorem Node.layout_bare (n : Node) : n.bare.layout = n.layout.map Item.bare := by
  cases n with
  | type t =>
    cases t with
    | generic f as place =>
      simp [Node.layout, TypeExpr.bare, TypeExpr.layout, bareTypes_eq, map_bare_commas,
        Function.comp_def]
    | _ => simp [Node.layout, TypeExpr.bare, TypeExpr.layout]
  | term e => cases e <;> simp [Node.layout, Expr.bare, Expr.layout]
  | statement s =>
    cases s with
    | generic x ps t place =>
      simp [Node.layout, Statement.bare, Statement.layout, map_bare_commas, Function.comp_def]
    | log as place =>
      simp [Node.layout, Statement.bare, Statement.layout, bareExprs_eq, map_bare_commas,
        Function.comp_def]
    | _ => simp [Node.layout, Statement.bare, Statement.layout]

theorem strokesOf_map_bare {x : List Item} (h : ∀ m, .node m ∈ x → m.bare.strokes = m.strokes) :
    strokesOf (x.map Item.bare) = strokesOf x := by
  rw [strokesOf, flatMap_map]
  refine flatMap_congr fun i hi => ?_
  cases i with
  | stroke s => rfl
  | node m => exact h m hi

theorem Node.strokes_bare (n : Node) : n.bare.strokes = n.strokes := by
  induction n using Node.induction with
  | step n ih => rw [strokes_eq, strokes_eq, layout_bare, strokesOf_map_bare ih]

theorem Phrase.strokes_bare (p : Phrase) : p.bare.strokes = p.strokes := by
  have layout : p.bare.layout = p.layout.map Item.bare := by
    cases p with
    | program b =>
      simp [Phrase.bare, Phrase.layout, Block.bare_eq, map_intercalate, Function.comp_def]
    | term e | type t => rfl
  rw [strokes, layout, strokesOf_map_bare fun m _ => m.strokes_bare, strokes]

/-- Places do not show in the text. -/
theorem Phrase.source_eq_of_bare {p q : Phrase} (h : p.bare = q.bare) : p.source = q.source := by
  rw [← textOf_strokes, ← textOf_strokes, ← strokes_bare, h, strokes_bare]

end Layout

end Peano.Syntax
