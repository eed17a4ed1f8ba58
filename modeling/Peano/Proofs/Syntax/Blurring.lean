import Peano.Proofs.Syntax.Spacing
namespace Peano.Syntax
open List
open Token (Stroke Kind blurred blurs)

section Members

mutual

/-- The member accesses in a term, each with what is accessed and the name. -/
def Expr.members : Expr → List (Expr × Name)
  | .name _ | .numeral .. | .generic .. => []
  | .arith _ l r _ | .call l r _ | .pair l r _ | .record _ l _ r _ => l.members ++ r.members
  | .lambda _ _ _ b _ => b.members
  | .emptyCall f _ => f.members
  | .ascribe e _ _ => e.members
  | .member e f _ => (e, f) :: e.members
  | .loop l => l.members
  | .switch s => s.members
  | .block b => b.members

def Definition.members : Definition → List (Expr × Name)
  | ⟨_, _, v, _⟩ => v.members

def Loop.members : Loop → List (Expr × Name)
  | ⟨c, p, _, bound, _, _, _, body, _⟩ => c.members ++ p.members ++ bound.members ++ body.members

def Block.members : Block → List (Expr × Name)
  | ⟨ss, _⟩ => statementMembers ss

def Switch.members : Switch → List (Expr × Name)
  | ⟨e, cs, _⟩ => e.members ++ caseMembers cs

def caseMembers : List Case → List (Expr × Name)
  | [] => []
  | ⟨_, _, _, body, _⟩ :: rest => body.members ++ caseMembers rest

def statementMembers : List Statement → List (Expr × Name)
  | [] => []
  | s :: rest => s.members ++ statementMembers rest

def Statement.members : Statement → List (Expr × Name)
  | .define d => d.members
  | .destructure _ _ v _ | .leave _ _ v _ => v.members
  | .typedef .. | .generic .. | .empty _ => []
  | .log as _ => exprMembers as
  | .switch s => s.members

def exprMembers : List Expr → List (Expr × Name)
  | [] => []
  | e :: rest => e.members ++ exprMembers rest

end

def Phrase.members : Phrase → List (Expr × Name)
  | program b => b.members
  | term e => e.members
  | type _ => []

def Node.members : Node → List (Expr × Name)
  | type _ => []
  | term e => e.members
  | statement s => s.members

/-- The member access that a tree itself is. -/
def Node.access : Node → List (Expr × Name)
  | term (.member e f _) => [(e, f)]
  | _ => []

def Item.members : Item → List (Expr × Name)
  | stroke _ => []
  | node n => n.members

def membersOf (x : List Item) : List (Expr × Name) := x.flatMap Item.members

@[simp] theorem membersOf_nil : membersOf [] = [] := rfl

@[simp] theorem membersOf_cons (i : Item) (x : List Item) :
    membersOf (i :: x) = i.members ++ membersOf x := flatMap_cons

@[simp] theorem membersOf_append (x y : List Item) :
    membersOf (x ++ y) = membersOf x ++ membersOf y := flatMap_append

theorem mem_membersOf {m : Expr × Name} {x : List Item} :
    m ∈ membersOf x ↔ ∃ n, .node n ∈ x ∧ m ∈ n.members := by
  rw [membersOf, mem_flatMap]
  constructor
  · rintro ⟨i, hi, hm⟩
    cases i with
    | stroke s => cases hm
    | node n => exact ⟨n, hi, hm⟩
  · rintro ⟨n, hn, hm⟩
    exact ⟨.node n, hn, hm⟩

@[simp] theorem membersOf_commas {α : Type} (f : α → List Item) (xs : List α) :
    membersOf (commas (xs.map f)) = xs.flatMap fun x => membersOf (f x) := by
  rw [membersOf, commas, flatMap_intercalate rfl, ← flatMap_def, flatMap_assoc]
  rfl

theorem statementMembers_eq (ss : List Statement) : statementMembers ss = ss.flatMap Statement.members := by
  induction ss with
  | nil => rfl
  | cons s ss ih => rw [statementMembers, ih, flatMap_cons]

theorem exprMembers_eq (es : List Expr) : exprMembers es = es.flatMap Expr.members := by
  induction es with
  | nil => rfl
  | cons e es ih => rw [exprMembers, ih, flatMap_cons]

attribute [local simp] Item.members Node.members

@[simp] theorem membersOf_annotation (t : Option TypeExpr) : membersOf (annotationLayout t) = [] := by
  cases t <;> rfl

@[simp] theorem membersOf_rename (r : Rename) : membersOf r.layout = [] := by
  unfold Rename.layout
  split <;> rfl

@[simp] theorem membersOf_statements (ss : List Statement) :
    membersOf (statementsLayout ss) = statementMembers ss := by
  rw [statementMembers_eq, membersOf, statementsLayout, flatMap_assoc]
  simp

@[simp] theorem membersOf_block (b : Block) : membersOf b.layout = b.members := by
  obtain ⟨ss, place⟩ := b
  simp [Block.layout, Block.members]

@[simp] theorem membersOf_definition (d : Definition) : membersOf d.layout = d.members := by
  obtain ⟨x, t, v, place⟩ := d
  simp [Definition.layout, Definition.members]

@[simp] theorem membersOf_loop (l : Loop) : membersOf l.layout = l.members := by
  obtain ⟨c, p, x, bound, _, y, _, body, _⟩ := l
  simp [Loop.layout, Loop.members]

@[simp] theorem membersOf_cases (cs : List Case) : membersOf (cs.flatMap Case.layout) = caseMembers cs := by
  induction cs with
  | nil => rfl
  | cons c cs ih =>
    obtain ⟨tag, x, _, ⟨ss, _⟩, _⟩ := c
    simp [Case.layout, caseMembers, Block.members, ih]

@[simp] theorem membersOf_switch (s : Switch) : membersOf s.layout = s.members := by
  obtain ⟨e, cs, place⟩ := s
  simp [Switch.layout, Switch.members]

@[simp] theorem membersOf_body (e : Expr) : membersOf e.bodyLayout = e.members := by
  unfold Expr.bodyLayout
  split
  · rw [membersOf_block, Expr.members]
  · simp

/-- A member access stands on the page itself or inside a tree there. -/
theorem Node.members_eq (n : Node) : n.members = n.access ++ membersOf n.layout := by
  cases n with
  | type t => cases t <;> simp [access, Node.layout, TypeExpr.layout]
  | term e => cases e <;> simp [access, Node.layout, Expr.layout, Expr.members]
  | statement s =>
    cases s <;> simp [access, Node.layout, Statement.layout, Statement.members, TypeParam.layout, exprMembers_eq]

theorem Phrase.members_eq (p : Phrase) : p.members = membersOf p.layout := by
  cases p with
  | program b =>
    obtain ⟨ss, place⟩ := b
    rw [members, Block.members, layout, membersOf, flatMap_intercalate rfl, flatten_singles,
      flatMap_map, statementMembers_eq]
    rfl
  | term e => simp [members, layout]
  | type t => rfl

end Members

section Blurring

variable {x : List Item}

def Expr.isConsole : Expr → Bool
  | .name n => n.text == "console"
  | .member _ f _ => f.text == "console"
  | _ => false

/-- A member access whose text is read as one logging token, or ends in one. -/
def isLogMember (m : Expr × Name) : Bool := m.2.text == "log" && m.1.isConsole

theorem isField_head?_strokesOf (plain : ∀ s, .stroke s ∈ x → s.isField = false) :
    ∀ b ∈ (strokesOf x).head?, b.isField = false := by
  cases x with
  | nil => simp [strokesOf]
  | cons i x =>
    rw [head?_strokesOf i.spaced]
    intro b hb
    cases i with
    | stroke s =>
      obtain rfl : s = b := Option.some.inj hb
      exact plain s mem_cons_self
    | node m =>
      have opens := m.spaced.opens
      rw [show m.strokes.head? = _ from hb] at opens
      cases b with
      | field f => cases opens
      | _ => rfl

/-- Without fields of its own, a layout blurs only inside its trees. -/
theorem blurred_strokesOf (plain : ∀ s, .stroke s ∈ x → s.isField = false) :
    blurred (strokesOf x) ↔ ∃ m, .node m ∈ x ∧ blurred m.strokes := by
  induction x with
  | nil => simp [strokesOf, blurred]
  | cons i x ih =>
    have plainRest : ∀ s, .stroke s ∈ x → s.isField = false := fun s hs =>
      plain s (mem_cons_of_mem _ hs)
    -- Trees begin with no field, so nothing blurs across the seam.
    have apart : (i.strokes.getLast?.any fun a => (strokesOf x).head?.any (blurs a)) = false := by
      cases last : i.strokes.getLast? with
      | none => rfl
      | some a =>
        cases first : (strokesOf x).head? with
        | none => rfl
        | some b => exact Token.blurs_of_not_isField (isField_head?_strokesOf plainRest b first)
    have own : blurred i.strokes ↔ ∃ m, i = .node m ∧ blurred m.strokes := by
      cases i with
      | stroke s => simp [Item.strokes, blurred]
      | node m => simp [Item.strokes]
    rw [strokesOf, flatMap_cons, Token.blurred_append, ← strokesOf, apart, Bool.or_false,
      Bool.or_eq_true, own, ih plainRest]
    constructor
    · rintro (⟨m, rfl, h⟩ | ⟨m, hm, h⟩)
      · exact ⟨m, mem_cons_self, h⟩
      · exact ⟨m, mem_cons_of_mem _ hm, h⟩
    · rintro ⟨m, hm, h⟩
      rcases mem_cons.1 hm with rfl | hm
      · exact .inl ⟨m, rfl, h⟩
      · exact .inr ⟨m, hm, h⟩

theorem Node.isField_layout {n : Node} (other : n.isMember = false) (s : Stroke) (hs : .stroke s ∈ n.layout) :
    s.isField = false := by
  have within := forall_iff_forall_mem.1 n.bounded_layout _ hs
  simpa [other] using within

theorem getLast?_strokesOf {s : Stroke} (h : x.getLast? = some (.stroke s)) :
    (strokesOf x).getLast? = some s := by
  obtain ⟨y, rfl⟩ := getLast?_eq_some_iff.1 h
  simp [strokesOf, Item.strokes]

def Expr.lastStroke : Expr → Stroke
  | .name n => .name n.text
  | .numeral digits _ => .digits digits
  | .member _ f _ => .field f.text
  | .generic .. => .mark .greater
  | .pair .. | .record .. | .loop _ | .switch _ | .block _ => .mark .rightBrace
  | _ => .mark .rightParen

theorem Expr.getLast?_strokes (e : Expr) : (Node.term e).strokes.getLast? = some e.lastStroke := by
  have block : ∀ b : Block, b.layout.getLast? = some (sign .rightBrace) := fun b => by
    rw [Block.layout, ← cons_append, getLast?_append]
    rfl
  rw [Node.strokes_eq]
  refine getLast?_strokesOf ?_
  cases e with
  | loop l => rw [Node.layout, layout, Loop.layout, getLast?_append, block]; rfl
  | switch s => rw [Node.layout, layout, Switch.layout, getLast?_append]; rfl
  | block b => exact block b
  | lambda => rw [Node.layout, layout, getLast?_append]; rfl
  | _ => rfl

theorem Expr.blurs_lastStroke (e : Expr) (f : String) :
    blurs e.lastStroke (.field f) = (f == "log" && e.isConsole) := by
  cases e <;> simp [lastStroke, isConsole, blurs, Bool.and_comm, Bool.beq_eq_decide_eq]

/-- A tree blurs inside one of its parts, or where `log` is taken of `console`. -/
theorem Node.blurred_iff (n : Node) : blurred n.strokes ↔ (∃ m ∈ n.access, isLogMember m) ∨
      ∃ m, .node m ∈ n.layout ∧ blurred m.strokes := by
  cases member : n.isMember with
  | true =>
    unfold isMember at member
    split at member
    next e f p =>
      have strokes : (Node.term (.member e f p)).strokes = (Node.term e).strokes ++ [.field f.text] := by
        rw [strokes_eq]
        rfl
      -- The field is the last stroke, so all depends on the one before it.
      rw [strokes, Token.blurred_append, e.getLast?_strokes]
      simp [blurred, e.blurs_lastStroke, isLogMember, access, layout, Expr.layout, or_comm]
    next => cases member
  | false =>
    have own : n.access = [] := by
      unfold access
      split
      · cases member
      · rfl
    rw [strokes_eq, blurred_strokesOf (isField_layout member), own]
    simp

theorem Node.blurred_iff_members (n : Node) : blurred n.strokes ↔ ∃ m ∈ n.members, isLogMember m := by
  induction n using Node.induction with
  | step n ih =>
    rw [blurred_iff, members_eq]
    constructor
    · rintro (⟨m, own, log⟩ | ⟨k, part, inner⟩)
      · exact ⟨m, mem_append_left _ own, log⟩
      · obtain ⟨m, within, log⟩ := (ih k part).1 inner
        exact ⟨m, mem_append_right _ (mem_membersOf.2 ⟨k, part, within⟩), log⟩
    · rintro ⟨m, mem, log⟩
      rcases mem_append.1 mem with own | inside
      · exact .inl ⟨m, own, log⟩
      · obtain ⟨k, part, within⟩ := mem_membersOf.1 inside
        exact .inr ⟨k, part, (ih k part).2 ⟨m, within, log⟩⟩

theorem Phrase.isField_layout (p : Phrase) (s : Stroke) (hs : .stroke s ∈ p.layout) : s.isField = false := by
  cases p with
  | program b =>
    obtain newline | ⟨x, hx, hs⟩ := mem_intercalate hs
    · simp_all [Stroke.isField]
    · obtain ⟨t, -, rfl⟩ := mem_map.1 hx
      simp at hs
  | term e | type t => simp [layout] at hs

/-- Printed text blurs exactly where `log` is taken of `console`. -/
theorem Phrase.blurred_iff_members (p : Phrase) :
    blurred p.strokes ↔ ∃ m ∈ p.members, isLogMember m := by
  rw [strokes, blurred_strokesOf p.isField_layout, members_eq]
  constructor
  · rintro ⟨n, part, blurred⟩
    obtain ⟨m, within, log⟩ := n.blurred_iff_members.1 blurred
    exact ⟨m, mem_membersOf.2 ⟨n, part, within⟩, log⟩
  · rintro ⟨m, mem, log⟩
    obtain ⟨n, part, within⟩ := mem_membersOf.1 mem
    exact ⟨n, part, n.blurred_iff_members.2 ⟨m, within, log⟩⟩

end Blurring

end Peano.Syntax
