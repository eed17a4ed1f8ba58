import Peano.Proofs.Diagnostic.KeywordEdits
import Peano.Syntax.Outline
namespace Peano.Syntax
open List (cons_ne_nil forall_mem_append forall_mem_cons forall_mem_nil mem_singleton_self)
open Source (Extent)

namespace Outline

/-- What is in a field of a node without being a node, and so without a place. -/
def groups : List String := ["TField", "Field", "Rename", "TypeParam"]

/-- The places of an outline nest, the outermost ones in the given extent. Only a list of no statements
that is not in braces is nowhere: an empty program and the empty body of a case. -/
inductive Nests : Extent → Outline → Prop
  | placed {outer e : Extent} {kind field : String} {attributes : List (String × Attribute)}
    {children : List Outline} (start : outer.start ≤ e.start) (proper : e.start ≤ e.stop)
    (stop : e.stop ≤ outer.stop) (inner : ∀ c ∈ children, Nests e c) :
    Nests outer (.node kind field (some e) attributes children)
  | group {outer : Extent} {kind field : String} {attributes : List (String × Attribute)}
    {children : List Outline} (shape : kind ∈ groups) (inner : ∀ c ∈ children, Nests outer c) :
    Nests outer (.node kind field none attributes children)
  | program {outer : Extent} {field : String} :
    Nests outer (.node "Block" field none [("TopLevel", .flag true)] [])
  | case {outer e : Extent} {field : String} {attributes : List (String × Attribute)} {guard : Outline}
    (start : outer.start ≤ e.start) (proper : e.start ≤ e.stop) (stop : e.stop ≤ outer.stop)
    (inner : Nests e guard) :
    Nests outer (.node "Case" field (some e) attributes
      [guard, .node "Block" "Body" none [("TopLevel", .flag false)] []])

variable {o : Outline} {x y e : Extent} {p : Place} {kind field : String}
variable {attributes : List (String × Attribute)} {cs : List Outline}

theorem Nests.mono (h : o.Nests x) (start : y.start ≤ x.start) (stop : x.stop ≤ y.stop) : o.Nests y := by
  induction h with
  | placed start' proper stop' inner _ => exact .placed (by omega) proper (by omega) inner
  | group shape _ ih => exact .group shape fun c hc => ih c hc start stop
  | program => exact .program
  | case start' proper stop' inner _ => exact .case (by omega) proper (by omega) inner

theorem Nests.children (h : Nests x (.node kind field p attributes cs)) (other : kind ≠ "Case") :
    cs.Forall (Nests x) := by
  rw [List.forall_iff_forall_mem]
  cases h with
  | placed start _ stop inner => exact fun c hc => (inner c hc).mono start stop
  | group _ inner => exact inner
  | program => exact forall_mem_nil _
  | case => exact absurd rfl other

theorem Nests.isSome_place (h : Nests x (.node kind field p attributes cs)) (single : kind ∉ groups)
    (braced : kind ≠ "Block") : p.isSome := by
  cases h with
  | placed | case => rfl
  | group shape => exact absurd shape single
  | program => exact absurd rfl braced

@[simp] theorem mem_groups :
    kind ∈ groups ↔ kind = "TField" ∨ kind = "Field" ∨ kind = "Rename" ∨ kind = "TypeParam" := by
  simp [groups]

@[simp] theorem nests_group (shape : kind ∈ groups) :
    Nests x (.node kind field none attributes cs) ↔ cs.Forall (Nests x) :=
  ⟨fun h => h.children (by rintro rfl; simp at shape), fun inner => .group shape (List.forall_iff_forall_mem.1 inner)⟩

theorem nests_placed (other : kind ≠ "Case") : Nests x (.node kind field (some e) attributes cs) ↔
    x.start ≤ e.start ∧ e.start ≤ e.stop ∧ e.stop ≤ x.stop ∧ ∀ c ∈ cs, Nests e c := by
  refine ⟨fun h => ?_, fun ⟨start, proper, stop, inner⟩ => .placed start proper stop inner⟩
  cases h with
  | placed start proper stop inner => exact ⟨start, proper, stop, inner⟩
  | case => exact absurd rfl other

theorem nests_self (proper : e.start ≤ e.stop) (inner : cs.Forall (Nests e)) :
    Nests e (.node kind field (some e) attributes cs) :=
  .placed le_rfl proper le_rfl (List.forall_iff_forall_mem.1 inner)

end Outline

/-- Outlines that may stand in any field. -/
abbrev Outlines := List (String → Outline)

def Housed (e : Extent) (os : Outlines) : Prop := ∀ o ∈ os, ∀ field, (o field).Nests e

section Housing

variable {e x : Extent} {os os' : Outlines}

theorem Housed.mono (h : Housed x os) (start : e.start ≤ x.start) (stop : x.stop ≤ e.stop) : Housed e os :=
  fun o ho field => (h o ho field).mono start stop

@[simp] theorem housed_nil : Housed e [] := forall_mem_nil _

@[simp] theorem housed_cons {o : String → Outline} :
    Housed e (o :: os) ↔ (∀ field, (o field).Nests e) ∧ Housed e os := forall_mem_cons

@[simp] theorem housed_append : Housed e (os ++ os') ↔ Housed e os ∧ Housed e os' := forall_mem_append

end Housing

theorem join_assoc (p q r : Place) : Extent.join (Extent.join p q) r = Extent.join p (Extent.join q r) := by
  cases p <;> cases q <;> cases r <;> simp [Extent.join, Extent.cover]

/-- What has been read from a stretch of the text: it covers the place, where the outlines nest. -/
structure Sits (lo hi : Nat) (place : Place) (os : Outlines) : Prop where
  le : lo ≤ hi
  cases : (place = none ∧ os = []) ∨
    ∃ e, place = some e ∧ lo ≤ e.start ∧ e.start ≤ e.stop ∧ e.stop ≤ hi ∧ Housed e os

section Sitting

variable {lo lo' mid hi hi' : Nat} {p q : Place} {os os' : Outlines}

theorem Sits.mono (h : Sits lo hi p os) (start : lo' ≤ lo) (stop : hi ≤ hi') : Sits lo' hi' p os := by
  refine ⟨by have := h.le; omega, h.cases.imp_right ?_⟩
  rintro ⟨e, place, start', proper, stop', inner⟩
  exact ⟨e, place, by omega, proper, by omega, inner⟩

theorem Sits.join (h : Sits lo hi p os) (h' : Sits lo hi q os') : Sits lo hi (Extent.join p q) (os ++ os') := by
  refine ⟨h.le, ?_⟩
  rcases h.cases with ⟨rfl, rfl⟩ | ⟨e, rfl, start, proper, stop, inner⟩
  · exact h'.cases
  rcases h'.cases with ⟨rfl, rfl⟩ | ⟨e', rfl, start', proper', stop', inner'⟩
  · exact .inr ⟨e, rfl, start, proper, stop, by rwa [List.append_nil]⟩
  · refine .inr ⟨e.cover e', rfl, Nat.le_min.2 ⟨start, start'⟩, ?_, Nat.max_le.2 ⟨stop, stop'⟩,
      housed_append.2 ⟨?_, ?_⟩⟩
    · exact (Nat.min_le_left _ _).trans (proper.trans (Nat.le_max_left _ _))
    · exact inner.mono (Nat.min_le_left _ _) (Nat.le_max_left _ _)
    · exact inner'.mono (Nat.min_le_right _ _) (Nat.le_max_right _ _)

theorem Sits.append (h : Sits lo mid p os) (h' : Sits mid hi q os') :
    Sits lo hi (Extent.join p q) (os ++ os') :=
  (h.mono le_rfl h'.le).join (h'.mono h.le le_rfl)

theorem Sits.exists (h : Sits lo hi p os) (any : os ≠ []) :
    ∃ e, p = some e ∧ lo ≤ e.start ∧ e.start ≤ e.stop ∧ e.stop ≤ hi ∧ Housed e os :=
  h.cases.resolve_left fun none => any none.2

theorem Sits.housed (h : Sits lo hi p os) : Housed ⟨lo, hi⟩ os := by
  rcases h.cases with ⟨-, rfl⟩ | ⟨e, -, start, -, stop, inner⟩
  · exact housed_nil
  · exact inner.mono start stop

theorem Sits.isSome_place (h : Sits lo hi p os) (any : os ≠ []) : p.isSome := by
  obtain ⟨e, rfl, -⟩ := h.exists any
  rfl

theorem Sits.of_subset (h : Sits lo hi p os) (any : os ≠ []) (sub : os' ⊆ os) : Sits lo hi p os' := by
  obtain ⟨e, rfl, start, proper, stop, inner⟩ := h.exists any
  exact ⟨h.le, .inr ⟨e, rfl, start, proper, stop, fun o ho => inner o (sub ho)⟩⟩

theorem Sits.and_housed (h : Sits lo hi p os) (any : os ≠ []) (more : ∀ e ∈ p, Housed e os') :
    Sits lo hi p (os ++ os') := by
  obtain ⟨e, rfl, start, proper, stop, inner⟩ := h.exists any
  exact ⟨h.le, .inr ⟨e, rfl, start, proper, stop, housed_append.2 ⟨inner, more e rfl⟩⟩⟩

/-- A node that covers its parts, some of which are its children. -/
theorem Sits.node (kind : String) (attributes : List (String × Attribute)) (children : List Outline)
    (h : Sits lo hi p os) (any : os ≠ []) (inner : ∀ e, Housed e os → children.Forall (Outline.Nests e)) :
    Sits lo hi p [(.node kind · p attributes children)] := by
  obtain ⟨e, rfl, start, proper, stop, all⟩ := h.exists any
  exact ⟨h.le, .inr ⟨e, rfl, start, proper, stop,
    housed_cons.2 ⟨fun _ => Outline.nests_self proper (inner e all), housed_nil⟩⟩⟩

end Sitting

section Outlines
open Outline

def guardOutline (tag binding : Name) (p : Place) (field : String) : Outline :=
  .node "CaseGuard" field p [] [ofName "Tag" tag, ofName "Binding" binding]

def caseOutline (c : Case) (field : String) : Outline :=
  .node "Case" field c.place [] [guardOutline c.tag c.binding c.guardPlace "Guard", ofBlock "Body" false c.body]

def Param.outlines (p : Param) : Outlines :=
  (ofName · p.name) :: p.type.toList.map fun t => (ofType · t)

def TypeParam.outlines (p : TypeParam) : Outlines := [(ofName · p.name), (ofName · p.constraint)]

def Several.outlines {α : Type} (outlines : α → Outlines) (xs : Several α) :
    Outlines := xs.toList.flatMap outlines

open Nonterminal in
/-- The outlines of what is in a meaning, whichever field they stand in. -/
def Meaning.outlines : (n : Nonterminal) → Meaning n → Outlines
  | code, (b : Block) | statements, (b : Block) => if b.place.isSome then [(ofBlock · false b)] else []
  | block, b => [(ofBlock · false b)]
  | statement, s | statementBody, s | leave, s | destructure, s | typedef, s | genericTypedef, s
  | log, s | function, s => [(ofStatement · s)]
  | statementBody?, s => (Option.toList s).map fun s => (ofStatement · s)
  | constWord, t | leaveWord, t | switchWord, t | fieldEnd, t => [(ofName · (nameOf t))]
  | const, d => [(ofDefinition · d)]
  | assertion?, t => (Option.toList t).map fun t => (ofType · t)
  | assertion, t | logic, t | implication, t | disjunction, t | conjunction, t | equation, t
  | typeSum, t | typeProduct, t | negation, t | typeAtom, t => [(ofType · t)]
  | rename, (r : Rename) => (ofName · r.field) :: r.new.toList.map fun x => (ofName · x)
  | typeParams, ps => Several.outlines TypeParam.outlines ps
  | typeParam, p => TypeParam.outlines p
  | args, es => Several.outlines (fun e => [(ofExpr · e)]) es
  | loop, l => [(ofLoop · l)]
  | comparison, (c : Comparison) =>
    [(.node "Compare" · c.place [] [ofName "Left" c.left, ofExpr "Right" c.right])]
  | increment, (i : Increment) => [(.node "Increment" · i.place [] [ofName "Var" i.name])]
  | switch, s => [(ofSwitch · s)]
  | cases, cs => List.map caseOutline cs
  | case, c => [caseOutline c]
  | caseGuard, (g : Guard) => [guardOutline g.tag g.binding g.place]
  | typedParams, ps | params, ps => Several.outlines Param.outlines ps
  | typedParam, p | param, p => Param.outlines p
  | logicList, ts => Several.outlines (fun t => [(ofType · t)]) ts
  | expr, e | arith, e | ascription, e | abstraction, e | lambdaBody, e | lambda, e | conjunct, e
  | sum, e | product, e | application, e | inst, e | atom, e | record, e | tagged, e => [(ofExpr · e)]
  | head, (h : Head) =>
    Several.outlines Param.outlines ⟨h.first, h.others⟩ ++ h.result.toList.map fun t => (ofType · t)

open Nonterminal in
/-- What the place of a meaning alone does not say: statements that are nowhere are none, arguments are
somewhere, and the result type of a function comes behind its parameters. -/
def Meaning.Arranged : (n : Nonterminal) → Meaning n → Prop
  | code, (b : Block) | statements, (b : Block) => b.place = none → b.statements = []
  | args, es => ∀ e ∈ Several.toList es, (Expr.place e).isSome
  | head, (h : Head) => ∀ t ∈ h.result, ∀ q ∈ h.first :: h.others, ∀ x ∈ q.name.place, ∀ y ∈ t.place,
    x.start ≤ y.start
  | _, _ => True

def Meaning.Nests (lo hi : Nat) (n : Nonterminal) (v : Meaning n) : Prop :=
  Sits lo hi (Meaning.place n v) (Meaning.outlines n v) ∧ Meaning.Arranged n v

end Outlines

def IfOk {α : Type} (good : α → Prop) : Except BadTag α → Prop
  | .ok v => good v
  | .error _ => True

theorem ifOk_iff {α : Type} {good : α → Prop} {r : Except BadTag α} : IfOk good r ↔ ∀ v, r = .ok v → good v := by
  cases r <;> simp [IfOk]

/-- What a production builds from parts that nest in stretches one behind the other nests too. -/
def Settles {α : Type} (good : Nat → Nat → α → Prop) : (rhs : List Part) →
    Builder rhs (Place → Except BadTag α) → Nat → Nat → Place → Outlines → Prop
  | [], f, lo, hi, p, os => Sits lo hi p os → IfOk (good lo hi) (f p)
  | .token _ :: rest, f, lo, mid, p, os => ∀ (t : Token) (hi : Nat),
    Sits mid hi (some t.extent) [(Outline.ofName · (nameOf t))] →
      Settles good rest (f t) lo hi (Extent.join p (some t.extent)) (os ++ [(Outline.ofName · (nameOf t))])
  | .phrase n :: rest, f, lo, mid, p, os => ∀ (u : Meaning n) (hi : Nat), Meaning.Nests mid hi n u →
    Settles good rest (f u) lo hi (Extent.join p (Meaning.place n u)) (os ++ Meaning.outlines n u)

def Production.Settles (p : Production) : Prop :=
  ∀ lo, Syntax.Settles (fun lo hi => Meaning.Nests lo hi p.lhs) p.rhs p.build lo lo none []

section Builders
open Outline

variable {lo lo' mid mid' hi i : Nat} {p : Place} {os : Outlines} {e E : Extent} {α : Type} {place : α → Place}
  {g : α → Outlines} {q : Param} {qs : List Param} {t : TypeExpr} {body : Expr} {b : Block}

theorem forall_numbered {g : Nat → List α → List Outline} {outline : String → α → Outline} {label : String}
    (nil : ∀ i, g i [] = []) (cons : ∀ i x xs, g i (x :: xs) = outline (numbered label i) x :: g (i + 1) xs)
    {xs : List α} (h : ∀ x ∈ xs, ∀ field, (outline field x).Nests e) (i : Nat) : (g i xs).Forall (Nests e) := by
  induction xs generalizing i with
  | nil => simp [nil]
  | cons x xs ih =>
    obtain ⟨first, others⟩ := forall_mem_cons.1 h
    rw [cons]
    exact (List.forall_cons _ _ _).2 ⟨first _, ih others (i + 1)⟩

@[simp] theorem housed_several {xs : Several α} : Housed e (xs.outlines g) ↔ ∀ x ∈ xs.toList, Housed e (g x) := by
  simp only [Housed, Several.outlines, List.mem_flatMap]
  exact ⟨fun h x hx o ho => h o ⟨x, hx, ho⟩, fun h o ⟨x, hx, ho⟩ => h x hx o ho⟩

theorem Sits.one {x : α} (h : Sits lo hi (place x) (g x)) :
    Sits lo hi (Several.cover place ⟨x, []⟩) (Several.outlines g ⟨x, []⟩) := by
  simpa [Several.cover, Several.outlines, Several.toList] using h

theorem Sits.push {xs : Several α} {x : α} (h : Sits lo mid (xs.cover place) (xs.outlines g))
    (le : mid ≤ mid') (h' : Sits mid' hi (place x) (g x)) :
    Sits lo hi ((xs.push x).cover place) ((xs.push x).outlines g) := by
  have cover : (xs.push x).cover place = Extent.join (xs.cover place) (place x) := by
    simp [Several.cover, Several.push]
  have outlines : (xs.push x).outlines g = xs.outlines g ++ g x := by
    simp [Several.outlines, Several.toList, Several.push]
  rw [cover, outlines]
  exact (h.mono le_rfl le).append h'

/-- A part knows its place by itself. -/
theorem sits_of_nests {outline : String → Outline} {kind : String} {attributes : List (String × Attribute)}
    {children : List Outline} (shape : ∀ field, outline field = .node kind field p attributes children)
    (other : kind ≠ "Case") (placed : p.isSome) (h : ∀ field, (outline field).Nests E) :
    Sits E.start E.stop p [outline] := by
  obtain ⟨x, rfl⟩ := Option.isSome_iff_exists.1 placed
  obtain ⟨start, proper, stop, inner⟩ := (nests_placed other).1 (shape "" ▸ h "")
  refine ⟨start.trans (proper.trans stop), .inr ⟨x, rfl, start, proper, stop, ?_⟩⟩
  exact housed_cons.2 ⟨fun field => shape field ▸ .placed le_rfl proper le_rfl inner, housed_nil⟩

theorem sits_name {n : Name} (h : ∀ field, (ofName field n).Nests E) :
    Sits E.start E.stop n.place [(ofName · n)] :=
  sits_of_nests (fun _ => rfl) (by decide) ((h "").isSome_place (by decide) (by decide)) h

theorem sits_type (h : ∀ field, (ofType field t).Nests E) : Sits E.start E.stop t.place [(ofType · t)] := by
  cases t <;> exact sits_of_nests (fun _ => rfl) (by decide) ((h "").isSome_place (by decide) (by decide)) h

theorem sits_param (proper : E.start ≤ E.stop) (h : Housed E q.outlines) :
    Sits E.start E.stop q.place q.outlines := by
  obtain ⟨name, type⟩ := q
  obtain ⟨named, typed⟩ := housed_cons.1 h
  cases type with
  | none => exact (sits_name named).join ⟨proper, .inl ⟨rfl, rfl⟩⟩
  | some t => exact (sits_name named).join (sits_type (housed_cons.1 typed).1)

section Moving

variable {α : Type} {outline : String → α → Outline} {place : α → Place} {move : Place → α → α} {x : α}

def Moves (outline : String → α → Outline) (place : α → Place) (move : Place → α → α) (x : α) : Prop :=
  ∃ kind attributes children, kind ≠ "Case" ∧
    (∀ field, outline field x = .node kind field (place x) attributes children) ∧
    ∀ p, place (move p x) = p ∧ ∀ field, outline field (move p x) = .node kind field p attributes children

theorem Sits.moved (moves : Moves outline place move x) (h : Sits lo hi p os) (mem : (outline · x) ∈ os) :
    Sits lo hi (place (move p x)) [(outline · (move p x))] := by
  obtain ⟨kind, attributes, children, other, still, moved⟩ := moves
  simp only [moved]
  exact h.node kind attributes children (List.ne_nil_of_mem mem) fun e all =>
    (still "" ▸ all _ mem "").children other

end Moving

theorem type_moves (t : TypeExpr) : Moves ofType TypeExpr.place TypeExpr.withPlace t := by
  cases t with
  | name n => exact ⟨_, [("Name", .text n.text)], _, by decide, fun _ => rfl, fun _ => ⟨rfl, fun _ => rfl⟩⟩
  | _ => exact ⟨_, _, _, by decide, fun _ => rfl, fun _ => ⟨rfl, fun _ => rfl⟩⟩

theorem expr_moves (e : Expr) : Moves ofExpr Expr.place Expr.withPlace e := by
  cases e with
  | name n => exact ⟨_, [("Name", .text n.text)], _, by decide, fun _ => rfl, fun _ => ⟨rfl, fun _ => rfl⟩⟩
  | loop l | switch l | block l =>
    cases l
    exact ⟨_, _, _, by decide, fun _ => rfl, fun _ => ⟨rfl, fun _ => rfl⟩⟩
  | _ => exact ⟨_, _, _, by decide, fun _ => rfl, fun _ => ⟨rfl, fun _ => rfl⟩⟩

theorem statement_moves (s : Statement) : Moves ofStatement Statement.place Statement.withPlace s := by
  cases s with
  | define d | switch d =>
    cases d
    exact ⟨_, _, _, by decide, fun _ => rfl, fun _ => ⟨rfl, fun _ => rfl⟩⟩
  | _ => exact ⟨_, _, _, by decide, fun _ => rfl, fun _ => ⟨rfl, fun _ => rfl⟩⟩

theorem named_nests (h : Housed e q.outlines) (field : String) : (ofName field q.name).Nests e :=
  (housed_cons.1 h).1 field

theorem domain_nests (h : Housed e q.outlines) (other : ∀ field, (ofType field t).Nests e) (field : String) :
    (ofType field (q.type.getD t)).Nests e := by
  obtain ⟨name, type⟩ := q
  cases type with
  | none => exact other field
  | some u => exact (housed_cons.1 (housed_cons.1 h).2).1 field

@[simp] theorem housed_option {x : Option α} {g : α → String → Outline} :
    Housed e (x.toList.map g) ↔ ∀ y ∈ x, ∀ field, (g y field).Nests e := by
  cases x <;> simp

@[simp] theorem forall_option {x : Option α} {g : α → Outline} :
    (x.map g).toList.Forall (Nests e) ↔ ∀ y ∈ x, (g y).Nests e := by
  cases x <;> simp

theorem outlines_ne_nil : q.outlines ≠ [] := cons_ne_nil _ _

theorem arrows_nest (proper : E.start ≤ E.stop) (codomain : ∀ field, (ofType field t).Nests E)
    (params : ∀ r ∈ q :: qs, Housed E r.outlines) :
    (arrows t (some E) q qs).place = some E ∧ ∀ field, (ofType field (arrows t (some E) q qs)).Nests E := by
  induction qs generalizing q with
  | nil =>
    have first := params q (mem_singleton_self q)
    refine ⟨rfl, fun field => nests_self proper ?_⟩
    simp [named_nests first, domain_nests first codomain, codomain]
  | cons r rs ih =>
    obtain ⟨first, others⟩ := forall_mem_cons.1 params
    obtain ⟨whole, inner⟩ := ih others
    obtain ⟨x, place, start, -, stop, -⟩ := (sits_param proper first).exists outlines_ne_nil
    have covered : Extent.join q.place (arrows t (some E) r rs).place = some E := by
      rw [whole, place]
      exact congrArg some (congrArg₂ Extent.mk (Nat.min_eq_right start) (Nat.max_eq_right stop))
    refine ⟨covered, fun field => ?_⟩
    rw [arrows, covered]
    refine nests_self proper ?_
    simp [named_nests first, domain_nests first codomain, inner]

theorem calls_sit {closing : Place} {f x : Expr} {xs : List Expr} (close : Sits lo hi closing os)
    (fn : Sits lo hi f.place [(ofExpr · f)]) (args : ∀ e ∈ x :: xs, Sits lo hi e.place [(ofExpr · e)]) :
    Sits lo hi (calls closing f x xs).place [(ofExpr · (calls closing f x xs))] := by
  induction xs generalizing f x with
  | nil =>
    have whole := (fn.join (args x (mem_singleton_self x))).join close
    exact whole.node "Call" [] _ (by simp) (by simp +contextual)
  | cons y ys ih =>
    obtain ⟨first, others⟩ := forall_mem_cons.1 args
    exact ih ((fn.join first).node "Call" [] _ (by simp) (by simp +contextual)) others

/-- The body of a function comes behind its parameters and its result type. The innermost function has
the result type, and so starts at a parameter before it. -/
theorem curry_sits {result : Option TypeExpr} {B : Extent} (proper : E.start ≤ E.stop)
    (behind : E.stop ≤ B.start) (params : ∀ r ∈ q :: qs, Housed E r.outlines)
    (typed : ∀ t ∈ result, ∀ field, (ofType field t).Nests E)
    (order : ∀ t ∈ result, ∀ r ∈ q :: qs, ∀ x ∈ r.name.place, ∀ y ∈ t.place, x.start ≤ y.start)
    (placed : body.place = some B) (inner : Sits B.start B.stop body.place [(ofExpr · body)]) :
    Sits E.start B.stop (curry result body q qs).place [(ofExpr · (curry result body q qs))] := by
  have part {r : Param} (h : Housed E r.outlines) : Sits E.start B.stop r.place r.outlines :=
    (sits_param proper h).mono le_rfl (behind.trans inner.le)
  induction qs generalizing q with
  | nil =>
    have first := params q (mem_singleton_self q)
    have whole := (part first).join (inner.mono (proper.trans behind) le_rfl)
    have more : ∀ e ∈ Extent.join q.place body.place, Housed e (result.toList.map fun t => (ofType · t)) := by
      intro e he
      obtain ⟨x, hx, -, -, -, housed⟩ := (sits_param proper first).exists outlines_ne_nil
      obtain ⟨n, hn, before, -⟩ := (sits_name (named_nests housed)).exists (cons_ne_nil _ _)
      cases result with
      | none => exact housed_nil
      | some t =>
        obtain ⟨y, hy, -, -, stop, nests⟩ := (sits_type (typed t rfl)).exists (cons_ne_nil _ _)
        have := order t rfl q (mem_singleton_self q) n hn y hy
        have := inner.le
        rw [hx, placed] at he
        cases he
        exact nests.mono ((Nat.min_le_left _ _).trans (by omega)) (.trans (by omega) (Nat.le_max_right _ _))
    refine (whole.and_housed (by simp) more).node "Lambda" [] _ (by simp) ?_
    simp +contextual [Param.outlines, ofType?]
  | cons r rs ih =>
    obtain ⟨first, others⟩ := forall_mem_cons.1 params
    have rest := ih others fun t ht r hr => order t ht r (List.mem_cons_of_mem _ hr)
    refine ((part first).join rest).node "Lambda" [] _ (by simp) ?_
    simp +contextual [Param.outlines, ofType?]

theorem apply_sits {h : Head} (head : Meaning.Nests lo mid .head h) (le : mid ≤ mid')
    (inner : Sits mid' hi body.place [(ofExpr · body)]) :
    Sits lo hi (h.apply body).place [(ofExpr · (h.apply body))] := by
  obtain ⟨sits, order⟩ := head
  obtain ⟨E, placed, start, proper, stop, all⟩ := sits.exists (by
    simp [Meaning.outlines, Several.outlines, Several.toList, Param.outlines])
  obtain ⟨B, placed', start', proper', stop', all'⟩ := inner.exists (cons_ne_nil _ _)
  obtain ⟨params, typed⟩ := housed_append.1 all
  have params : ∀ q ∈ h.first :: h.others, Housed E q.outlines := housed_several.1 params
  have curried : Sits E.start B.stop _ [(ofExpr · (curry h.result body h.first h.others))] :=
    curry_sits proper (stop.trans (le.trans start')) params (housed_option.1 typed) order placed'
      ⟨proper', .inr ⟨B, placed', le_rfl, proper', le_rfl, all'⟩⟩
  obtain ⟨x, -, after, -, before, nests⟩ := curried.exists (cons_ne_nil _ _)
  have whole := (sits.mono le_rfl le).append inner
  refine (whole.and_housed (by simp) fun e he => ?_).moved (expr_moves _)
    (List.mem_append_right _ (mem_singleton_self _))
  rw [show Meaning.place .head h = some E from placed, placed'] at he
  cases he
  exact nests.mono ((Nat.min_le_left _ _).trans after) (before.trans (Nat.le_max_right _ _))

theorem apply_place {h : Head} : (h.apply body).place = Extent.join h.place body.place := by
  obtain ⟨_, _, _, -, -, moved⟩ := expr_moves (curry h.result body h.first h.others)
  exact (moved _).1

theorem sits_expr {x : Expr} (placed : x.place.isSome) (h : ∀ field, (ofExpr field x).Nests E) :
    Sits E.start E.stop x.place [(ofExpr · x)] := by
  obtain ⟨_, _, _, other, still, -⟩ := expr_moves x
  exact sits_of_nests still other placed h

@[simp] theorem types_nest {ts : List TypeExpr} (h : ∀ t ∈ ts, ∀ field, (ofType field t).Nests e) :
    (ofTypes i ts).Forall (Nests e) :=
  forall_numbered (fun _ => rfl) (fun _ _ _ => rfl) h i

@[simp] theorem exprs_nest {es : List Expr} (h : ∀ x ∈ es, ∀ field, (ofExpr field x).Nests e) :
    (ofExprs i es).Forall (Nests e) :=
  forall_numbered (fun _ => rfl) (fun _ _ _ => rfl) h i

@[simp] theorem cases_nest {cs : List Case} (h : Housed e (cs.map caseOutline)) :
    (ofCases i cs).Forall (Nests e) :=
  forall_numbered (fun _ => rfl) (fun _ c _ => by cases c; rfl) (fun _ hc => h _ (List.mem_map_of_mem hc)) i

@[simp] theorem typeParams_nest {ps : List TypeParam} (h : ∀ q ∈ ps, Housed e q.outlines) :
    (ps.mapIdx ofTypeParam).Forall (Nests e) := by
  rw [List.forall_iff_forall_mem]
  intro c hc
  obtain ⟨i, lt, rfl⟩ := List.mem_mapIdx.1 hc
  simp_all [TypeParam.outlines, ofTypeParam]

@[simp] theorem rename_nests {r : Rename} (old : ∀ field, (ofName field r.field).Nests e)
    (new : ∀ x ∈ r.new, ∀ field, (ofName field x).Nests e) : (ofRename i r).Nests e := by
  simp_all [ofRename]

theorem ofStatements_concat (i : Nat) (ss : List Statement) (s : Statement) :
    ofStatements i (ss ++ [s]) = ofStatements i ss ++ [ofStatement (numbered "Stmts" (i + ss.length)) s] := by
  induction ss generalizing i with
  | nil => rfl
  | cons _ ss ih => simp [ofStatements, ih, Nat.add_comm, Nat.add_left_comm]

/-- Statements without braces, which are nowhere if there are none. -/
theorem statements_nest (arranged : b.place = none → b.statements = [])
    (h : Housed e (Meaning.outlines .statements b)) : (ofStatements 0 b.statements).Forall (Nests e) ∧
      (b = ⟨[], none⟩ ∨ ∀ field top, (ofBlock field top b).Nests e) := by
  obtain ⟨ss, place⟩ := b
  cases place with
  | none =>
    obtain rfl : ss = [] := arranged rfl
    exact ⟨trivial, .inl rfl⟩
  | some x =>
    have nests : Nests e (.node "Block" "" (some x) _ (ofStatements 0 ss)) := (housed_cons.1 h).1 ""
    obtain ⟨start, proper, stop, inner⟩ := (nests_placed (by decide)).1 nests
    exact ⟨nests.children (by decide), .inr fun _ _ => .placed start proper stop inner⟩

theorem push_nests {s : Statement} (h : Meaning.Nests lo mid .statements b)
    (h' : Sits mid hi s.place [(ofStatement · s)]) : Meaning.Nests lo hi .statements (b.push s) := by
  have sits := h.1.append h'
  have placed : (b.push s).place.isSome := sits.isSome_place (by simp)
  refine ⟨?_, fun gone => by simp [gone] at placed⟩
  rw [show Meaning.outlines .statements (b.push s) = [(ofBlock · false (b.push s))] from if_pos placed]
  refine sits.node "Block" _ _ (by simp) fun e all => ?_
  obtain ⟨first, last⟩ := housed_append.1 all
  rw [ofStatements_concat, List.forall_append]
  exact ⟨(statements_nest h.2 first).1, (housed_cons.1 last).1 _⟩

theorem case_sits {g : Guard} (h : Sits lo hi p os) (guard : guardOutline g.tag g.binding g.place ∈ os)
    (body : Meaning.outlines .statements b ⊆ os) (arranged : b.place = none → b.statements = []) :
    Sits lo hi p [caseOutline ⟨g.tag, g.binding, g.place, b, p⟩] := by
  obtain ⟨e, rfl, start, proper, stop, all⟩ := h.exists (List.ne_nil_of_mem guard)
  have guarded := all _ guard "Guard"
  refine ⟨h.le, .inr ⟨e, rfl, start, proper, stop, housed_cons.2 ⟨fun field => ?_, housed_nil⟩⟩⟩
  rcases (statements_nest arranged fun o ho => all o (body ho)).2 with rfl | inner
  · exact .case le_rfl proper le_rfl guarded
  · exact nests_self proper ⟨guarded, inner "Body" false⟩

theorem cases_sit {cs : List Case} {c : Case}
    (h : Sits lo mid (Meaning.place .cases cs) (Meaning.outlines .cases cs))
    (h' : Sits mid hi c.place [caseOutline c]) :
    Sits lo hi (Meaning.place .cases (cs ++ [c])) (Meaning.outlines .cases (cs ++ [c])) := by
  simpa [Meaning.place, Meaning.outlines] using h.append h'

theorem arrows_sit {qs : Several Param} (h : Sits lo hi p os) (type : (ofType · t) ∈ os)
    (params : Meaning.outlines .typedParams qs ⊆ os) :
    Meaning.Nests lo hi .implication (arrows t p qs.first qs.others) := by
  obtain ⟨e, rfl, start, proper, stop, all⟩ := h.exists (List.ne_nil_of_mem type)
  have housed : ∀ q ∈ qs.toList, Housed e q.outlines := housed_several.1 fun o ho => all o (params ho)
  obtain ⟨place, nests⟩ := arrows_nest proper (all _ type) housed
  exact ⟨⟨h.le, .inr ⟨e, place, start, proper, stop, housed_cons.2 ⟨nests, housed_nil⟩⟩⟩, trivial⟩

theorem head_nests {qs : Several Param} {t : Option TypeExpr} {hi' : Nat} (h : Sits lo' hi' p os)
    (sub : Meaning.outlines .params qs ++ Meaning.outlines .assertion? t ⊆ os)
    (params : Sits lo mid (Meaning.place .params qs) (Meaning.outlines .params qs)) (le : mid ≤ mid')
    (type : Sits mid' hi (Meaning.place .assertion? t) (Meaning.outlines .assertion? t)) :
    Meaning.Nests lo' hi' .head ⟨qs.first, qs.others, t, p⟩ := by
  have any : Meaning.outlines .params qs ≠ [] := by
    simp [Meaning.outlines, Several.outlines, Several.toList, Param.outlines]
  have full : os ≠ [] := fun none => any (List.append_eq_nil_iff.1 (List.subset_nil.1 (none ▸ sub))).1
  refine ⟨h.of_subset full sub, ?_⟩
  rintro u ⟨⟩ q hq x hx y hy
  obtain ⟨e, -, -, -, before, all⟩ := params.exists any
  have named := sits_name (named_nests (housed_several.1 all q hq))
  obtain ⟨x', hx', -, proper, stop, -⟩ := named.exists (cons_ne_nil _ _)
  obtain ⟨y', hy', start, -⟩ := type.exists (cons_ne_nil _ _)
  obtain rfl : x = x' := Option.some.inj (hx.symm.trans hx')
  obtain rfl : y = y' := Option.some.inj (hy.symm.trans hy')
  omega

theorem function_nests {word x : Token} {h : Head}
    (first : Sits lo lo' (some word.extent) [(ofName · (nameOf word))])
    (name : Sits lo' mid (some x.extent) [(ofName · (nameOf x))]) (head : Meaning.Nests mid mid' .head h)
    (body : Sits mid' hi b.place [(ofBlock · false b)]) :
    Meaning.Nests lo hi .function (.define ⟨nameOf x, none, h.apply (.block b),
      Extent.join (Extent.join (Extent.join (some word.extent) (some x.extent)) h.place) b.place⟩) := by
  have value : Sits mid hi (h.apply (.block b)).place _ := apply_sits head le_rfl body
  have whole := (first.append name).append value
  rw [apply_place, ← join_assoc] at whole
  exact ⟨whole.node "Const" [] _ (by simp) (by simp +contextual [ofType?]), trivial⟩

theorem record_sits {x y : Token} {v w : Expr} (h : Sits lo hi p os)
    (sub : [(ofName · (nameOf x)), (ofExpr · v), (ofName · (nameOf y)), (ofExpr · w)] ⊆ os) :
    Sits lo hi (recordOf x v y w p).place [(ofExpr · (recordOf x v y w p))] := by
  have parts := h.of_subset (List.ne_nil_of_mem (sub List.mem_cons_self)) sub
  unfold recordOf
  split
  · exact parts.node "Pair" [] _ (by simp) (by simp +contextual)
  split
  · exact parts.node "Pair" [] _ (by simp) (by simp +contextual)
  · exact parts.node "Struct" [] _ (by simp) (by simp +contextual)

/-- The function that a tag stands for is where the tag is. -/
theorem tagged_sits {tag : Token} {v made : Expr} (h : Sits lo hi p os)
    (sub : [(ofName · (nameOf tag)), (ofExpr · v)] ⊆ os) (ok : taggedOf tag v p = .ok made) :
    Sits lo hi made.place [(ofExpr · made)] := by
  have parts := h.of_subset (List.ne_nil_of_mem (sub List.mem_cons_self)) sub
  have inject (fn : String) : Sits lo hi p [(ofExpr · (.call (.name ⟨fn, some tag.extent⟩) v p))] := by
    refine parts.node "Call" [] _ (by simp) fun e all => ?_
    obtain ⟨named, value⟩ := housed_cons.1 all
    obtain ⟨x, placed, start, proper, stop, -⟩ := (sits_name named).exists (cons_ne_nil _ _)
    obtain rfl : tag.extent = x := Option.some.inj placed
    exact ⟨.placed start proper stop (forall_mem_nil _), (housed_cons.1 value).1 "Arg"⟩
  unfold taggedOf at ok
  split at ok
  · cases ok
    exact inject "makeLeft"
  split at ok
  · cases ok
    exact inject "makeRight"
  · cases ok

theorem typeProductions_settle : ∀ p ∈ typeProductions, p.Settles := by
  simp only [typeProductions, forall_mem_cons]
  and_intros
  -- what is passed on, lists and nodes
  all_goals try exact fun _ _ _ h _ => h
  all_goals try exact fun _ _ _ hxs _ _ comma _ _ hx _ => ⟨hxs.1.push comma.le hx.1, trivial⟩
  all_goals try
    repeat intro
    refine ⟨Sits.node _ _ _ (by assumption) (by simp) ?_, trivial⟩
    simp +contextual [Meaning.outlines]
  · intro lo _ _ _ ps _ _ _ _ _ _ _ _ t _ _ sits
    exact arrows_sit sits (by simp [Meaning.outlines]) (by simp)
  · exact fun _ _ _ h _ => ⟨h.1.one, trivial⟩
  · exact fun _ _ _ hx _ _ ht _ => ⟨hx.append ht.1, trivial⟩
  · exact fun _ _ _ _ t _ _ _ _ _ h => ⟨h.moved (type_moves t) (by simp [Meaning.outlines]), trivial⟩
  · exact forall_mem_nil _

theorem statementProductions_settle : ∀ p ∈ statementProductions, p.Settles := by
  simp only [statementProductions, forall_mem_cons]
  and_intros
  all_goals try exact fun _ _ _ h _ => h
  all_goals try exact fun _ h => ⟨h, trivial⟩
  all_goals try exact fun _ _ _ hxs _ _ comma _ _ hx _ => ⟨hxs.1.push comma.le hx.1, trivial⟩
  all_goals try exact fun _ _ _ hx _ _ mark _ _ hy _ => ⟨(hx.mono le_rfl mark.le).append hy, trivial⟩
  all_goals try
    repeat intro
    refine ⟨Sits.node _ _ _ (by assumption) (by simp [Meaning.outlines]) ?_, trivial⟩
    simp +contextual [Meaning.outlines, ofType?]
    done
  · exact fun _ h => ⟨h, fun _ => rfl⟩
  · exact fun _ _ _ statements _ _ statement _ => push_nests statements statement.1
  · intro lo s _ _ _ _ _ sits
    rcases (s : Option Statement) with _ | s
    · exact ⟨sits.node "Empty" [] [] (by simp) fun _ _ => trivial, trivial⟩
    · exact ⟨sits.moved (statement_moves s) (by simp [Meaning.outlines]), trivial⟩
  · exact fun _ _ _ colon _ _ ht _ => ⟨ht.1.mono colon.le le_rfl, trivial⟩
  · exact fun _ _ _ h _ => ⟨h.1, forall_mem_cons.2 ⟨h.1.isSome_place (cons_ne_nil _ _), forall_mem_nil _⟩⟩
  · intro lo xs _ hxs _ _ comma x _ hx _
    refine ⟨hxs.1.push comma.le hx.1, forall_mem_append.2 ⟨hxs.2, ?_⟩⟩
    exact forall_mem_cons.2 ⟨hx.1.isSome_place (cons_ne_nil _ _), forall_mem_nil _⟩
  · intro lo cs _ cases c _ case _
    exact ⟨cases_sit cases.1 case.1, trivial⟩
  · intro lo _ _ _ g _ guard _ _ _ b _ body sits
    exact ⟨case_sits sits (by simp [Meaning.outlines]) (List.subset_append_right _ _) body.2, trivial⟩
  · intro lo _ _ _ b _ body _ _ _ sits
    refine ⟨sits.node _ _ _ (by simp) fun e all => ?_, trivial⟩
    exact (statements_nest body.2 fun o ho => all o (by simp [ho])).1
  · exact forall_mem_nil _

theorem exprProductions_settle : ∀ p ∈ exprProductions, p.Settles := by
  simp only [exprProductions, forall_mem_cons]
  and_intros
  all_goals try exact fun _ _ _ h _ => h
  all_goals try exact fun _ _ _ hxs _ _ comma _ _ hx _ => ⟨hxs.1.push comma.le hx.1, trivial⟩
  all_goals try
    repeat intro
    refine ⟨Sits.node _ _ _ (by assumption) (by simp [Meaning.outlines]) ?_, trivial⟩
    simp +contextual [Meaning.outlines, ofType?]
    done
  · intro lo x _ hx t _ ht _
    rcases (t : Option TypeExpr) with _ | t <;> exact ⟨hx.append ht.1, trivial⟩
  · exact fun _ _ _ h _ => ⟨h.1.one, trivial⟩
  · intro lo _ _ _ ps _ params _ _ paren t _ type sits
    refine head_nests sits (fun o ho => ?_) params.1 paren.le type.1
    rcases List.mem_append.1 ho with ho | ho <;> simp [ho]
  · exact fun _ _ _ head _ _ arrow _ _ body _ => ⟨apply_sits head arrow.le body.1, trivial⟩
  · exact fun _ _ _ word _ _ name _ _ head _ _ body _ => function_nests word name head body.1
  · intro lo f _ fn _ _ paren es _ args close _ closing sits
    obtain ⟨E, -, start, proper, stop, all⟩ := args.1.exists (by
      simp [Meaning.outlines, Several.outlines, Several.toList])
    have := fn.1.le
    have := paren.le
    have := closing.le
    have each (x : Expr) (hx : x ∈ Several.toList es) : Sits lo _ x.place [(ofExpr · x)] :=
      (sits_expr (args.2 x hx) (housed_cons.1 (housed_several.1 all x hx)).1).mono (by omega)
        (stop.trans closing.le)
    have close := closing.mono (show lo ≤ _ by omega) le_rfl
    exact ⟨calls_sit close (fn.1.mono le_rfl (by omega)) each, trivial⟩
  · exact fun _ _ _ _ x _ _ _ _ _ h => ⟨h.moved (expr_moves x) (by simp [Meaning.outlines]), trivial⟩
  · intro lo _ _ _ x _ _ _ _ _ v _ _ _ _ _ y _ _ _ _ _ w _ _ _ _ _ sits
    exact ⟨record_sits sits (by simp [Meaning.outlines]), trivial⟩
  · intro lo _ _ _ x _ _ _ _ _ v _ _ _ _ _ sits
    exact ifOk_iff.2 fun made ok => ⟨tagged_sits sits (by simp [Meaning.outlines]) ok, trivial⟩
  · exact forall_mem_nil _

end Builders

/-- The tokens stand one behind the other, the last one up to the end. -/
def Ordered : Nat → List Token → Nat → Prop
  | lo, [], hi => lo = hi
  | lo, t :: rest, hi => lo ≤ t.extent.start ∧ t.extent.start ≤ t.extent.stop ∧ Ordered t.extent.stop rest hi

section Order

variable {lo hi : Nat} {ts us : List Token}

theorem Ordered.le (h : Ordered lo ts hi) : lo ≤ hi := by
  induction ts generalizing lo with
  | nil => exact Nat.le_of_eq h
  | cons t ts ih => exact h.1.trans (h.2.1.trans (ih h.2.2))

theorem Ordered.split (h : Ordered lo (ts ++ us) hi) : ∃ mid, Ordered lo ts mid ∧ Ordered mid us hi := by
  induction ts generalizing lo with
  | nil => exact ⟨lo, rfl, h⟩
  | cons t ts ih =>
    obtain ⟨mid, first, second⟩ := ih h.2.2
    exact ⟨mid, ⟨h.1, h.2.1, first⟩, second⟩

theorem ofLexemes_ordered {offset : Nat} (le : lo ≤ offset) (held : List Token.Trivia) (ls : List Token.Lexeme) :
    Ordered lo (Token.ofLexemes offset held ls) (offset + (ls.flatMap Token.Lexeme.text).length) := by
  induction ls generalizing lo offset held with
  | nil => exact ⟨le, le_rfl, rfl⟩
  | cons l ls ih =>
    obtain ⟨cls, text⟩ := l
    rw [List.flatMap_cons, List.length_append, ← Nat.add_assoc]
    cases cls with
    | spacing s => exact ih (le.trans (Nat.le_add_right _ _)) _
    | token k => exact ⟨le, Nat.le_add_right _ _, ih le_rfl []⟩

theorem words_ordered (content : Bytes) :
    ∃ hi ≤ content.length, Ordered 0 (words (Token.tokenize content)) hi := by
  obtain ⟨ts, stop, split, last, -⟩ := Token.ofLexemes_eq 0 [] (Token.lexemes content)
  have ordered := ofLexemes_ordered (Nat.le_refl 0) [] (Token.lexemes content)
  rw [split, Diagnostic.flatMap_text_lexemes, Nat.zero_add] at ordered
  obtain ⟨hi, first, second⟩ := ordered.split
  rw [Token.tokenize, split, words_concat last]
  exact ⟨hi, second.le, first⟩

/-- The parts of a production stand one behind the other. -/
theorem Fills.good {α : Type} {good : Nat → Nat → α → Prop} {rhs : List Part} {mid : Nat} {p : Place}
    {f : Builder rhs (Place → Except BadTag α)} {os : Outlines} {v : α}
    (settles : Settles good rhs f lo mid p os)
    (fills : Fills (fun n tokens u => ∀ lo hi, Ordered lo tokens hi → Meaning.Nests lo hi n u) rhs f p ts v)
    (sits : Sits lo mid p os) (ordered : Ordered mid ts hi) : good lo hi v := by
  induction rhs generalizing mid p os ts with
  | nil =>
    obtain ⟨rfl, ok⟩ := fills
    obtain rfl : mid = hi := ordered
    exact ifOk_iff.1 (settles sits) v ok
  | cons part rest ih =>
    cases part with
    | token k =>
      obtain ⟨t, others, rfl, -, tail⟩ := fills
      obtain ⟨start, proper, after⟩ := ordered
      have word : Sits mid t.extent.stop (some t.extent) [(Outline.ofName · (nameOf t))] := by
        refine ⟨start.trans proper, .inr ⟨t.extent, rfl, start, proper, le_rfl, ?_⟩⟩
        exact housed_cons.2 ⟨fun _ => Outline.nests_self proper trivial, housed_nil⟩
      exact ih (settles t _ word) tail (sits.append word) after
    | phrase n =>
      obtain ⟨first, others, u, rfl, nests, tail⟩ := fills
      obtain ⟨stop, before, after⟩ := ordered.split
      have part := nests mid stop before
      exact ih (settles u stop part) tail (sits.append part.1) after

end Order

theorem Builds.nests {n : Nonterminal} {tokens : List Token} {v : Meaning n} {lo hi : Nat}
    (h : Builds n tokens v) (ordered : Ordered lo tokens hi) : Meaning.Nests lo hi n v := by
  have all := forall_productions statementProductions_settle typeProductions_settle exprProductions_settle
  refine Builds.induction (motive := fun n tokens u => ∀ lo hi, Ordered lo tokens hi → Meaning.Nests lo hi n u)
    (fun p mem tokens u fills lo hi ordered => ?_) h lo hi ordered
  exact fills.good (all p mem lo) ⟨le_rfl, .inl ⟨rfl, rfl⟩⟩ ordered

/-- The nodes of what is read from a text are in the text, and a node is within its parent. -/
theorem places_nest {start : Start} {content : Bytes} {p : Phrase} (h : read start content = .ok p) :
    (Outline.ofPhrase p).Nests ⟨0, content.length⟩ := by
  obtain ⟨v, rfl, -, builds⟩ := read_eq_ok_iff.1 h
  obtain ⟨hi, le, ordered⟩ := words_ordered content
  obtain ⟨sits, arranged⟩ := builds.nests ordered
  have housed := (sits.mono le_rfl le).housed
  cases start with
  | program =>
    rcases (statements_nest arranged housed).2 with rfl | nests
    · exact .program
    · exact nests "" true
  | term | type => exact (housed_cons.1 housed).1 ""

def idle : Bytes := Bytes.ofString "x => { ; }"

theorem idle_nests : ∃ p, read .term idle = .ok p ∧ (Outline.ofPhrase p).Nests ⟨0, idle.length⟩ := by
  have reads : (read .term idle).toOption.any fun _ => true := by decide +kernel
  obtain ⟨p, h, -⟩ := exists_read reads
  exact ⟨p, h, places_nest h⟩

end Peano.Syntax
