import Peano.Proofs.Checking.Accepted
import Peano.Proofs.Formula.Substitution
namespace Peano
open List
open Bool (and_eq_true_iff and_eq_true)

namespace Syntax

mutual

/-- Whether a written type reads none of some names. -/
def TypeExpr.avoids (names : List String) : TypeExpr → Bool
  | .name x => !names.contains x.text
  | .numeral .. => true
  | .binary _ l r _ => l.avoids names && r.avoids names
  | .arrow _ d c _ => d.avoids names && c.avoids names
  | .record _ t _ u _ => t.avoids names && u.avoids names
  | .not t _ => t.avoids names
  | .call _ a _ => a.avoids names
  | .generic _ args _ => typesAvoid names args

def typesAvoid (names : List String) : List TypeExpr → Bool
  | [] => true
  | t :: rest => t.avoids names && typesAvoid names rest

end

def typeAvoids? (names : List String) : Option TypeExpr → Bool
  | some t => t.avoids names
  | none => true

mutual

/-- Whether a term reads none of some names. -/
def Expr.avoids (names : List String) : Expr → Bool
  | .name x => !names.contains x.text
  | .numeral .. => true
  | .arith _ l r _ => l.avoids names && r.avoids names
  | .lambda _ d r b _ => typeAvoids? names d && typeAvoids? names r && b.avoids names
  | .call f a _ => f.avoids names && a.avoids names
  | .emptyCall f _ => f.avoids names
  | .generic _ t _ => t.avoids names
  | .pair l r _ => l.avoids names && r.avoids names
  | .record _ v _ w _ => v.avoids names && w.avoids names
  | .ascribe x t _ => x.avoids names && t.avoids names
  | .member x _ _ => x.avoids names
  | .loop ⟨⟨_, _, i, _⟩, ⟨_, t, q, _⟩, _, bound, _, _, _, body, _⟩ =>
    i.avoids names && typeAvoids? names t && q.avoids names && bound.avoids names && body.avoids names
  | .switch s => s.avoids names
  | .block b => b.avoids names

def Block.avoids (names : List String) : Block → Bool
  | ⟨ss, _⟩ => statementsAvoid names ss

def Switch.avoids (names : List String) : Switch → Bool
  | ⟨subject, cases, _⟩ => subject.avoids names && casesAvoid names cases

def casesAvoid (names : List String) : List Case → Bool
  | [] => true
  | ⟨_, _, _, body, _⟩ :: rest => body.avoids names && casesAvoid names rest

def Statement.avoids (names : List String) : Statement → Bool
  | .define ⟨_, t, v, _⟩ => typeAvoids? names t && v.avoids names
  | .destructure _ _ v _ => v.avoids names
  | .leave _ _ v _ => v.avoids names
  | .typedef _ t _ => t.avoids names
  | .generic _ _ t _ => t.avoids names
  | .log args _ => termsAvoid names args
  | .empty _ => true
  | .switch s => s.avoids names

def statementsAvoid (names : List String) : List Statement → Bool
  | [] => true
  | s :: rest => s.avoids names && statementsAvoid names rest

def termsAvoid (names : List String) : List Expr → Bool
  | [] => true
  | e :: rest => e.avoids names && termsAvoid names rest

end

theorem avoids_case {names : List String} {cases : List Case} (h : casesAvoid names cases)
    {c : Case} (hc : c ∈ cases) : c.body.avoids names := by
  induction cases with
  | nil => cases hc
  | cons d rest ih =>
    obtain ⟨tag, x, guardPlace, body, place⟩ := d
    rw [casesAvoid, and_eq_true] at h
    rcases mem_cons.1 hc with rfl | hc
    · exact h.1
    · exact ih h.2 hc

theorem Switch.avoids_iff {names : List String} {s : Switch} :
    s.avoids names ↔ s.subject.avoids names ∧ casesAvoid names s.cases := by
  cases s
  rw [avoids, and_eq_true]

/-- Whether a block hands over a value, and does not fall off its end. -/
def leaves : List Statement → Bool
  | [] => false
  | .leave .. :: _ => true
  | .switch _ :: _ => true
  | _ :: rest => leaves rest

end Syntax

/-- Nothing in scope has `any` in its type, but the name `any` may stand for it. -/
def Scope.AnyFree (s : Scope) : Prop :=
  ∀ x e, s.find? x = some e → e.type.anyFree = true ∨ x = "any" ∧ e = .typedef .any

namespace Scope.AnyFree

theorem insert {s : Scope} {x : String} {e : Scope.Entry} (hs : s.AnyFree)
    (he : e.type.anyFree) : (s.insert x e).AnyFree :=
  forall_insert (.inl he) hs

theorem axioms : Axiom.scope.AnyFree := by
  intro x e found
  have entries : ∀ p ∈ Axiom.scope, p.2.type.anyFree ∨ p.1 = "any" ∧ p.2 = .typedef .any := by
    rw [Axiom.scope_eq]
    decide
  exact entries (x, e) (mem_of_find? found)

end Scope.AnyFree

namespace Judgement
open Syntax (TypeExpr Place)
open Formula (anyFree_rewrite)

theorem avoid_anyFree {provided : Formula} {slots : List Resolve.Slot} {body : Formula}
    (h : body.anyFree) : (Resolve.avoid provided body slots).1.anyFree := by
  induction slots generalizing body with
  | nil => exact h
  | cons slot rest ih =>
    rw [Resolve.avoid]
    split
    · exact ih (anyFree_rewrite h rfl)
    · exact ih h

theorem resolveBinary_anyFree {op : Syntax.TypeOp} {a b f : Formula} (ha : a.anyFree)
    (hb : b.anyFree) (h : Resolve.resolveBinary op a b = .ok f) : f.anyFree := by
  have shape := resolveBinary_mem h
  simp only [mem_cons, not_mem_nil, or_false] at shape
  rcases shape with rfl | rfl | rfl | rfl | rfl | rfl <;>
    simp only [Formula.not, Formula.anyFree, ha, hb, Bool.and_self]

variable {names : List String}

mutual

theorem stands_anyFree (banned : "any" ∈ names) : (t : TypeExpr) → ∀ {scope f}, Stands scope t f →
    scope.AnyFree → t.avoids names → f.anyFree
  | .name x, scope, f, h, hs, ha => by
    have named : x.text ≠ "any" := by
      rintro named
      rw [TypeExpr.avoids, named] at ha
      simp [banned] at ha
    rcases stands_name h with rfl | rfl | found | found
    · rfl
    · rfl
    · exact (hs _ _ found).resolve_right fun any => named any.1
    · exact (hs _ _ found).resolve_right fun any => named any.1
  | .numeral digits p, scope, f, h, hs, ha => by
    rw [stands_numeral h]
    exact Formula.anyFree_numeral _
  | .binary op l r p, scope, f, h, hs, ha => by
    rw [TypeExpr.avoids, and_eq_true] at ha
    obtain ⟨a, b, left, right, result⟩ := stands_binary h
    exact resolveBinary_anyFree (stands_anyFree banned l left hs ha.1) (stands_anyFree banned r right hs ha.2) result
  | .arrow x d c p, scope, f, h, hs, ha => by
    rw [TypeExpr.avoids, and_eq_true] at ha
    obtain ⟨a, b, left, right, rfl⟩ := stands_arrow h
    have hd := stands_anyFree banned d left hs ha.1
    have entry : (Resolve.binderEntry x.text a).type.anyFree := by
      unfold Resolve.binderEntry
      split
      · rfl
      · exact hd
    have hc := stands_anyFree banned c right (hs.insert entry) ha.2
    simp only [Formula.anyFree, hd, hc, Bool.and_self]
  | .record x t y u p, scope, f, h, hs, ha => by
    rw [TypeExpr.avoids, and_eq_true] at ha
    obtain ⟨s, -, right, rfl⟩ := stands_record h
    have inner : (scope.insert x.text (.arithmetic (.var x.text))).AnyFree := hs.insert rfl
    have statement := stands_anyFree banned u right inner ha.2
    rwa [Formula.anyFree]
  | .not t p, scope, f, h, hs, ha => by
    rw [TypeExpr.avoids] at ha
    obtain ⟨a, inside, rfl⟩ := stands_not h
    simp only [Formula.not, Formula.anyFree, stands_anyFree banned t inside hs ha, Bool.and_self]
  | .call g a p, scope, f, h, hs, ha => by
    rw [TypeExpr.avoids] at ha
    obtain ⟨b, inside, -, rfl⟩ := stands_call h
    have argument := stands_anyFree banned a inside hs ha
    rwa [Formula.anyFree]
  | .generic g args p, scope, f, h, hs, ha => by
    rw [TypeExpr.avoids] at ha
    obtain ⟨params, body, found, -, result⟩ := stands_generic h
    have inside : body.anyFree := (hs _ _ found).resolve_right fun any => by cases any.2
    exact instantiate_anyFree banned args result hs ha inside

theorem instantiate_anyFree (banned : "any" ∈ names) : (args : List TypeExpr) →
    ∀ {scope generic index body slots f},
    Resolve.instantiate scope generic index body slots args = (.ok f, []) → scope.AnyFree →
    Syntax.typesAvoid names args → body.anyFree → f.anyFree
  | [], scope, generic, index, body, slots, f, h, hs, ha, hb => by
    rw [Resolve.instantiate] at h
    cases h
    exact hb
  | arg :: args, scope, generic, index, body, [], f, h, hs, ha, hb => by
    rw [Resolve.instantiate] at h
    cases h
    exact hb
  | arg :: args, scope, generic, index, body, slot :: slots, f, h, hs, ha, hb => by
    rw [Syntax.typesAvoid, and_eq_true] at ha
    obtain ⟨provided, stands, -, rest⟩ := instantiate_cons h
    have hp := stands_anyFree banned arg stands hs ha.1
    exact instantiate_anyFree banned args rest hs ha.2 (anyFree_rewrite (avoid_anyFree hb) hp)

end

end Judgement

namespace Judgement
open Syntax (TypeExpr Place leaves)
open Formula (anyFree_rewrite)

variable {t : Option TypeExpr} {require declared expected : Option Formula} {scope : Scope}
variable {statement a b f : Formula} {names : List String}

def AnyFree? (require : Option Formula) : Prop := ∀ r, require = some r → r.anyFree = true

/-- Nothing that comes up has `any` in its type. -/
def Event.AnyFree : Event → Prop
  | .checked scope require type => scope.AnyFree ∧ AnyFree? require ∧ type.anyFree = true
  | .reached scope | .numbered scope _ => scope.AnyFree
  | .sorried => False
  | .substituted a _ b | .compared a b | .chained a b | .witnessed a b =>
    a.anyFree = true ∧ b.anyFree = true
  | .iterated a | .replaced a | .unpacked a _ | .reversed _ _ _ a => a.anyFree = true
  | .concluded isProgram _ a => isProgram = false → a.anyFree = true

namespace Finding

def avoids (names : List String) : Finding → Bool
  | .term _ e _ _ | .rule _ e _ _ => e.avoids names
  | .switch _ s _ _ => s.avoids names
  | .block _ _ b _ _ _ => b.avoids names
  | .statements _ _ ss _ _ _ => Syntax.statementsAvoid names ss
  | .statement _ _ s _ _ => s.avoids names
  | .logs _ args => Syntax.termsAvoid names args

/-- What a check starts from has no `any` in it. -/
def StartsAnyFree : Finding → Prop
  | .term scope _ require _ | .rule scope _ require _ | .switch scope _ require _
  | .block scope _ _ require _ _ => scope.AnyFree ∧ AnyFree? require
  | .statements _ before _ require _ _ => before.scope.AnyFree ∧ AnyFree? require
  | .statement _ before _ _ _ => before.scope.AnyFree
  | .logs scope _ => scope.AnyFree

/-- Nor has what it comes to, but for a program that falls off its end. -/
def EndsAnyFree : Finding → Prop
  | .term _ _ _ t | .rule _ _ _ t | .switch _ _ _ t => t.type.anyFree = true
  | .block _ isProgram b _ _ t =>
    t.type.anyFree = true ∨ isProgram = true ∧ leaves b.statements = false
  | .statements isProgram _ ss _ _ t => t.type.anyFree = true ∨ isProgram = true ∧ leaves ss = false
  | .statement _ _ _ _ after => after.scope.AnyFree
  | .logs _ _ => True

end Finding

theorem anyFree_none : AnyFree? none := nofun

theorem anyFree_some {t : Formula} (h : t.anyFree) : AnyFree? (some t) := by
  rintro r ⟨⟩
  exact h

theorem anyFree_getD {t : Formula} (h : AnyFree? require) (ht : t.anyFree) : (require.getD t).anyFree := by
  cases require with
  | none => exact ht
  | some r => exact h r rfl

theorem Recovers.anyFree {cfg : Settings} {isName : Bool} {inferred final : Typed}
    (h : Recovers cfg isName require inferred final) (hr : AnyFree? require) (ht : inferred.type.anyFree) :
    final.type.anyFree := by
  rw [h.type]
  exact anyFree_getD hr ht

theorem anyFree_both (ha : a.anyFree) (hb : b.anyFree) : (a.anyFree && b.anyFree) := by
  rw [ha, hb]
  rfl

theorem both_anyFree (h : (a.anyFree && b.anyFree)) : a.anyFree ∧ b.anyFree := by
  rwa [and_eq_true] at h

theorem functionExpects_anyFree {x : String} {domain : Formula}
    (h : FunctionExpects x declared require domain expected) (hd : AnyFree? declared)
    (hr : AnyFree? require) : domain.anyFree ∧ AnyFree? expected := by
  unfold FunctionExpects at h
  split at h
  · obtain ⟨rfl, rfl⟩ := h
    exact ⟨hd _ rfl, anyFree_none⟩
  · obtain ⟨rfl, rfl⟩ := h
    have parts := both_anyFree (hr _ rfl)
    refine ⟨anyFree_getD hd parts.1, anyFree_some ?_⟩
    split
    · exact anyFree_rewrite parts.2 rfl
    · exact parts.2
  · exact h.elim

theorem resultExpects_anyFree (banned : "any" ∈ names) {required : Option Formula}
    (h : ResultExpects scope expected t required) (hs : scope.AnyFree) (he : AnyFree? expected)
    (ha : Syntax.typeAvoids? names t) : AnyFree? required := by
  cases t with
  | none => cases h; exact he
  | some t =>
    obtain ⟨g, stands, rfl⟩ := h
    exact anyFree_some (stands_anyFree banned t stands hs ha)

theorem asserts_anyFree (banned : "any" ∈ names) {f : Option Formula} (h : Asserts scope t f)
    (hs : scope.AnyFree) (ha : Syntax.typeAvoids? names t) : AnyFree? f :=
  resultExpects_anyFree banned (show ResultExpects scope none t f by cases t <;> exact h) hs anyFree_none ha

theorem loopStates_anyFree {i : String} {bound : Formula}
    (h : LoopStates i declared require bound statement) (hd : AnyFree? declared) (hr : AnyFree? require) :
    statement.anyFree := by
  unfold LoopStates at h
  split at h
  · rw [h]
    exact anyFree_rewrite (hr _ rfl) rfl
  · exact hd _ h

theorem witnessStates_anyFree (banned : "any" ∈ names) {x y : String}
    (h : WitnessStates scope x y require statement t) (hs : scope.AnyFree) (hr : AnyFree? require)
    (ha : Syntax.typeAvoids? names t) : statement.anyFree := by
  cases t with
  | none => simpa only [Formula.anyFree] using hr _ h
  | some t => exact stands_anyFree banned t h (hs.insert rfl) ha

theorem transExpects_anyFree {l r : Formula} (h : TransExpects require l r expected) (hr : AnyFree? require)
    (h' : r.anyFree) : AnyFree? expected := by
  unfold TransExpects at h
  split at h
  · rcases h with ⟨-, rfl⟩ | ⟨-, rfl⟩
    · exact anyFree_some (anyFree_both h' (both_anyFree (hr _ rfl)).2)
    · exact anyFree_none
  · rw [h]
    exact anyFree_none

theorem flipped_anyFree (hr : AnyFree? require) : AnyFree? (flipped require) := by
  unfold flipped
  split
  · have parts := both_anyFree (hr _ rfl)
    exact anyFree_some (anyFree_both parts.2 parts.1)
  · exact anyFree_none

theorem pairExpects_anyFree {l r : Option Formula} (h : PairExpects require l r) (hr : AnyFree? require) :
    AnyFree? l ∧ AnyFree? r := by
  unfold PairExpects at h
  split at h
  · obtain ⟨rfl, rfl⟩ := h
    exact ⟨anyFree_none, anyFree_none⟩
  · obtain ⟨rfl, rfl⟩ := h
    have parts := both_anyFree (hr _ rfl)
    exact ⟨anyFree_some parts.1, anyFree_some parts.2⟩
  · exact h.elim

theorem applies_anyFree {fn arg t : Formula} (h : Applies fn arg t) (hf : fn.anyFree)
    (ha : arg.anyFree) : t.anyFree := by
  unfold Applies Formula.apply at h
  split at h
  · split at h
    · cases h
      exact anyFree_rewrite hf ha
    · cases h
  · split at h
    · cases h
      simp only [Formula.anyFree, and_eq_true] at hf
      exact hf.2
    · cases h
    · cases h
  · cases h

theorem genericParams_anyFree {inner : Scope} {ps : List Syntax.TypeParam} {params : List Scope.Param}
    (h : genericParams scope ps = .ok (params, inner)) (hs : scope.AnyFree) : inner.AnyFree := by
  induction ps generalizing scope params with
  | nil => cases h; exact hs
  | cons p rest ih =>
    rw [genericParams] at h
    split at h
    case h_3 => cases h
    all_goals
      simp only [Bind.bind, Except.bind] at h
      split at h
      · cases h
      next opened =>
        cases h
        exact ih opened (hs.insert rfl)

theorem leibniz_anyFree {param : String} {property : Formula} (h : property.anyFree) :
    (leibniz param property).anyFree := by
  have at_ (y : String) : (property.rewrite param (.var y)).anyFree := anyFree_rewrite h rfl
  simp only [leibniz, Formula.anyFree, at_, Bool.and_self]

theorem proofPart_avoids {w : Syntax.Expr} (h : w.avoids names) :
    (proofPart w).1.avoids names ∧ Syntax.typeAvoids? names (proofPart w).2 := by
  unfold proofPart
  split
  · rw [Syntax.Expr.avoids, and_eq_true] at h
    exact h
  · exact ⟨h, rfl⟩

theorem MapCall.avoids {e fn equation : Syntax.Expr} (call : MapCall e fn equation) (h : e.avoids names) :
    fn.avoids names ∧ equation.avoids names := by
  cases call with
  | method _ =>
    simp only [Syntax.Expr.avoids, and_eq_true] at h
    exact ⟨h.2, h.1⟩
  | function _ =>
    simp only [Syntax.Expr.avoids, and_eq_true] at h
    exact ⟨h.1.2, h.2⟩

/-- A statement that leads on is none that hands over a value. -/
theorem Passes.leaves_cons {cfg : Settings} {ok : Event → Prop} {isProgram : Bool}
    {before after : Progressed} {s : Syntax.Statement} {numbers : List String}
    (h : Passes cfg ok (.statement isProgram before s numbers after)) (rest : List Syntax.Statement) :
    leaves (s :: rest) = leaves rest := by
  cases h <;> rw [leaves] <;> nofun

section Groups
open Syntax (Expr Name Block Switch Loop Statement)

/-- Without `any` at the start there is none on the way, nor at the end. -/
def Clears (cfg : Settings) (ok : Event → Prop) (names : List String) (j : Finding) : Prop :=
  j.avoids names → j.StartsAnyFree → Passes cfg (fun ev => ok ev ∧ ev.AnyFree) j ∧ j.EndsAnyFree

variable {cfg : Settings} {ok : Event → Prop} {t u : Typed} {p : Place}
  {isProgram : Bool} {before after : Progressed} {seen : List Scope}

section
variable {e : Expr} (h : Clears cfg ok names (.term scope e require u)) (avoids : e.avoids names)
  (hs : scope.AnyFree) (hr : AnyFree? require)
include h avoids hs hr

/-- The same where the type has two parts. -/
theorem Clears.parts {f : Formula} (type : u.type = f) (two : f.anyFree = (a.anyFree && b.anyFree)) :
    Passes cfg (fun ev => ok ev ∧ ev.AnyFree) (.term scope e require u) ∧ a.anyFree ∧ b.anyFree := by
  obtain ⟨passes, ends⟩ := h avoids ⟨hs, hr⟩
  rw [Finding.EndsAnyFree, type, two] at ends
  exact ⟨passes, both_anyFree ends⟩

theorem Clears.not_any : u.type ≠ .any := by
  intro any
  have ends := (h avoids ⟨hs, hr⟩).2
  rw [Finding.EndsAnyFree, any] at ends
  cases ends

end

theorem term_clears {e : Expr} : Conveys cfg ok (Clears cfg ok names) (.term scope e require t) := by
  intro h below avoids starts
  cases below with
  | judged _ recovers checked _ ih =>
    obtain ⟨rule, ends⟩ := ih avoids starts
    exact ⟨.judged rule recovers ⟨checked, starts.1, starts.2, ends⟩, recovers.anyFree starts.2 ends⟩
  | block _ _ ih =>
    obtain ⟨inside, ends⟩ := ih avoids starts
    exact ⟨.block inside, ends.resolve_right nofun⟩

theorem block_clears {b : Block} :
    Conveys cfg ok (Clears cfg ok names) (.block scope isProgram b require seen t) := by
  intro h below avoids starts
  cases below with
  | body _ recovers checked _ ih =>
    -- only a program may fall off its end and so have type `any`
    obtain ⟨inside, ends⟩ := ih (by cases b; exact avoids) starts
    refine ⟨.body inside recovers fun inner => ⟨checked inner, starts.1, starts.2, ?_⟩, ?_⟩
    · exact ends.resolve_right fun h => by cases inner.symm.trans h.1
    · exact ends.imp_left (recovers.anyFree starts.2)

theorem call_clears {f a : Expr} :
    Conveys cfg ok (Clears cfg ok names) (.rule scope (.call f a p) require t) := by
  intro h below avoids starts
  cases below with
  | succ named _ number _ ih =>
    obtain ⟨argument, ends⟩ := ih (and_eq_true_iff.1 avoids).2 ⟨starts.1, anyFree_none⟩
    exact ⟨.succ named argument number, ends⟩
  | applyAll plain _ arrow _ number substituted _ ihf _ iha =>
    have avoids := and_eq_true_iff.1 avoids
    obtain ⟨fn, -, hc⟩ := ihf.parts avoids.1 starts.1 anyFree_none arrow rfl
    obtain ⟨argument, ha⟩ := iha avoids.2 ⟨starts.1, anyFree_none⟩
    exact ⟨.applyAll plain fn arrow argument number ⟨substituted, hc, ha⟩, anyFree_rewrite hc ha⟩
  | apply plain _ arrow implies _ _ ihf _ iha =>
    have avoids := and_eq_true_iff.1 avoids
    obtain ⟨fn, hd, hc⟩ := ihf.parts avoids.1 starts.1 anyFree_none arrow rfl
    obtain ⟨argument, ha⟩ := iha avoids.2 ⟨starts.1, anyFree_some hd⟩
    exact ⟨.apply plain fn arrow implies argument, hc⟩
  | applyAny _ _ any _ ih =>
    exact (ih.not_any (and_eq_true_iff.1 avoids).1 starts.1 anyFree_none any).elim
  | trans named _ equation expects _ equation' meets _ ihx _ iha =>
    have avoids := and_eq_true_iff.1 avoids
    obtain ⟨first, hl, hr⟩ := ihx.parts avoids.1 starts.1 anyFree_none equation rfl
    have hexpected := transExpects_anyFree expects starts.2 hr
    obtain ⟨second, -, hr'⟩ := iha.parts avoids.2 starts.1 hexpected equation' rfl
    exact ⟨.trans named first equation expects second equation' meets, anyFree_both hl hr'⟩
  | transRung named _ equation expects _ rung meets compared chained _ ihx _ iha =>
    have avoids := and_eq_true_iff.1 avoids
    obtain ⟨first, hl, hr⟩ := ihx.parts avoids.1 starts.1 anyFree_none equation rfl
    have hexpected := transExpects_anyFree expects starts.2 hr
    obtain ⟨second, hl', hr'⟩ := iha.parts avoids.2 starts.1 hexpected rung rfl
    have whole := starts.2 _ rfl
    obtain ⟨hb, hc⟩ := both_anyFree whole
    exact ⟨.transRung named first equation expects second rung meets
      ⟨compared, anyFree_both hr hc, anyFree_both hl' hr'⟩ ⟨chained, hb, hl⟩, whole⟩
  | mapSucc call succ _ equated numbers _ ih =>
    obtain ⟨subject, hl, hr⟩ := ih.parts (call.avoids avoids).2 starts.1 anyFree_none equated rfl
    exact ⟨.mapSucc call succ subject equated numbers, anyFree_both hl hr⟩
  | map call succ _ arrow numeric _ equated left right _ ihf _ ihx =>
    have avoids := call.avoids avoids
    obtain ⟨function, hd, hc⟩ := ihf.parts avoids.1 starts.1 anyFree_none arrow rfl
    obtain ⟨subject, hl, hr⟩ := ihx.parts avoids.2 starts.1 anyFree_none equated rfl
    have hf := anyFree_both hd hc
    exact ⟨.map call succ function arrow numeric subject equated left right,
      anyFree_both (applies_anyFree left hf hl) (applies_anyFree right hf hr)⟩
  | replaceAll named _ equated _ replaced substituted _ iha _ ihb =>
    simp only [Finding.avoids, Expr.avoids, and_eq_true] at avoids
    obtain ⟨equation, -, hr⟩ := iha.parts avoids.2 starts.1 anyFree_none equated rfl
    obtain ⟨proof, hb⟩ := ihb avoids.1.2 ⟨starts.1, anyFree_none⟩
    exact ⟨.replaceAll named equation equated proof ⟨replaced, hr⟩ ⟨substituted, hb, hr⟩,
      anyFree_rewrite hb hr⟩
  | ring named _ equation _ ih =>
    obtain ⟨argument, hl, hr⟩ :=
      ih.parts (and_eq_true_iff.1 avoids).2 starts.1 anyFree_none equation rfl
    exact ⟨.ring named argument equation, anyFree_both hl hr⟩
  | ringAny _ _ any _ ih =>
    exact (ih.not_any (and_eq_true_iff.1 avoids).2 starts.1 anyFree_none any).elim
  | makeLeft named _ _ ih =>
    have whole := starts.2 _ rfl
    obtain ⟨argument, -⟩ := ih (and_eq_true_iff.1 avoids).2 ⟨starts.1, anyFree_some (both_anyFree whole).1⟩
    exact ⟨.makeLeft named argument, whole⟩
  | makeRight named _ _ ih =>
    have whole := starts.2 _ rfl
    obtain ⟨argument, -⟩ := ih (and_eq_true_iff.1 avoids).2 ⟨starts.1, anyFree_some (both_anyFree whole).2⟩
    exact ⟨.makeRight named argument, whole⟩
  | neverElim named _ _ ih =>
    obtain ⟨argument, -⟩ := ih (and_eq_true_iff.1 avoids).2 ⟨starts.1, anyFree_some rfl⟩
    exact ⟨.neverElim named argument, starts.2 _ rfl⟩

theorem switch_clears {s : Switch} : Conveys cfg ok (Clears cfg ok names) (.switch scope s require t) := by
  intro h below avoids starts
  have parts := Syntax.Switch.avoids_iff.1 avoids
  cases below with
  | cases _ either leftCase rightCase leftEnters _ rightEnters _ _ ihs _ ihl _ ihr =>
    obtain ⟨subject, hl, hr⟩ := ihs.parts parts.1 starts.1 anyFree_none either rfl
    rw [← Scope.type_of_tag leftEnters] at hl
    rw [← Scope.type_of_tag rightEnters] at hr
    obtain ⟨left, ends⟩ := ihl (Syntax.avoids_case parts.2 (mem_of_find?_eq_some leftCase))
      ⟨starts.1.insert hl, starts.2⟩
    have ends := ends.resolve_right nofun
    obtain ⟨right, -⟩ := ihr (Syntax.avoids_case parts.2 (mem_of_find?_eq_some rightCase))
      ⟨starts.1.insert hr, anyFree_some (anyFree_getD starts.2 ends)⟩
    exact ⟨.cases subject either leftCase rightCase leftEnters left rightEnters right, ends⟩
  | casesAny _ any _ ih => exact (ih.not_any parts.1 starts.1 anyFree_none any).elim

theorem statements_clear {ss : List Statement} :
    Conveys cfg ok (Clears cfg ok names) (.statements isProgram before ss require seen t) := by
  intro h below avoids starts
  cases below with
  | fallOff => exact ⟨.fallOff, .inr ⟨rfl, rfl⟩⟩
  | leave _ _ ih | leaveBy _ _ ih =>
    obtain ⟨value, ends⟩ := ih (and_eq_true_iff.1 avoids).1 starts
    exact ⟨by constructor; assumption, .inl ends⟩
  | skip _ _ ih =>
    obtain ⟨remaining, ends⟩ := ih avoids starts
    exact ⟨.skip remaining, ends⟩
  | next _ reached _ concluded _ ihs _ ihr =>
    have avoids := and_eq_true_iff.1 avoids
    obtain ⟨statement, after⟩ := ihs avoids.1 starts.1
    obtain ⟨remaining, ends⟩ := ihr avoids.2 ⟨after, starts.2⟩
    have concludes (inner : isProgram = false) := ends.resolve_right fun h => by cases inner.symm.trans h.1
    refine ⟨.next statement ⟨reached, after⟩ remaining ⟨concluded, concludes⟩, ?_⟩
    rw [Finding.EndsAnyFree, statement.leaves_cons]
    exact ends

theorem logs_clear {args : List Expr} : Conveys cfg ok (Clears cfg ok names) (.logs scope args) := by
  intro h below avoids starts
  cases below with
  | logged => exact ⟨.logged, trivial⟩
  | logging _ _ _ ihv _ ihr =>
    have avoids := and_eq_true_iff.1 avoids
    obtain ⟨value, -⟩ := ihv avoids.1 ⟨starts, anyFree_none⟩
    obtain ⟨remaining, -⟩ := ihr avoids.2 starts
    exact ⟨.logging value remaining, trivial⟩

variable (banned : "any" ∈ names)
include banned

theorem lambda_clears {x : Name} {d r : Option TypeExpr} {b : Expr} :
    Conveys cfg ok (Clears cfg ok names) (.rule scope (.lambda x d r b p) require t) := by
  intro h below avoids starts
  cases below with
  | @lambda _ _ _ _ _ _ _ _ domain _ _ entry _ declares plan enters result _ numbered _ ih =>
    simp only [Finding.avoids, Expr.avoids, and_eq_true] at avoids
    have hdeclared := asserts_anyFree banned declares starts.1 avoids.1.1
    obtain ⟨hdomain, hexpected⟩ := functionExpects_anyFree plan hdeclared starts.2
    -- the parameter of a quantifier is a number, any other one has the domain as its type
    have hentry : entry.type.anyFree := by
      rw [Scope.type_of_tag enters]
      split
      · rfl
      · exact hdomain
    have inner := starts.1.insert (x := x.text) hentry
    have hrequired := resultExpects_anyFree banned result inner hexpected avoids.1.2
    obtain ⟨inside, ends⟩ := ih avoids.2 ⟨inner, hrequired⟩
    exact ⟨.lambda declares plan enters result inside fun nat => ⟨numbered nat, starts.1⟩,
      anyFree_both hdomain ends⟩
  | mapSucc call | map call => cases call

theorem generic_clears {f : Name} {u : TypeExpr} :
    Conveys cfg ok (Clears cfg ok names) (.rule scope (.generic f u p) require t) := by
  intro h below avoids starts
  cases below with
  | makeLeftAt named left right =>
    have avoids := and_eq_true_iff.1 avoids
    have hl := stands_anyFree banned _ left starts.1 avoids.1
    have hr := stands_anyFree banned _ right starts.1 avoids.2
    exact ⟨.makeLeftAt named left right, anyFree_both (b := .or _ _) hl (anyFree_both hl hr)⟩
  | makeRightAt named left right =>
    have avoids := and_eq_true_iff.1 avoids
    have hl := stands_anyFree banned _ left starts.1 avoids.1
    have hr := stands_anyFree banned _ right starts.1 avoids.2
    exact ⟨.makeRightAt named left right, anyFree_both (b := .or _ _) hr (anyFree_both hl hr)⟩
  | neverElimAt named stands =>
    have ha := stands_anyFree banned _ stands starts.1 avoids
    exact ⟨.neverElimAt named stands, anyFree_both (a := .never) rfl ha⟩
  | excludedMiddleAt named stands =>
    have ha := stands_anyFree banned _ stands starts.1 avoids
    exact ⟨.excludedMiddleAt named stands,
      anyFree_both (b := .not _) ha (anyFree_both (b := .never) ha rfl)⟩
  | replaceAt named found left right =>
    have property := (starts.1 _ _ found).resolve_right fun any => by cases any.2
    exact ⟨.replaceAt named found ⟨left, property, rfl⟩ ⟨right, property, rfl⟩,
      leibniz_anyFree property⟩
  | mapSucc call | map call => cases call

theorem loop_clears {l : Loop} :
    Conveys cfg ok (Clears cfg ok names) (.rule scope (.loop l) require t) := by
  intro h below avoids starts
  cases below with
  | loop _ _ declares states _ enters _ numbered iterated atZero atNext atBound _ ihs _ ihb _ ihz _ ihn =>
    obtain ⟨⟨i, iType, iValue, _⟩, ⟨q, qType, qValue, _⟩, _, bound, _, _, _, body, _⟩ := l
    simp only [Finding.avoids, Expr.avoids, and_eq_true] at avoids
    obtain ⟨⟨⟨⟨hi, ht⟩, hq⟩, hb⟩, hbody⟩ := avoids
    have counting : (scope.insert i.text (.arithmetic (.var i.text))).AnyFree := starts.1.insert rfl
    have hstatement := loopStates_anyFree states (asserts_anyFree banned declares counting ht) starts.2
    have hinstance {u : Formula} (hu : u.anyFree) := anyFree_some (anyFree_rewrite hstatement hu (x := i.text))
    obtain ⟨start, -⟩ := ihs hi ⟨starts.1, anyFree_some rfl⟩
    obtain ⟨bounded, hbound⟩ := ihb hb ⟨starts.1, anyFree_none⟩
    obtain ⟨zero, -⟩ := ihz hq ⟨starts.1, hinstance rfl⟩
    have inner := counting.insert (x := q.text) (Scope.type_of_tag enters ▸ hstatement)
    obtain ⟨next, -⟩ := ihn hbody ⟨inner, hinstance rfl⟩
    exact ⟨.loop start bounded declares states zero enters next ⟨numbered, starts.1⟩
      ⟨iterated, hbound⟩ ⟨atZero, hstatement, rfl⟩ ⟨atNext, hstatement, rfl⟩
      ⟨atBound, hstatement, hbound⟩, anyFree_rewrite hstatement hbound⟩
  | mapSucc call | map call => cases call

theorem statement_clears {s : Statement} {numbers : List String} :
    Conveys cfg ok (Clears cfg ok names) (.statement isProgram before s numbers after) := by
  intro h below avoids starts
  cases below with
  | @define _ _ d asserted entry t asserts _ enters _ ih =>
    obtain ⟨x, type, v, place⟩ := d
    have avoids := and_eq_true_iff.1 avoids
    obtain ⟨value, ends⟩ := ih avoids.2 ⟨starts, asserts_anyFree banned asserts starts avoids.1⟩
    exact ⟨.define asserts value enters, starts.insert (Scope.type_of_tag enters ▸ ends)⟩
  | unpack _ struct fields enters numbered unpacked substituted _ ih =>
    obtain ⟨value, ends⟩ := ih avoids ⟨starts, anyFree_none⟩
    have inside := ends
    rw [Finding.EndsAnyFree, struct] at inside
    refine ⟨.unpack value struct fields enters ⟨numbered, starts⟩ ⟨unpacked, ends⟩
      ⟨substituted, inside, rfl⟩, (starts.insert rfl).insert ?_⟩
    rw [Scope.type_of_tag enters]
    exact anyFree_rewrite inside rfl
  | unpackReversed _ struct fields enters numbered unpacked reversed _ ih =>
    obtain ⟨value, ends⟩ := ih avoids ⟨starts, anyFree_none⟩
    have inside := ends
    rw [Finding.EndsAnyFree, struct] at inside
    refine ⟨.unpackReversed value struct fields enters ⟨numbered, starts⟩ ⟨unpacked, ends⟩
      ⟨reversed, inside⟩, Scope.AnyFree.insert (starts.insert ?_) rfl⟩
    rw [Scope.type_of_tag enters]
    exact inside
  | typedef stands =>
    exact ⟨.typedef stands, starts.insert (stands_anyFree banned _ stands starts avoids)⟩
  | generic opens stands =>
    have inner := genericParams_anyFree opens starts
    exact ⟨.generic opens stands, starts.insert (stands_anyFree banned _ stands inner avoids)⟩
  | log _ _ ih => exact ⟨.log (ih avoids starts).1, starts⟩
  | misplacedLog => exact ⟨.misplacedLog, starts⟩

variable (honest : ¬ ok .sorried ∨ "sorry" ∈ names)
include honest

theorem simple_clears {e : Expr} (simple : isSimple e) :
    Conveys cfg ok (Clears cfg ok names) (.rule scope e require t) := by
  intro h below avoids starts
  cases below with
  | sorried named sorried =>
    have honest := honest.resolve_left (absurd sorried)
    rw [Finding.avoids, Expr.avoids, named] at avoids
    simp [honest] at avoids
  | name named found =>
    refine ⟨.name named found, ?_⟩
    rcases found with found | found
    · exact (starts.1 _ _ found).resolve_right fun any => by cases any.2
    · exact (starts.1 _ _ found).resolve_right fun any => by cases any.2
  | numeral => exact ⟨.numeral, Formula.anyFree_numeral _⟩
  | add _ _ numbers _ ihl _ ihr | mul _ _ numbers _ ihl _ ihr =>
    have avoids := and_eq_true_iff.1 avoids
    obtain ⟨left, hl⟩ := ihl avoids.1 ⟨starts.1, anyFree_none⟩
    obtain ⟨right, hr⟩ := ihr avoids.2 ⟨starts.1, anyFree_none⟩
    exact ⟨by constructor <;> assumption, anyFree_both hl hr⟩
  | symm named _ equation _ ih =>
    obtain ⟨subject, hl, hr⟩ := ih.parts avoids starts.1 (flipped_anyFree starts.2) equation rfl
    exact ⟨.symm named subject equation, anyFree_both hr hl⟩
  | ringAlone named => exact ⟨.ringAlone named, rfl⟩
  | pair expects _ _ _ ihl _ ihr =>
    have avoids := and_eq_true_iff.1 avoids
    obtain ⟨hl, hr⟩ := pairExpects_anyFree expects starts.2
    obtain ⟨first, hl⟩ := ihl avoids.1 ⟨starts.1, hl⟩
    obtain ⟨second, hr⟩ := ihr avoids.2 ⟨starts.1, hr⟩
    exact ⟨.pair expects first second, anyFree_both hl hr⟩
  | left named _ both _ ih =>
    obtain ⟨subject, hl, -⟩ := ih.parts avoids starts.1 anyFree_none both rfl
    exact ⟨.left named subject both, hl⟩
  | right named _ both _ ih =>
    obtain ⟨subject, -, hr⟩ := ih.parts avoids starts.1 anyFree_none both rfl
    exact ⟨.right named subject both, hr⟩
  | ascribe stands _ _ ih =>
    have avoids := and_eq_true_iff.1 avoids
    have asserted := stands_anyFree banned _ stands starts.1 avoids.2
    obtain ⟨subject, -⟩ := ih avoids.1 ⟨starts.1, anyFree_some asserted⟩
    exact ⟨.ascribe stands subject, asserted⟩
  | record _ states _ witnessed substituted _ ihv _ ihw =>
    have avoids := and_eq_true_iff.1 avoids
    obtain ⟨inProof, inType⟩ := proofPart_avoids avoids.2
    obtain ⟨value, hv⟩ := ihv avoids.1 ⟨starts.1, anyFree_none⟩
    have statement := witnessStates_anyFree banned states starts.1 starts.2 inType
    obtain ⟨proof, -⟩ := ihw inProof ⟨starts.1, anyFree_some (anyFree_rewrite statement hv)⟩
    exact ⟨.record value states proof ⟨witnessed, hv, statement⟩ ⟨substituted, statement, hv⟩,
      statement⟩
  | switch _ _ ih =>
    obtain ⟨cases, ends⟩ := ih avoids starts
    exact ⟨.switch cases, ends⟩
  | mapSucc call | map call => cases call <;> cases simple
  | _ => cases simple

theorem Passes.anyFree {j : Finding} (h : Passes cfg ok j) : Clears cfg ok names j := by
  refine h.conveyed fun j => ?_
  cases j with
  | term => exact term_clears
  | rule scope e =>
    cases e with
    | lambda => exact lambda_clears banned
    | call => exact call_clears
    | generic => exact generic_clears banned
    | loop => exact loop_clears banned
    | _ => exact simple_clears banned honest rfl
  | switch => exact switch_clears
  | block => exact block_clears
  | statements => exact statements_clear
  | statement => exact statement_clears banned
  | logs => exact logs_clear

end Groups

theorem allowed_and (P : Event → Prop) : (fun ev => Allowed false ev ∧ P ev) = P := by
  funext ev
  exact propext ⟨And.right, fun h => ⟨nofun, h⟩⟩

/-- A program that reads neither `sorry` nor `any` and has no errors passes without `any`: nothing in
any scope on the way has it in its type, nor has any requirement, nor has any term. The program itself
has type `any` only if it falls off its end. -/
theorem no_silent_any {cfg : Settings} {program : Syntax.Block} {e : Elaborated}
    (accepted : Accepted cfg program e) (avoids : program.avoids ["sorry", "any"] = true) :
    (∃ seen, Passes cfg Event.AnyFree (.block Axiom.scope true program none seen e.typed)) ∧
      (e.typed.type.anyFree = true ∨ leaves program.statements = false) := by
  obtain ⟨seen, passes⟩ := accepted.passes
  obtain ⟨passes, ends⟩ := passes.anyFree (by simp) (.inr (by simp)) avoids
    ⟨Scope.AnyFree.axioms, anyFree_none⟩
  rw [allowed_and] at passes
  exact ⟨⟨seen, passes⟩, ends.imp_right And.right⟩

/-- The program `const {n: k, p: q} = {n: 2, p: eqRefl(2) as n == 2};` and then
`return (x: N) => (h: x == k) => h.trans(q);`. -/
def chainedWitness : Syntax.Block :=
  ⟨[.destructure ⟨written "n", some (written "k")⟩ ⟨written "p", some (written "q")⟩
      (.record (written "n") (.numeral "2" none) (written "p")
        (.ascribe (.call (.name (written "eqRefl")) (.numeral "2" none) none)
          (.binary .equal (.name (written "n")) (.numeral "2" none) none) none) none) none,
    .leave .ret none
      (.lambda (written "x") (some (.name (written "N"))) none
        (.lambda (written "h")
          (some (.binary .equal (.name (written "x")) (.name (written "k")) none)) none
          (.call (.member (.name (written "h")) (written "trans") none) (.name (written "q")) none)
          none) none) none],
    none⟩

theorem chainedWitness_any_free : ∃ e, Accepted {} chainedWitness e ∧
    chainedWitness.avoids ["sorry", "any"] = true ∧
    (∃ seen, Passes {} Event.AnyFree (.block Axiom.scope true chainedWitness none seen e.typed)) ∧
      (e.typed.type.anyFree = true ∨ leaves chainedWitness.statements = false) := by
  obtain ⟨e, accepted, -⟩ : ∃ e, Accepted {} chainedWitness e ∧ e.typed.type = .arrow "x" .nat
      (.arrow "h" (.eq (.var "x") (.var "k")) (.eq (.var "x") (.numeral 2))) :=
    exists_accepted (by rw [Axiom.scope_eq]; decide +kernel)
  have avoids : chainedWitness.avoids ["sorry", "any"] = true := by decide +kernel
  exact ⟨e, accepted, avoids, no_silent_any accepted avoids⟩

end Judgement
end Peano
