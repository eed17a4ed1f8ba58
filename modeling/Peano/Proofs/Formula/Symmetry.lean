import Peano.Proofs.Formula.Nameless
import Peano.Proofs.Formula.Tidy
namespace Peano.Formula
open List
open Function (update update_apply update_of_ne update_self)
open Bool (and_eq_true and_eq_true_iff not_eq_true')

def level (k : Nat) : String := String.ofList (List.replicate k 'w')

/-- The formula with `ε x` for the free name `x`, under `k` quantifiers. -/
def bare (k : Nat) (ε : String → String) : Formula → Formula
  | .var x | .typeVar x => .var (ε x)
  | .succ t => .succ (t.bare k ε)
  | .add l r => .add (l.bare k ε) (r.bare k ε)
  | .mul l r => .mul (l.bare k ε) (r.bare k ε)
  | .eq l r => .eq (l.bare k ε) (r.bare k ε)
  | .rung l r => .rung (l.bare k ε) (r.bare k ε)
  | .and l r => .and (l.bare k ε) (r.bare k ε)
  | .or l r => .or (l.bare k ε) (r.bare k ε)
  | .arrow z d c => .arrow (level k) (d.bare k ε)
    (if d.isNat then c.bare (k + 1) (update ε z (level k)) else c.bare k ε)
  | .struct z p s => .struct (level k) p (s.bare (k + 1) (update ε z (level k)))
  | t => t

variable {number : List Char → Bool} {outer outer' : List (List Char)} {k : Nat} {ε δ : String → String}

attribute [local simp] bare

section Renaming

variable {t : Formula}

/-- A nameless formula with canonical names for what is bound, under `k` quantifiers. -/
def named (k : Nat) : Nameless → Formula
  | .bound j => .var (level j)
  | .var x => .var x
  | .typeVar x => .typeVar x
  | .zero => .zero
  | .succ t => .succ (named k t)
  | .add l r => .add (named k l) (named k r)
  | .mul l r => .mul (named k l) (named k r)
  | .nat => .nat
  | .eq l r => .eq (named k l) (named k r)
  | .and l r => .and (named k l) (named k r)
  | .or l r => .or (named k l) (named k r)
  | .all c => .arrow (level k) .nat (named (k + 1) c)
  | .implies _ d c => .arrow (level k) (named k d) (named k c)
  | .struct p s => .struct (level k) p (named (k + 1) s)
  | .never => .never
  | .any => .any
  | .rung l r => .rung (named k l) (named k r)
  | .hole => .hole

theorem bare_eq_named {δ : String → Meaning} (h : ∀ x isType j, named j (δ x isType j) = .var (ε x)) :
    t.bare k ε = named k (t.nameless k δ) := by
  induction t using binder_induction generalizing k ε δ with
  | var x => exact (h x false k).symm
  | typeVar x => exact (h x true k).symm
  | succ t ih => rw [bare, ih h]; rfl
  | implies z d c quantifier ihd ihc =>
    rw [bare, isNat_of_ne quantifier, ihd h, ihc h, nameless_implication quantifier]
    rfl
  | all z c ih | struct z _ c ih =>
    have inside : c.bare (k + 1) (update ε z (level k)) =
        named (k + 1) (c.nameless (k + 1) (update δ z (.bound k))) := by
      refine ih c rfl fun x isType j => ?_
      by_cases bound : x = z
      · rw [bound, update_self, update_self]
        rfl
      · rw [update_of_ne bound, update_of_ne bound, h]
    first | rw [inside] | rw [bare, inside]
    rfl
  | zero | nat | never | any | hole => rfl
  | _ l r ihl ihr => rw [bare, ihl h, ihr h]; rfl

theorem bare_congr (h : ∀ x, t.mentions x → ε x = δ x) : t.bare k ε = t.bare k δ := by
  have itself (ε : String → String) : t.bare k ε = named k (t.nameless k fun x _ _ => .var (ε x)) :=
    bare_eq_named fun _ _ _ => rfl
  rw [itself, itself, nameless_congr fun x hx => by rw [h x hx]]

theorem bare_rewrite {x y : String} (clear : Clear t x (.var y)) :
    (rewrite t x (.var y)).bare k ε = t.bare k (update ε x (ε y)) := by
  rw [bare_eq_named (δ := fun x _ _ => .var (ε x)) fun _ _ _ => rfl, nameless_rewrite (var_ne_nat y) clear]
  refine (bare_eq_named fun z isType j => ?_).symm
  by_cases same : z = x
  · rw [same, update_self, update_self]
    rfl
  · rw [update_of_ne same, update_of_ne same]
    rfl

/-- Renaming removes a name and adds another one. -/
theorem isFree_rewrite {x y z : String} (h : isFree z (rewrite t x (.var y))) :
    isFree z t ∧ z ≠ x ∨ z = y := by
  induction t using binder_induction generalizing x y z with
  | var w | typeVar w =>
    rw [rewrite] at h
    split at h <;> grind [isFree]
  | zero | nat | never | any | hole => rw [rewrite] at h; cases h
  | succ s ih => rw [rewrite] at h; exact ih h
  | implies w d c quantifier ihd ihc =>
    rw [rewrite_implication quantifier] at h
    grind [isFree]
  | all w c ih | struct w _ c ih =>
    -- a quantifier that was renamed binds its new name
    simp only [rewrite_all, rewrite_struct] at h
    split at h
    · grind [isFree]
    split at h <;> grind [isFree, size_rewrite_var]
  | _ l r ihl ihr =>
    rw [rewrite] at h
    grind [isFree]

end Renaming

section Canonical

/-- What is kept true of the names while going down. -/
structure Canonical (number : List Char → Bool) (k : Nat) (ε : String → String) : Prop where
  injective : Function.Injective ε
  unused : ∀ x j, k ≤ j → ε x ≠ level j
  plain : ∀ x, isNumberName number x = true → plainName (ε x) = true

theorem level_injective : Function.Injective level := by
  intro j k h
  have lists := congrArg String.toList h
  rw [level, level] at lists
  simpa using congrArg List.length lists

theorem canonical_initial (number : List Char → Bool) : Canonical number 0 ("v" ++ ·) where
  injective x y h := by simpa using h
  unused x j _ h := by
    have lists := congrArg String.toList h
    rw [level] at lists
    cases j <;> simp [replicate_succ] at lists
  plain x name := by
    rw [isNumberName, and_eq_true] at name
    simp only [plainName, String.toList_append, all_append, and_eq_true]
    exact ⟨by decide, name.2⟩

theorem Canonical.update (h : Canonical number k ε) (z : String) :
    Canonical number (k + 1) (update ε z (level k)) := by
  refine ⟨fun x y same => ?_, fun x j le => ?_, fun x name => ?_⟩
  · have injective := @h.injective x y
    have new := fun x => h.unused x k le_rfl
    grind [update_apply]
  · rw [update_apply]
    split
    · exact fun same => absurd (level_injective same) (by omega)
    · exact h.unused x j (Nat.le_of_succ_le le)
  · rw [update_apply]
    split
    · simp [level, plainName]
    · exact h.plain x name

theorem bare_reckonable (h : Canonical number k ε) {t : Formula} (side : t.isSide)
    (tidy : t.tidy number outer) : ((t.bare k ε).isTerm && (t.bare k ε).reckonable) ∧
      ∀ ρ, (t.bare k ε).value ρ = t.value (ρ ∘ ε) := by
  rw [isSide, and_eq_true, decide_eq_true_eq] at side
  suffices ((t.bare k ε).isTerm ∧ (t.bare k ε).plainNames ∧ (t.bare k ε).degree = t.degree) ∧
      ∀ ρ, (t.bare k ε).value ρ = t.value (ρ ∘ ε) from
    ⟨by simpa only [reckonable, this.1.1, this.1.2.1, this.1.2.2, Bool.true_and] using decide_eq_true side.2, this.2⟩
  have term := side.1
  clear side
  induction t with
  | var x => exact ⟨⟨rfl, h.plain x tidy, rfl⟩, fun _ => rfl⟩
  | zero => exact ⟨⟨rfl, rfl, rfl⟩, fun _ => rfl⟩
  | succ t ih =>
    obtain ⟨shape, value⟩ := ih (and_eq_true_iff.1 tidy).2 term
    exact ⟨shape, fun ρ => congrArg (· + 1) (value ρ)⟩
  | add l r ihl ihr | mul l r ihl ihr =>
    simp only [Formula.tidy, isTerm, and_eq_true] at tidy term
    obtain ⟨⟨isTerm, plain, degree⟩, value⟩ := ihl tidy.1.2 term.1
    obtain ⟨⟨isTerm', plain', degree'⟩, value'⟩ := ihr tidy.2 term.2
    simp only [bare, Formula.isTerm, plainNames, Formula.degree, Formula.value, isTerm, isTerm', plain, plain',
      degree, degree', value, value', Bool.and_self, and_self, implies_true]
  | _ => cases term

section Equations

variable {l r l' r' : Formula}

theorem parts_of_tidy (ht : (Formula.eq l r).tidy number outer) :
    ((l.isSide ∧ r.isSide) ∧ l.tidy number outer) ∧ r.tidy number outer := by
  simpa only [tidy, and_eq_true] using ht

theorem isTerm_reckonable {t : Formula} (side : t.isSide) (ht : t.tidy number outer) :
    (t.isTerm && t.reckonable) := by
  rw [reckonable_of_tidy side ht, (and_eq_true_iff.1 side).1]
  rfl

variable (ht : (Formula.eq l r).tidy number outer = true) (ht' : (Formula.eq l' r').tidy number outer' = true)
  (h : Canonical number k ε) (h' : Canonical number k δ)

def tidyEquation : Equation :=
  .ofReckonable l r (isTerm_reckonable (parts_of_tidy ht).1.1.1 (parts_of_tidy ht).1.2)
    (isTerm_reckonable (parts_of_tidy ht).1.1.2 (parts_of_tidy ht).2)

def bareEquation : Equation :=
  .ofReckonable (l.bare k ε) (r.bare k ε)
    (bare_reckonable h (parts_of_tidy ht).1.1.1 (parts_of_tidy ht).1.2).1
    (bare_reckonable h (parts_of_tidy ht).1.1.2 (parts_of_tidy ht).2).1

theorem gap_bareEquation (ρ : String → ℕ) : (bareEquation ht h).gap ρ = (tidyEquation ht).gap (ρ ∘ ε) := by
  have left := (bare_reckonable h (parts_of_tidy ht).1.1.1 (parts_of_tidy ht).1.2).2 ρ
  have right := (bare_reckonable h (parts_of_tidy ht).1.1.2 (parts_of_tidy ht).2).2 ρ
  simp only [Equation.gap, bareEquation, tidyEquation, Equation.ofReckonable, left, right]

include ht ht' h

theorem sameIdentity_bare : sameIdentity l r l' r' =
    sameIdentity (l.bare k ε) (r.bare k ε) (l'.bare k ε) (r'.bare k ε) := by
  have onto : Function.Surjective fun ρ : String → ℕ => ρ ∘ ε := h.injective.surjective_comp_right
  have same : (tidyEquation ht).Same (tidyEquation ht') ↔ (bareEquation ht h).Same (bareEquation ht' h) := by
    simp only [Equation.same_iff_gap, gap_bareEquation]
    exact or_congr onto.forall onto.forall
  exact Bool.eq_iff_iff.2 same

include h'

theorem sameIdentity_comm : sameIdentity (l.bare k ε) (r.bare k ε) (l'.bare k δ) (r'.bare k δ) =
    sameIdentity (l'.bare k δ) (r'.bare k δ) (l.bare k ε) (r.bare k ε) := by
  have same : (bareEquation ht h).Same (bareEquation ht' h') ↔
      (bareEquation ht' h').Same (bareEquation ht h) :=
    ⟨Equation.same_equivalence.symm, Equation.same_equivalence.symm⟩
  exact Bool.eq_iff_iff.2 same

end Equations

end Canonical

section Comparison

variable {d d' c c' a b : Formula} {x y : String}

theorem bothEqual_congr {first first' : Except Incomparable Bool}
    {second second' : Unit → Except Incomparable Bool} (h : first = first')
    (h' : first = .ok true → second () = second' ()) : bothEqual first second = bothEqual first' second' := by
  subst h
  unfold bothEqual
  split
  · exact h' rfl
  · rfl

theorem both_congr {l l' r r' m m' n n' : Formula} (hl : equal l l' = equal m m')
    (hr : equal r r' = equal n n') : bothEqual (equal l l') (fun _ => equal r r') =
      bothEqual (equal m m') fun _ => equal n n' :=
  bothEqual_congr hl fun _ => hr

theorem nat_iff_of_equal (same : equal d d' = .ok true) (h : d.isAny = false) (h' : d'.isAny = false) :
    d = .nat ↔ d' = .nat := by
  constructor
  · rintro rfl
    cases d' with
    | nat => rfl
    | any => cases h'
    | _ => cases same
  · rintro rfl
    cases d with
    | nat => rfl
    | any => cases h
    | _ => cases same

theorem head_bare (d : Formula) : (d.bare k ε).isNat = d.isNat ∧ (d.bare k ε).isAny = d.isAny := by
  cases d <;> exact ⟨rfl, rfl⟩

theorem equal_arrow (x y : String) (d d' c c' : Formula) : equal (.arrow x d c) (.arrow y d' c') =
    bothEqual (equal d d') fun _ => equalBodies x c y c' := rfl

theorem equal_struct (x y p q : String) (s s' : Formula) :
    equal (.struct x p s) (.struct y q s') = equalBodies x s y s' := rfl

theorem equalBodies_self (x : String) (a b : Formula) : equalBodies x a x b = equal a b := by
  rw [equalBodies, alignBody?, if_pos rfl]

/-- Comparing the formula with others is comparing under canonical names, if no name that it quantifies
is free in them. -/
def BareEqual (number : List Char → Bool) (a : Formula) : Prop :=
  ∀ {b k ε outer outer'}, a.tidy number outer → b.tidy number outer' →
    (∀ z ∈ a.quantified, isFree z b = false) → Canonical number k ε →
    equal a b = equal (a.bare k ε) (b.bare k ε)

theorem equalBodies_bare (name : isNumberName number x) (hc : c.tidy number (root x :: outer))
    (hc' : c'.tidy number (root y :: outer'))
    (clear : ∀ z ∈ x :: c.quantified, y = z ∨ isFree z c' = false) (h : Canonical number k ε)
    (ih : BareEqual number c) : equalBodies x c y c' =
      equal (c.bare (k + 1) (update ε x (level k))) (c'.bare (k + 1) (update ε y (level k))) := by
  have inner : ∀ z ∈ c.quantified, x ≠ z := by
    rintro z mem rfl
    exact ((tidy_names hc).2.1 x mem).2 mem_cons_self
  have clear' := fun z mem => clear z (mem_cons_of_mem x mem)
  by_cases same : x = y
  · subst same
    rw [equalBodies_self]
    exact ih hc hc' (fun z mem => (clear' z mem).resolve_left (inner z mem)) (h.update x)
  · have free : isFree x c' = false := (clear x mem_cons_self).resolve_left (Ne.symm same)
    obtain ⟨apart, unmentioned⟩ := quantifier_renamed name hc'
    have renamed : equalBodies x c y c' = equal c (c'.rewrite y (.var x)) := by
      simp [equalBodies, alignBody?, same, free]
    have kept : ∀ z ∈ c.quantified, isFree z (c'.rewrite y (.var x)) = false := by
      intro z mem
      rw [Bool.eq_false_iff]
      intro occurs
      rcases isFree_rewrite occurs with ⟨occurs, other⟩ | same
      · cases ((clear' z mem).resolve_left other.symm).symm.trans occurs
      · exact inner z mem same.symm
    rw [renamed, ih hc (tidy_rewrite hc' name) kept (h.update x), bare_rewrite apart, update_self]
    refine congrArg (equal _) (bare_congr fun w hw => update_congr fun _ => update_of_ne ?_ _ ε)
    rintro rfl
    cases (unmentioned free).symm.trans hw

theorem arrow_tidy (h : (Formula.arrow x d c).tidy number outer) :
    (d.isAny = false ∧ d.tidy number outer) ∧ ∃ outer, c.tidy number outer := by
  by_cases quantifier : d = .nat
  · subst quantifier
    simp only [tidy, and_eq_true] at h
    exact ⟨⟨rfl, rfl⟩, _, h.2⟩
  · simp only [tidy_implication quantifier, and_eq_true, not_eq_true'] at h
    exact ⟨⟨h.1.1.2, h.1.2⟩, _, h.2⟩

/-- Two arrows: both are quantifiers, or both are implications, or their domains differ. -/
theorem equal_bare_arrow (ha : (Formula.arrow x d c).tidy number outer)
    (hb : (Formula.arrow y d' c').tidy number outer')
    (unbound : ∀ z ∈ (Formula.arrow x d c).quantified, y = z ∨ isFree z d' = false ∧ isFree z c' = false)
    (h : Canonical number k ε) (ihd : BareEqual number d) (ihc : BareEqual number c) :
    equal (.arrow x d c) (.arrow y d' c') =
      equal ((Formula.arrow x d c).bare k ε) ((Formula.arrow y d' c').bare k ε) := by
  obtain ⟨⟨notAny, domain⟩, -⟩ := arrow_tidy ha
  obtain ⟨⟨notAny', domain'⟩, -⟩ := arrow_tidy hb
  -- an implication is not named as a quantifier is
  have hidden (quantifier' : d' ≠ .nat) : ∀ z ∈ (Formula.arrow x d c).quantified, y ≠ z := by
    rintro z mem rfl
    simp only [tidy_implication quantifier', and_eq_true, not_eq_true'] at hb
    cases hb.1.1.1.symm.trans ((tidy_names ha).2.1 y mem).1
  have domains : equal d d' = equal (d.bare k ε) (d'.bare k ε) := by
    refine ihd domain domain' (fun z mem => ?_) h
    by_cases quantifier : d = .nat
    · subst quantifier
      cases mem
    have mem' : z ∈ (Formula.arrow x d c).quantified := by
      rw [quantified_implication quantifier]
      exact mem_append_left _ mem
    by_cases quantifier' : d' = .nat
    · subst quantifier'
      rfl
    · exact ((unbound z mem').resolve_left (hidden quantifier' z mem')).1
  have bodies (same : equal d d' = .ok true) : equalBodies x c y c' =
      equalBodies (level k) (if d.isNat then c.bare (k + 1) (update ε x (level k)) else c.bare k ε) (level k)
        (if d'.isNat then c'.bare (k + 1) (update ε y (level k)) else c'.bare k ε) := by
    have kind := nat_iff_of_equal same notAny notAny'
    rw [equalBodies_self]
    by_cases quantifier : d = .nat
    · subst quantifier
      cases kind.1 rfl
      simp only [tidy, and_eq_true] at ha hb
      exact equalBodies_bare ha.1.1 ha.2 hb.2 (fun z mem => (unbound z mem).imp_right And.right) h ihc
    · have quantifier' : d' ≠ .nat := fun nat => quantifier (kind.2 nat)
      have apart : ∀ z ∈ c.quantified, isFree z c' = false := by
        intro z mem
        have mem' : z ∈ (Formula.arrow x d c).quantified := by
          rw [quantified_implication quantifier]
          exact mem_append_right _ mem
        exact ((unbound z mem').resolve_left (hidden quantifier' z mem')).2
      simp only [tidy_implication quantifier, tidy_implication quantifier', and_eq_true,
        not_eq_true'] at ha hb
      obtain ⟨unmentioned, -, same⟩ := implication_renamed ha.1.1.1 hb.1.1.1 hb.2
      have free : isFree x c' = false :=
        Bool.eq_false_iff.2 fun free => by cases unmentioned.1.symm.trans (mentions_of_isFree free)
      have kept : equalBodies x c y c' = equal c c' := by simp [equalBodies, alignBody?, free, same]
      rw [kept, isNat_of_ne quantifier, isNat_of_ne quantifier']
      exact ihc ha.2 hb.2 apart h
  rw [bare, bare, equal_arrow, equal_arrow]
  exact bothEqual_congr domains bodies

theorem equal_bare : BareEqual number a := by
  intro b k ε outer outer' ha hb unbound h
  induction a generalizing b k ε outer outer' <;> cases b
  -- Formulas of two shapes differ as they did, and most of one shape are compared by their parts.
  case var.var => exact congrArg Except.ok (Bool.eq_iff_iff.2 (by simp [h.injective.eq_iff]))
  case succ.succ ih _ => exact ih (Bool.and_eq_true_iff.1 ha).2 (Bool.and_eq_true_iff.1 hb).2 unbound h
  case rung.eq | rung.rung => exact congrArg Except.ok (sameIdentity_bare ha hb h)
  case eq.rung => exact congrArg Except.ok (sameIdentity_bare hb ha h)
  case add.add l r ihl ihr l' r' | mul.mul l r ihl ihr l' r' | eq.eq l r ihl ihr l' r'
      | and.and l r ihl ihr l' r' | or.or l r ihl ihr l' r' =>
    simp only [tidy, Bool.and_eq_true] at ha hb
    simp only [quantified, isFree, Bool.or_eq_false_iff, forall_mem_append] at unbound
    have left : l.tidy number outer ∧ l'.tidy number outer' := by simp only [ha, hb, and_self]
    have first := ihl left.1 left.2 (fun z mem => (unbound.1 z mem).1) h
    exact (both_congr first (ihr ha.2 hb.2 (fun z mem => (unbound.2 z mem).2) h) :)
  case arrow.arrow x d c ihd ihc y d' c' =>
    refine equal_bare_arrow ha hb (fun z mem => ?_) h @ihd @ihc
    simpa [isFree, or_iff_not_imp_left] using unbound z mem
  case struct.struct x p s ih y q s' =>
    simp only [tidy, Bool.and_eq_true] at ha hb
    rw [bare, bare, equal_struct, equal_struct, equalBodies_self]
    refine equalBodies_bare ha.1.1 ha.2 hb.2 (fun z mem => ?_) h @ih
    simpa [isFree, or_iff_not_imp_left] using unbound z mem
  all_goals first | rfl | (cases ha; done) | cases hb

/-- Under canonical names, comparing is symmetric. -/
theorem equal_bare_comm (ha : a.tidy number outer) (hb : b.tidy number outer')
    (h : Canonical number k ε) (h' : Canonical number k δ) :
    equal (a.bare k ε) (b.bare k δ) = equal (b.bare k δ) (a.bare k ε) := by
  induction a generalizing b k ε δ outer outer' <;> cases b
  case var.var => exact congrArg Except.ok BEq.comm
  case succ.succ ih _ => exact ih (Bool.and_eq_true_iff.1 ha).2 (Bool.and_eq_true_iff.1 hb).2 h h'
  case rung.rung => exact congrArg Except.ok (sameIdentity_comm ha hb h h')
  case add.add l r ihl ihr l' r' | mul.mul l r ihl ihr l' r' | eq.eq l r ihl ihr l' r'
      | and.and l r ihl ihr l' r' | or.or l r ihl ihr l' r' =>
    simp only [tidy, Bool.and_eq_true] at ha hb
    have left : l.tidy number outer ∧ l'.tidy number outer' := by simp only [ha, hb, and_self]
    exact (both_congr (ihl left.1 left.2 h h') (ihr ha.2 hb.2 h h') :)
  case arrow.arrow x d c ihd ihc y d' c' =>
    obtain ⟨⟨notAny, domain⟩, _, codomain⟩ := arrow_tidy ha
    obtain ⟨⟨notAny', domain'⟩, _, codomain'⟩ := arrow_tidy hb
    rw [bare, bare, equal_arrow, equal_arrow]
    refine bothEqual_congr (ihd domain domain' h h') fun same => ?_
    have kind : d.isNat = d'.isNat := by
      rw [← (head_bare d).1, ← (head_bare d').1, Bool.eq_iff_iff, isNat_iff, isNat_iff]
      exact nat_iff_of_equal same ((head_bare d).2.trans notAny) ((head_bare d').2.trans notAny')
    rw [equalBodies_self, equalBodies_self, kind]
    split
    · exact ihc codomain codomain' (h.update x) (h'.update y)
    · exact ihc codomain codomain' h h'
  case struct.struct x p s ih y q s' =>
    simp only [tidy, Bool.and_eq_true] at ha hb
    rw [bare, bare, equal_struct, equal_struct, equalBodies_self, equalBodies_self]
    exact ih ha.2 hb.2 (h.update x) (h'.update y)
  all_goals first | rfl | (cases ha; done) | cases hb

end Comparison

/-- Comparing is symmetric for tidy formulas none of which quantifies a name that is free in the other. -/
theorem equal_comm_of_tidy {a b : Formula} {number : List Char → Bool} (ha : a.tidy number [] = true)
    (hb : b.tidy number [] = true) (apart : ∀ z ∈ a.quantified, isFree z b = false)
    (apart' : ∀ z ∈ b.quantified, isFree z a = false) : equal a b = equal b a := by
  have initial := canonical_initial number
  calc equal a b
      = equal (a.bare 0 ("v" ++ ·)) (b.bare 0 ("v" ++ ·)) := equal_bare ha hb apart initial
    _ = equal (b.bare 0 ("v" ++ ·)) (a.bare 0 ("v" ++ ·)) := equal_bare_comm ha hb initial initial
    _ = equal b a := (equal_bare hb ha apart' initial).symm

/-- With `any`, and with an equation up to the laws of rings. -/
def loose : Formula := .arrow "x" .nat (.struct "w" "p" (.and .any
  (.rung (.mul (.var "w") (.var "x")) (.var "w"))))

def strict : Formula := .arrow "y" .nat (.struct "u" "q" (.and (.arrow "h" (.eq (.var "u") .zero) .never)
  (.eq (.var "u") (.mul (.var "y") (.var "u")))))

theorem loose_strict_comm : loose.tidy (· != ['h']) [] = true ∧ strict.tidy (· != ['h']) [] = true ∧
      (∀ z ∈ loose.quantified, isFree z strict = false) ∧ (∀ z ∈ strict.quantified, isFree z loose = false) ∧
      equal loose strict = .ok true ∧ equal strict loose = .ok true := by
  have tidy : loose.tidy (· != ['h']) [] = true := by decide +kernel
  have tidy' : strict.tidy (· != ['h']) [] = true := by decide +kernel
  have apart : ∀ z ∈ loose.quantified, isFree z strict = false := by decide
  have apart' : ∀ z ∈ strict.quantified, isFree z loose = false := by decide
  have same : equal loose strict = .ok true := by decide +kernel
  exact ⟨tidy, tidy', apart, apart', same, (equal_comm_of_tidy tidy tidy' apart apart').symm.trans same⟩

/-- Four quantifiers over a statement about the innermost one. -/
def fourfold (x y z w : String) : Formula :=
  .arrow x .nat (.arrow y .nat (.arrow z .nat (.arrow w .nat (.eq (.var w) .zero))))

/-- With names that are quantified again, renaming one side is not renaming the other. -/
theorem fourfold_not_comm : equal (fourfold "x" "x" "y" "x") (fourfold "y" "x" "y" "x") = .ok false ∧
      equal (fourfold "y" "x" "y" "x") (fourfold "x" "x" "y" "x") = .ok true := by
  decide +kernel

end Peano.Formula
