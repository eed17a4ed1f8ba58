import Mathlib.Logic.Function.Basic
import Peano.Proofs.Formula.Substitution
namespace Peano.Formula
open Function (update update_of_ne update_self)
open Bool (and_eq_true not_eq_true' or_eq_true)

variable {x : String} {t : Formula} {ρ σ : String → Nat}

/-- The number a term stands for. What is no term stands for 0. -/
def value (ρ : String → Nat) : Formula → Nat
  | .var x | .typeVar x => ρ x
  | .succ t => t.value ρ + 1
  | .add l r => l.value ρ + r.value ρ
  | .mul l r => l.value ρ * r.value ρ
  | _ => 0

/-- Whether a formula is true. A term, and `nat`, count as true. -/
def Holds (ρ : String → Nat) : Formula → Prop
  | .eq l r | .rung l r => l.value ρ = r.value ρ
  | .and l r => l.Holds ρ ∧ r.Holds ρ
  | .or l r => l.Holds ρ ∨ r.Holds ρ
  | .arrow x .nat c => ∀ n, c.Holds (update ρ x n)
  | .arrow _ d c => d.Holds ρ → c.Holds ρ
  | .struct x _ s => ∃ n, s.Holds (update ρ x n)
  | .never | .any | .hole => False
  | _ => True

/-- What the forms of formulas mean. Names stand for numbers, and an equation is true or not. -/
structure Semantics (M : Type) where
  term (n : Nat) : M
  equation (isTrue : Prop) : M
  both (left right : M) : M
  either (left right : M) : M
  all (body : Nat → M) : M
  implies (domain codomain : M) : M
  exist (body : Nat → M) : M
  nat : M
  never : M
  unknown : M

variable {M : Type}

def meaning (S : Semantics M) (ρ : String → Nat) : Formula → M
  | .eq l r | .rung l r => S.equation (l.value ρ = r.value ρ)
  | .and l r => S.both (l.meaning S ρ) (r.meaning S ρ)
  | .or l r => S.either (l.meaning S ρ) (r.meaning S ρ)
  | .arrow x .nat c => S.all fun n => c.meaning S (update ρ x n)
  | .arrow _ d c => S.implies (d.meaning S ρ) (c.meaning S ρ)
  | .struct x _ s => S.exist fun n => s.meaning S (update ρ x n)
  | .nat => S.nat
  | .never => S.never
  | .any | .hole => S.unknown
  | t => S.term (t.value ρ)

/-- Whether a name occurs free, as far as the reading is concerned: only quantifiers bind names. -/
def mentions (x : String) : Formula → Bool
  | .var y | .typeVar y => y == x
  | .succ t => t.mentions x
  | .add l r | .mul l r | .eq l r | .and l r | .or l r | .rung l r => l.mentions x || r.mentions x
  | .arrow y .nat c => y != x && c.mentions x
  | .arrow _ d c => d.mentions x || c.mentions x
  | .struct y _ s => y != x && s.mentions x
  | _ => false

attribute [local simp] value Holds meaning mentions

section Implication

variable {d : Formula} (h : d ≠ .nat) (z : String) (c : Formula)
include h

theorem holds_implication (ρ : String → Nat) : (Formula.arrow z d c).Holds ρ ↔ (d.Holds ρ → c.Holds ρ) := by
  rw [Holds]
  exact h

theorem meaning_implication (S : Semantics M) (ρ : String → Nat) :
    (Formula.arrow z d c).meaning S ρ = S.implies (d.meaning S ρ) (c.meaning S ρ) := by
  rw [meaning]
  exact h

theorem mentions_implication (x : String) :
    (Formula.arrow z d c).mentions x = (d.mentions x || c.mentions x) := by
  rw [mentions]
  exact h

end Implication

theorem mentions_arrow {z : String} {d c : Formula} (h : (Formula.arrow z d c).mentions x) :
    d.mentions x ∨ c.mentions x ∧ (d = .nat → z ≠ x) := by
  by_cases quantifier : d = .nat
  · subst quantifier
    rw [mentions, and_eq_true, bne_iff_ne] at h
    exact .inr ⟨h.2, fun _ => h.1⟩
  · rw [mentions_implication quantifier, or_eq_true] at h
    exact h.imp_right fun h => ⟨h, fun nat => (quantifier nat).elim⟩

theorem mentions_numeral (n : Nat) (x : String) : (numeral n).mentions x = false := by
  induction n with
  | zero => rfl
  | succ n ih => exact ih

theorem holds_of_isArithmetic (h : t.isArithmetic) (ρ : String → Nat) : t.Holds ρ := by
  cases t <;> first | exact trivial | cases h

theorem holds_numeral (n : Nat) (ρ : String → Nat) : (numeral n).Holds ρ := by
  cases n <;> trivial

theorem update_congr {α : Type} {ρ σ : String → α} {z : String} {v : α} (h : x ≠ z → ρ x = σ x) :
    update ρ z v x = update σ z v x := by
  by_cases bound : x = z
  · rw [bound, update_self, update_self]
  · rw [update_of_ne bound, update_of_ne bound, h bound]

theorem value_congr (h : ∀ x, t.mentions x → ρ x = σ x) : t.value ρ = t.value σ := by
  induction t with
  | var y | typeVar y => exact h y (by simp [mentions])
  | succ t ih => simp only [value, ih h]
  | add l r ihl ihr | mul l r ihl ihr =>
    simp only [mentions, or_eq_true] at h
    simp only [value, ihl fun x hx => h x (.inl hx), ihr fun x hx => h x (.inr hx)]
  | _ => rfl

theorem meaning_congr {S : Semantics M} (h : ∀ x, t.mentions x → ρ x = σ x) :
    t.meaning S ρ = t.meaning S σ := by
  induction t using binder_induction generalizing ρ σ with
  | eq l r | rung l r =>
    simp only [mentions, or_eq_true] at h
    simp only [meaning, value_congr fun x hx => h x (.inl hx), value_congr fun x hx => h x (.inr hx)]
  | and l r ihl ihr | or l r ihl ihr =>
    simp only [mentions, or_eq_true] at h
    simp only [meaning, ihl fun x hx => h x (.inl hx), ihr fun x hx => h x (.inr hx)]
  | implies z d c quantifier ihd ihc =>
    simp only [mentions_implication quantifier, or_eq_true] at h
    simp only [meaning_implication quantifier, ihd fun x hx => h x (.inl hx),
      ihc fun x hx => h x (.inr hx)]
  | all z c ih | struct z _ c ih =>
    have body (n : Nat) : c.meaning S (update ρ z n) = c.meaning S (update σ z n) :=
      ih c rfl fun x hx => update_congr fun bound => h x (by simp [hx, Ne.symm bound])
    simp only [meaning, body]
  | var | typeVar | succ | add | mul => exact congrArg S.term (value_congr h)
  | _ => rfl

theorem meaning_update {S : Semantics M} (h : t.mentions x = false) (ρ : String → Nat) (n : Nat) :
    t.meaning S (update ρ x n) = t.meaning S ρ := by
  refine meaning_congr fun y hy => update_of_ne ?_ n ρ
  rintro rfl
  cases h.symm.trans hy

def truth : Semantics Prop where
  term _ := True
  equation isTrue := isTrue
  both := And
  either := Or
  all P := ∀ n, P n
  implies p q := p → q
  exist P := ∃ n, P n
  nat := True
  never := False
  unknown := False

theorem meaning_truth (t : Formula) (ρ : String → Nat) : t.meaning truth ρ = t.Holds ρ := by
  induction t using binder_induction generalizing ρ with
  | implies z d c quantifier ihd ihc =>
    rw [meaning_implication quantifier, ihd, ihc, holds_implication quantifier]
    rfl
  | and l r ihl ihr | or l r ihl ihr => simp only [meaning, ihl, ihr]; rfl
  | all z c ih | struct z _ c ih => simp only [meaning, ih c rfl]; rfl
  | _ => rfl

theorem holds_iff_of_meaning {u : Formula} (same : t.meaning truth ρ = u.meaning truth σ) :
    t.Holds ρ ↔ u.Holds σ := by
  rw [← meaning_truth, ← meaning_truth, same]

theorem holds_congr (h : ∀ x, t.mentions x → ρ x = σ x) : t.Holds ρ ↔ t.Holds σ :=
  holds_iff_of_meaning (meaning_congr h)

theorem holds_update (h : t.mentions x = false) (ρ : String → Nat) (n : Nat) :
    t.Holds (update ρ x n) ↔ t.Holds ρ :=
  holds_iff_of_meaning (meaning_update h ρ n)

theorem value_update (h : t.mentions x = false) (ρ : String → Nat) (n : Nat) :
    t.value (update ρ x n) = t.value ρ := by
  refine value_congr fun y hy => update_of_ne ?_ n ρ
  rintro rfl
  cases h.symm.trans hy

/-- A statement without free variables is true or not, whatever the numbers. -/
theorem holds_of_closed (closed : ∀ x, t.mentions x = false) (h : t.Holds ρ) (σ : String → Nat) :
    t.Holds σ := by
  refine (holds_congr fun x hx => ?_).1 h
  cases (closed x).symm.trans hx

section Substitution

variable {u t : Formula} {ρ : String → Nat}

/-- Whether `u` can be put in place of `x` without a quantifier catching a variable of `u`, the name
chosen for a renamed quantifier catching one of its body, or an implication turning into a
quantifier. -/
def captureFree (t : Formula) (x : String) (u : Formula) : Bool :=
  match t with
  | .arrow z .nat c =>
    let fresh := freshName z [u, c]
    z == x || if isFree z u then
      fresh != x && !u.mentions fresh && !c.mentions fresh && captureFree c z (.var fresh) &&
        captureFree (rewrite c z (.var fresh)) x u
    else !u.mentions z && captureFree c x u
  | .struct z p s =>
    let fresh := freshName z [u, s, .var p]
    z == x || if isFree z u then
      fresh != x && !u.mentions fresh && !s.mentions fresh && captureFree s z (.var fresh) &&
        captureFree (rewrite s z (.var fresh)) x u
    else !u.mentions z && captureFree s x u
  | .arrow _ d c => !(rewrite d x u).isNat && captureFree d x u && captureFree c x u
  | .and l r | .or l r => captureFree l x u && captureFree r x u
  | _ => true
termination_by t.size
decreasing_by all_goals simp only [size_rewrite_var, size]; omega

attribute [local simp] captureFree

theorem captureFree_implication {d : Formula} (h : d ≠ .nat) (z : String) (c : Formula) (x : String)
    (u : Formula) : captureFree (.arrow z d c) x u =
      (!(rewrite d x u).isNat && captureFree d x u && captureFree c x u) := by
  rw [captureFree]
  exact h

theorem value_rewrite (t : Formula) (x : String) (u : Formula) (ρ : String → Nat) :
    (t.rewrite x u).value ρ = t.value (update ρ x (u.value ρ)) := by
  induction t using binder_induction with
  | var z | typeVar z =>
    rw [rewrite]
    split
    next same =>
      rw [value, same, update_self]
    next other =>
      rw [value, value, update_of_ne other]
  | succ t ih => simp only [rewrite, value, ih]
  | add l r ihl ihr | mul l r ihl ihr => simp only [rewrite, value, ihl, ihr]
  | implies z d c quantifier => rw [rewrite_implication quantifier]; rfl
  | all z c | struct z _ c =>
    simp only [rewrite_all, rewrite_struct]
    split
    · rfl
    split <;> rfl
  | _ => rw [rewrite]; rfl

variable {S : Semantics M}

/-- The claim about substitution that is proved by induction. -/
def RewritesTo (S : Semantics M) (t : Formula) : Prop :=
  ∀ {x u ρ}, captureFree t x u = true → u.meaning S ρ = S.term (u.value ρ) →
    (t.rewrite x u).meaning S ρ = t.meaning S (update ρ x (u.value ρ))

/-- Under a quantifier over `z`, which is renamed to `fresh` if it would capture a name of `u`. -/
theorem meaning_under {c : Formula} {x z fresh : String} (n : Nat) (bound : z ≠ x)
    (hu : u.meaning S ρ = S.term (u.value ρ)) (free : (z == x || if isFree z u then
      fresh != x && !u.mentions fresh && !c.mentions fresh && captureFree c z (.var fresh) &&
        captureFree (rewrite c z (.var fresh)) x u
    else !u.mentions z && captureFree c x u)) (ih : ∀ s : Formula, s.size = c.size → RewritesTo S s) :
    (if isFree z u then (rewrite (rewrite c z (.var fresh)) x u).meaning S (update ρ fresh n)
      else (rewrite c x u).meaning S (update ρ z n)) = c.meaning S (update (update ρ x (u.value ρ)) z n) := by
  rw [or_eq_true, beq_iff_eq] at free
  have free := free.resolve_left bound
  have kept {y : String} (clear : u.mentions y = false) :
      u.meaning S (update ρ y n) = S.term (u.value (update ρ y n)) := by
    rw [meaning_update clear, value_update clear, hu]
  split
  next caught =>
    simp only [caught, if_true, and_eq_true, not_eq_true', bne_iff_ne] at free
    obtain ⟨⟨⟨⟨other, clear⟩, clear'⟩, renamed⟩, rest⟩ := free
    -- two substitutions, each by the induction hypothesis: first the one for `x`, then the renaming
    rw [ih _ (size_rewrite_var c z fresh) rest (kept clear), ih c rfl renamed rfl, value_update clear, value,
      update_of_ne other, update_self]
    refine meaning_congr fun y hy => update_congr fun _ => update_congr fun _ => update_of_ne ?_ n ρ
    rintro rfl
    cases clear'.symm.trans hy
  next clear =>
    rw [if_neg clear, and_eq_true, not_eq_true'] at free
    rw [ih c rfl free.2 (kept free.1), value_update free.1, Function.update_comm bound.symm]

theorem rewritesTo (t : Formula) : RewritesTo S t := by
  induction t using binder_induction with
  | var z | typeVar z =>
    intro x u ρ free hu
    rw [rewrite]
    split
    next same =>
      simp only [hu, meaning, value, same, update_self]
    next other =>
      simp only [meaning, value, update_of_ne other]
  | zero | nat | never | any | hole => intro x u ρ free hu; rw [rewrite]; rfl
  | succ s | add l r | mul l r =>
    intro x u ρ free hu
    simp only [rewrite, meaning, value, value_rewrite]
  | eq l r | rung l r => intro x u ρ free hu; simp only [rewrite, meaning, value_rewrite]
  | and l r ihl ihr | or l r ihl ihr =>
    intro x u ρ free hu
    simp only [captureFree, and_eq_true] at free
    simp only [rewrite, meaning, ihl free.1 hu, ihr free.2 hu]
  | implies z d c quantifier ihd ihc =>
    intro x u ρ free hu
    simp only [captureFree_implication quantifier, and_eq_true] at free
    -- a domain that turned into `nat` would make a quantifier of the implication
    have still : rewrite d x u ≠ .nat := by
      intro turned
      rw [turned] at free
      cases free.1.1
    rw [rewrite_implication quantifier, meaning_implication still, meaning_implication quantifier,
      ihd free.1.2 hu, ihc free.2 hu]
  | all z c ih | struct z _ c ih =>
    intro x u ρ free hu
    rw [captureFree] at free
    simp only [rewrite_all, rewrite_struct]
    split
    next shadowed =>
      simp only [meaning, shadowed, Function.update_idem]
    next bound =>
      simp only [meaning, ← meaning_under _ bound hu free ih]
      split <;> rfl

/-- Where nothing is captured, substitution puts the number of `u` in place of `x`. -/
theorem meaning_rewrite {x : String} (free : captureFree t x u) (hu : u.meaning S ρ = S.term (u.value ρ)) :
    (t.rewrite x u).meaning S ρ = t.meaning S (update ρ x (u.value ρ)) :=
  rewritesTo t free hu

theorem holds_rewrite {x : String} (free : captureFree t x u) (hu : u.Holds ρ) :
    (t.rewrite x u).Holds ρ ↔ t.Holds (update ρ x (u.value ρ)) :=
  holds_iff_of_meaning (meaning_rewrite free ((meaning_truth u ρ).trans (eq_true hu)))

end Substitution

end Peano.Formula
