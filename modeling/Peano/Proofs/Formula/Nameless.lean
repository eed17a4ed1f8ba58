import Peano.Proofs.Formula.Capture
namespace Peano
open List

/-- A formula up to the names of bound variables: these are counted from the outside. -/
inductive Nameless where
  | bound (level : Nat)
  | var (name : String)
  | typeVar (name : String)
  | zero
  | succ (of : Nameless)
  | add (left right : Nameless)
  | mul (left right : Nameless)
  | nat
  | eq (left right : Nameless)
  | and (left right : Nameless)
  | or (left right : Nameless)
  | all (body : Nameless)
  | implies (name : String) (domain codomain : Nameless)
  | struct (property : String) (statement : Nameless)
  | never
  | any
  | rung (left right : Nameless)
  | hole
  deriving DecidableEq

def Nameless.hasTypeVar (x : String) : Nameless → Bool
  | .typeVar y => y == x
  | .succ t | .all t | .struct _ t => t.hasTypeVar x
  | .add l r | .mul l r | .eq l r | .and l r | .or l r | .rung l r | .implies _ l r =>
    l.hasTypeVar x || r.hasTypeVar x
  | _ => false

namespace Formula
open Function (update update_of_ne update_self)

/-- What a name stands for, as a type variable or not, under a number of quantifiers. -/
abbrev Meaning := Bool → Nat → Nameless

def Meaning.bound (level : Nat) : Meaning := fun _ _ => .bound level

def Meaning.free (name : String) : Meaning := fun isType _ => if isType then .typeVar name else .var name

/-- The formula under `k` quantifiers. A quantifier binds the type variable of its name too. -/
def nameless (k : Nat) (ε : String → Meaning) : Formula → Nameless
  | .var x => ε x false k
  | .typeVar x => ε x true k
  | .zero => .zero
  | .succ t => .succ (t.nameless k ε)
  | .add l r => .add (l.nameless k ε) (r.nameless k ε)
  | .mul l r => .mul (l.nameless k ε) (r.nameless k ε)
  | .nat => .nat
  | .eq l r => .eq (l.nameless k ε) (r.nameless k ε)
  | .and l r => .and (l.nameless k ε) (r.nameless k ε)
  | .or l r => .or (l.nameless k ε) (r.nameless k ε)
  | .arrow z .nat c => .all (c.nameless (k + 1) (update ε z (.bound k)))
  | .arrow z d c => .implies z (d.nameless k ε) (c.nameless k ε)
  | .struct z p s => .struct p (s.nameless (k + 1) (update ε z (.bound k)))
  | .never => .never
  | .any => .any
  | .rung l r => .rung (l.nameless k ε) (r.nameless k ε)
  | .hole => .hole

def reads (ε : String → Meaning) (u : Formula) : Meaning := fun _ k => u.nameless k ε

attribute [local simp] nameless quantified supposed mentions

variable {k : Nat} {ε δ : String → Meaning} {t u : Formula} {x : String}

theorem nameless_implication {d : Formula} (h : d ≠ .nat) (z : String) (c : Formula) :
    (Formula.arrow z d c).nameless k ε = .implies z (d.nameless k ε) (c.nameless k ε) := by
  rw [nameless]
  exact h

theorem nameless_congr (h : ∀ x, t.mentions x → ε x = δ x) : t.nameless k ε = t.nameless k δ := by
  induction t using binder_induction generalizing k ε δ with
  | var y | typeVar y => rw [nameless, nameless, h y (beq_self_eq_true y)]
  | succ t ih => rw [nameless, nameless, ih h]
  | implies z d c quantifier ihd ihc =>
    simp only [mentions_implication quantifier, Bool.or_eq_true] at h
    rw [nameless_implication quantifier, nameless_implication quantifier, ihd fun x hx => h x (.inl hx),
      ihc fun x hx => h x (.inr hx)]
  | all z c ih | struct z _ c ih =>
    rw [nameless, nameless, ih c rfl fun x hx => update_congr fun bound => ?_]
    exact h x (by simp [hx, Ne.symm bound])
  | zero | nat | never | any | hole => rfl
  | _ l r ihl ihr =>
    simp only [mentions, Bool.or_eq_true] at h
    rw [nameless, nameless, ihl fun x hx => h x (.inl hx), ihr fun x hx => h x (.inr hx)]

theorem reads_congr (h : ∀ x, u.mentions x → ε x = δ x) : u.reads ε = u.reads δ := by
  funext _ k
  exact nameless_congr h

theorem reads_update {y : String} (h : u.mentions y = false) (m : Meaning) : u.reads (update ε y m) = u.reads ε := by
  refine reads_congr fun x hx => update_of_ne ?_ m ε
  rintro rfl
  cases h.symm.trans hx

section Replacement

/-- The claim about replacing a name that is proved by induction. -/
def ReadsRewritten (t : Formula) : Prop :=
  ∀ {x u k ε}, u ≠ .nat → Clear t x u → (t.rewrite x u).nameless k ε = t.nameless k (update ε x (u.reads ε))

/-- Under a quantifier over `z`, which is renamed to `fresh` if it would capture a name of `u`. -/
theorem nameless_under {c : Formula} {z fresh : String} (hu : u ≠ .nat) (bound : z ≠ x)
    (variant : isVariant z fresh) (unused : isFree fresh u = false) (unused' : isFree fresh c = false)
    (clear : ∀ z' ∈ z :: c.quantified, u.mentions z' →
      z' ∉ u.supposed ∧ ∀ w ∈ x :: (c.supposed ++ u.supposed), isVariant z' w = false)
    (ih : ∀ s : Formula, s.size = c.size → ReadsRewritten s) : (if isFree z u then
        (rewrite (rewrite c z (.var fresh)) x u).nameless (k + 1) (update ε fresh (.bound k))
      else (rewrite c x u).nameless (k + 1) (update ε z (.bound k))) =
      c.nameless (k + 1) (update (update ε x (u.reads ε)) z (.bound k)) := by
  have under := clear_under variant unused unused' clear
  by_cases caught : isFree z u
  · rw [if_pos caught] at under ⊢
    obtain ⟨other, unmentioned, unmentioned', renamed, rest⟩ := under
    have itself : (Formula.var fresh).reads (update (update ε fresh (.bound k)) x (u.reads ε)) = .bound k := by
      funext _ j
      rw [reads, nameless, update_of_ne other, update_self]
      rfl
    rw [ih _ (size_rewrite_var c z fresh) hu rest, ih c rfl (var_ne_nat _) renamed, reads_update unmentioned,
      itself]
    refine nameless_congr fun y hy => update_congr fun _ => update_congr fun _ => update_of_ne ?_ _ ε
    rintro rfl
    cases unmentioned'.symm.trans hy
  · rw [if_neg caught] at under ⊢
    rw [ih c rfl hu under.2, reads_update under.1, Function.update_comm bound.symm]

theorem readsRewritten (t : Formula) : ReadsRewritten t := by
  induction t using binder_induction with
  | var z | typeVar z =>
    intro x u k ε hu clear
    rw [rewrite]
    split
    next same =>
      rw [nameless, same, update_self]
      rfl
    next other =>
      rw [nameless, nameless, update_of_ne other]
  | zero | nat | never | any | hole => intro x u k ε hu clear; rw [rewrite]; rfl
  | succ s ih => intro x u k ε hu clear; rw [rewrite, nameless, nameless, ih hu clear]
  | implies z d c quantifier ihd ihc =>
    intro x u k ε hu clear
    obtain ⟨left, right⟩ := clear.implication quantifier
    rw [rewrite_implication quantifier,
      nameless_implication (rewrite_ne_of_ne (.inl rfl) quantifier hu x), nameless_implication quantifier,
      ihd hu left, ihc hu right]
  | all z c ih | struct z _ c ih =>
    intro x u k ε hu clear
    simp only [rewrite_all, rewrite_struct]
    split
    next shadowed =>
      rw [nameless, nameless, shadowed, Function.update_idem]
    next bound =>
      rw [apply_ite (nameless k ε), nameless, nameless, nameless]
      generalize made : freshName z _ = fresh
      rw [← nameless_under hu bound (made ▸ isVariant_freshName ..) (made ▸ isFree_freshName z (by simp))
          (made ▸ isFree_freshName z (by simp)) clear ih]
      split <;> rfl
  | _ l r ihl ihr =>
    intro x u k ε hu clear
    rw [rewrite, nameless, nameless, ihl hu, ihr hu]
    · exact clear.mono (fun z => mem_append_right _) fun w => mem_append_right _
    · exact clear.mono (fun z => mem_append_left _) fun w => mem_append_left _

/-- Where names are clear, replacing one is giving it the meaning of what replaces it. -/
theorem nameless_rewrite (hu : u ≠ .nat) (clear : Clear t x u) :
    (t.rewrite x u).nameless k ε = t.nameless k (update ε x (u.reads ε)) :=
  readsRewritten t hu clear

end Replacement

section TypeVariables

def hasTypeVar (x : String) : Formula → Bool
  | .typeVar y => y == x
  | .succ t => t.hasTypeVar x
  | .add l r | .mul l r | .eq l r | .and l r | .or l r | .rung l r => l.hasTypeVar x || r.hasTypeVar x
  | .arrow y .nat c => y != x && c.hasTypeVar x
  | .arrow _ d c => d.hasTypeVar x || c.hasTypeVar x
  | .struct y _ s => y != x && s.hasTypeVar x
  | _ => false

theorem hasTypeVar_implication {d : Formula} (h : d ≠ .nat) (z : String) (c : Formula) :
    (Formula.arrow z d c).hasTypeVar x = (d.hasTypeVar x || c.hasTypeVar x) := by
  rw [hasTypeVar]
  exact h

/-- A type variable that stands for itself is seen in the nameless formula. -/
theorem hasTypeVar_nameless (itself : ε x = .free x) (h : t.hasTypeVar x) :
    (t.nameless k ε).hasTypeVar x := by
  induction t using binder_induction generalizing k ε with
  | typeVar y =>
    obtain rfl := beq_iff_eq.1 h
    rw [nameless, itself]
    exact beq_self_eq_true y
  | succ t ih => exact ih itself h
  | implies z d c quantifier ihd ihc =>
    rw [hasTypeVar_implication quantifier, Bool.or_eq_true] at h
    rw [nameless_implication quantifier, Nameless.hasTypeVar, Bool.or_eq_true]
    exact h.imp (ihd itself) (ihc itself)
  | all z c ih | struct z _ c ih =>
    rw [hasTypeVar, Bool.and_eq_true, bne_iff_ne] at h
    exact ih c rfl ((update_of_ne h.1.symm _ ε).trans itself) h.2
  | var | zero | nat | never | any | hole => cases h
  | _ l r ihl ihr =>
    rw [hasTypeVar, Bool.or_eq_true] at h
    rw [nameless, Nameless.hasTypeVar, Bool.or_eq_true]
    exact h.imp (ihl itself) (ihr itself)

/-- A type variable of the nameless formula comes from the meaning of a name. -/
theorem exists_hasTypeVar (h : (t.nameless k ε).hasTypeVar x = true) :
    ∃ y isType j, (isType = true → t.hasTypeVar y = true) ∧ (ε y isType j).hasTypeVar x = true := by
  induction t using binder_induction generalizing k ε with
  | var y => exact ⟨y, false, k, nofun, h⟩
  | typeVar y => exact ⟨y, true, k, fun _ => beq_self_eq_true y, h⟩
  | succ t ih => exact ih h
  | implies z d c quantifier ihd ihc =>
    rw [nameless_implication quantifier, Nameless.hasTypeVar, Bool.or_eq_true] at h
    simp only [hasTypeVar_implication quantifier]
    rcases h with h | h
    · obtain ⟨y, isType, j, left, found⟩ := ihd h
      exact ⟨y, isType, j, fun h => by rw [left h, Bool.true_or], found⟩
    · obtain ⟨y, isType, j, right, found⟩ := ihc h
      exact ⟨y, isType, j, fun h => by rw [right h, Bool.or_true], found⟩
  | all z c ih | struct z _ c ih =>
    obtain ⟨y, isType, j, inside, found⟩ := ih c rfl h
    have other : y ≠ z := by
      rintro rfl
      rw [update_self] at found
      cases found
    rw [update_of_ne other] at found
    exact ⟨y, isType, j, fun h => by rw [hasTypeVar, inside h, Bool.and_true, bne_iff_ne]; exact other.symm,
      found⟩
  | zero | nat | never | any | hole => cases h
  | _ l r ihl ihr =>
    rw [nameless, Nameless.hasTypeVar, Bool.or_eq_true] at h
    rcases h with h | h
    · obtain ⟨y, isType, j, left, found⟩ := ihl h
      exact ⟨y, isType, j, fun h => by rw [hasTypeVar, left h, Bool.true_or], found⟩
    · obtain ⟨y, isType, j, right, found⟩ := ihr h
      exact ⟨y, isType, j, fun h => by rw [hasTypeVar, right h, Bool.or_true], found⟩

theorem hasTypeVar_of_nameless (h : (t.nameless k .free).hasTypeVar x = true) : t.hasTypeVar x = true := by
  obtain ⟨y, isType, j, inside, found⟩ := exists_hasTypeVar h
  cases isType with
  | false => cases found
  | true =>
    obtain rfl := beq_iff_eq.1 found
    exact inside rfl

end TypeVariables

end Formula
end Peano
