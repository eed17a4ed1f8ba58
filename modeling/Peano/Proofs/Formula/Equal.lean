import Peano.Proofs.Formula.Identity
namespace Peano.Formula
open Function (update)

/-- The rules by which formulas without `any` are the same. -/
inductive Alike : Formula → Formula → Prop
  | rungLeft {l r b l' r'} (sides : sides? b = some (l', r')) (same : sameIdentity l r l' r' = true) :
    Alike (.rung l r) b
  | rungRight {l r l' r'} (same : sameIdentity l' r' l r = true) : Alike (.eq l r) (.rung l' r')
  | var {x} : Alike (.var x) (.var x)
  | zero : Alike .zero .zero
  | nat : Alike .nat .nat
  | never : Alike .never .never
  | succ {t t'} (of : Alike t t') : Alike (.succ t) (.succ t')
  | add {l r l' r'} (left : Alike l l') (right : Alike r r') : Alike (.add l r) (.add l' r')
  | mul {l r l' r'} (left : Alike l l') (right : Alike r r') : Alike (.mul l r) (.mul l' r')
  | eq {l r l' r'} (left : Alike l l') (right : Alike r r') : Alike (.eq l r) (.eq l' r')
  | and {l r l' r'} (left : Alike l l') (right : Alike r r') : Alike (.and l r) (.and l' r')
  | or {l r l' r'} (left : Alike l l') (right : Alike r r') : Alike (.or l r) (.or l' r')
  | arrow {x y d d' c c' aligned} (domain : Alike d d') (renamed : alignBody? x y c' = some aligned)
    (codomain : Alike c aligned) : Alike (.arrow x d c) (.arrow y d' c')
  | struct {x y p q s s' aligned} (renamed : alignBody? x y s' = some aligned)
    (statement : Alike s aligned) : Alike (.struct x p s) (.struct y q s')

section Inversion

variable {a b : Formula}

theorem bothEqual_ok {first : Except Incomparable Bool} {second : Unit → Except Incomparable Bool}
    (h : bothEqual first second = .ok true) : first = .ok true ∧ second () = .ok true := by
  unfold bothEqual at h
  split at h
  · exact ⟨rfl, h⟩
  next fails =>
    exact (fails h).elim

def equalBodies (x : String) (a : Formula) (y : String) (b : Formula) : Except Incomparable Bool :=
  match alignBody? x y b with
  | some b => equal a b
  | none => .ok false

theorem equalBodies_ok {x y : String} (h : equalBodies x a y b = .ok true) :
    ∃ b', alignBody? x y b = some b' ∧ equal a b' = .ok true := by
  unfold equalBodies at h
  split at h
  · exact ⟨_, by assumption, h⟩
  · cases h

theorem anyFree_alignBody? {x y : String} {c : Formula} (h : alignBody? x y b = some c)
    (hb : b.anyFree = true) : c.anyFree = true := by
  unfold alignBody? at h
  split at h
  · cases h
    exact hb
  split at h
  · cases h
  · cases h
    exact anyFree_rewrite hb rfl

theorem sides?_of_equalRung {l r : Formula} (h : equalRung l r b = true) :
    ∃ l' r', sides? b = some (l', r') ∧ sameIdentity l r l' r' = true := by
  unfold equalRung at h
  split at h
  · exact ⟨_, _, by assumption, h⟩
  · cases h

theorem alike_of_equal (h : equal a b = .ok true) (ha : a.anyFree = true) (hb : b.anyFree = true) :
    Alike a b := by
  induction a generalizing b with
  | rung l r =>
    have compared : equalRung l r b = true := by
      cases b with
      | any => cases hb
      | _ => exact Except.ok.inj h
    obtain ⟨l', r', sides, same⟩ := sides?_of_equalRung compared
    exact .rungLeft sides same
  | var x =>
    cases b with
    | var y =>
      have same : x = y := by simpa [equal, equalEarly?] using h
      subst same
      exact .var
    | any => cases hb
    | _ => cases h
  | zero =>
    cases b with
    | zero => exact .zero
    | any => cases hb
    | _ => cases h
  | nat =>
    cases b with
    | nat => exact .nat
    | any => cases hb
    | _ => cases h
  | never =>
    cases b with
    | never => exact .never
    | any => cases hb
    | _ => cases h
  | succ t ih =>
    cases b with
    | succ t' => exact .succ (ih h ha hb)
    | any => cases hb
    | _ => cases h
  | add l r ihl ihr | mul l r ihl ihr | eq l r ihl ihr | and l r ihl ihr | or l r ihl ihr =>
    have parts {l' r' : Formula} (both : bothEqual (equal l l') (fun _ => equal r r') = .ok true)
        (hb : (l'.anyFree && r'.anyFree) = true) : Alike l l' ∧ Alike r r' := by
      simp only [anyFree, Bool.and_eq_true] at ha hb
      exact ⟨ihl (bothEqual_ok both).1 ha.1 hb.1, ihr (bothEqual_ok both).2 ha.2 hb.2⟩
    cases b with
    | add | mul | eq | and | or =>
      first
        | cases h
        | exact .add (parts h hb).1 (parts h hb).2
        | exact .mul (parts h hb).1 (parts h hb).2
        | exact .eq (parts h hb).1 (parts h hb).2
        | exact .and (parts h hb).1 (parts h hb).2
        | exact .or (parts h hb).1 (parts h hb).2
    | rung l' r' => first | cases h | exact .rungRight (Except.ok.inj h)
    | any => cases hb
    | _ => cases h
  | arrow x d c ihd ihc =>
    simp only [anyFree, Bool.and_eq_true] at ha
    cases b with
    | arrow y d' c' =>
      simp only [anyFree, Bool.and_eq_true] at hb
      have both : bothEqual (equal d d') (fun _ => equalBodies x c y c') = .ok true := h
      obtain ⟨domain, codomain⟩ := bothEqual_ok both
      obtain ⟨aligned, renamed, codomain⟩ := equalBodies_ok codomain
      exact .arrow (ihd domain ha.1 hb.1) renamed (ihc codomain ha.2 (anyFree_alignBody? renamed hb.2))
    | any => cases hb
    | _ => cases h
  | struct x p s ih =>
    cases b with
    | struct y q s' =>
      have bodies : equalBodies x s y s' = .ok true := h
      obtain ⟨aligned, renamed, statement⟩ := equalBodies_ok bodies
      exact .struct renamed (ih statement ha (anyFree_alignBody? renamed hb))
    | any => cases hb
    | _ => cases h
  | any => cases ha
  | typeVar x | hole =>
    cases b with
    | any => cases hb
    | _ => cases h

end Inversion

section Reading

variable {a b : Formula}
variable {x y : String}

theorem Alike.nat_iff (h : Alike a b) : a = .nat ↔ b = .nat := by
  cases h with
  | nat => exact Iff.rfl
  | rungLeft sides _ =>
    refine iff_of_false nofun ?_
    rintro rfl
    cases sides
  | _ => exact iff_of_false nofun nofun

theorem Alike.value_eq (h : Alike a b) (ρ : String → Nat) : a.value ρ = b.value ρ := by
  induction h with
  | @rungLeft l r b l' r' sides _ =>
    cases b with
    | eq _ _ | rung _ _ => rfl
    | _ => cases sides
  | succ _ ih => simp only [value, ih]
  | add _ _ ihl ihr | mul _ _ ihl ihr => simp only [value, ihl, ihr]
  | _ => rfl

/-- The terms of an equation up to the laws of rings, and of the one it is compared with. -/
def comparable (l r l' r' : Formula) : Bool :=
  l.reckonable && r.reckonable && l'.reckonable && r'.reckonable

theorem comparable_iff {l r l' r' : Formula} (h : comparable l r l' r' = true)
    (same : sameIdentity l r l' r' = true) (ρ : String → Nat) :
    l.value ρ = r.value ρ ↔ l'.value ρ = r'.value ρ := by
  simp only [comparable, Bool.and_eq_true] at h
  exact value_eq_iff_of_sameIdentity h.1.1.1 h.1.1.2 h.1.2 h.2 same ρ

/-- Whether two formulas that are alike are so for good reasons: renaming a bound variable captures
nothing, a name that is renamed is really bound, and polynomials are computed as they should be. -/
def aligned : Formula → Formula → Bool
  | .rung l r, .eq l' r' | .rung l r, .rung l' r' => comparable l r l' r'
  | .eq l r, .rung l' r' => comparable l' r' l r
  | .and l r, .and l' r' | .or l r, .or l' r' => aligned l l' && aligned r r'
  | .arrow x d c, .arrow y d' c' => aligned d d' &&
      if x = y then aligned c c'
      else !c'.mentions (if d.isNat then x else y) && captureFree c' y (.var x) &&
        aligned c (c'.rewrite y (.var x))
  | .struct x _ s, .struct y _ s' =>
      if x = y then aligned s s'
      else !s'.mentions x && captureFree s' y (.var x) && aligned s (s'.rewrite y (.var x))
  | _, _ => true

theorem alignBody?_of_ne {c : Formula} (h : alignBody? x y b = some c) (other : x ≠ y) :
    c = b.rewrite y (.var x) := by
  rw [alignBody?, if_neg other] at h
  split at h
  · cases h
  · exact (Option.some.inj h).symm

variable {M : Type} {S : Semantics M}

/-- Under a quantifier over `y` that is renamed to `x`. -/
theorem meaning_realigned {c : Formula} (ρ : String → Nat) (n : Nat) (clear : c.mentions x = false)
    (free : captureFree c y (.var x) = true) :
    (c.rewrite y (.var x)).meaning S (update ρ x n) = c.meaning S (update ρ y n) := by
  rw [meaning_rewrite free rfl, value, Function.update_self]
  refine meaning_congr fun z hz => update_congr fun _ => Function.update_of_ne ?_ n ρ
  rintro rfl
  cases clear.symm.trans hz

/-- Under quantifiers over `x` and over `y`, which is renamed to `x`. -/
theorem meaning_aligned {c c' body : Formula} (renamed : alignBody? x y c' = some body)
    (straight : (if x = y then aligned c c'
      else !c'.mentions x && captureFree c' y (.var x) && aligned c (c'.rewrite y (.var x))) = true)
    (ih : aligned c body = true → ∀ ρ, c.meaning S ρ = body.meaning S ρ) (ρ : String → Nat) (n : Nat) :
    c.meaning S (update ρ x n) = c'.meaning S (update ρ y n) := by
  by_cases same : x = y
  · subst same
    rw [alignBody?, if_pos rfl] at renamed
    cases renamed
    exact ih (by simpa using straight) _
  · cases alignBody?_of_ne renamed same
    simp only [if_neg same, Bool.and_eq_true, Bool.not_eq_true'] at straight
    rw [ih straight.2, meaning_realigned ρ n straight.1.1 straight.1.2]

theorem Alike.meaning_eq (h : Alike a b) (straight : aligned a b = true) (ρ : String → Nat) :
    a.meaning S ρ = b.meaning S ρ := by
  induction h generalizing ρ with
  | @rungLeft l r b l' r' sides same =>
    cases b with
    | eq _ _ | rung _ _ =>
      cases sides
      exact congrArg S.equation (propext (comparable_iff straight same ρ))
    | _ => cases sides
  | rungRight same => exact congrArg S.equation (propext (comparable_iff straight same ρ).symm)
  | eq left right => simp only [meaning, left.value_eq, right.value_eq]
  | succ of => simp only [meaning, value, of.value_eq]
  | add left right | mul left right => simp only [meaning, value, left.value_eq, right.value_eq]
  | and _ _ ihl ihr | or _ _ ihl ihr =>
    rw [aligned, Bool.and_eq_true] at straight
    simp only [meaning, ihl straight.1, ihr straight.2]
  | @arrow x y d d' c c' body domain renamed codomain ihd ihc =>
    rw [aligned, Bool.and_eq_true] at straight
    obtain ⟨domains, bodies⟩ := straight
    -- a quantifier binds the name that is aligned; an implication binds nothing, so there the name
    -- must not occur
    by_cases quantifier : d = .nat
    · subst quantifier
      cases domain.nat_iff.1 rfl
      simp only [meaning, meaning_aligned renamed bodies ihc ρ]
    · have quantifier' : d' ≠ .nat := fun nat => quantifier (domain.nat_iff.2 nat)
      rw [meaning_implication quantifier, meaning_implication quantifier', ihd domains]
      congr 1
      by_cases same : x = y
      · subst same
        rw [alignBody?, if_pos rfl] at renamed
        cases renamed
        exact ihc (by simpa using bodies) _
      · cases alignBody?_of_ne renamed same
        simp only [if_neg same, isNat_of_ne quantifier, Bool.false_eq_true, if_false, Bool.and_eq_true,
          Bool.not_eq_true'] at bodies
        rw [ihc bodies.2, meaning_rewrite bodies.1.2 rfl, meaning_update bodies.1.1]
  | struct renamed _ ih =>
    simp only [meaning, meaning_aligned renamed straight ih ρ]
  | _ => rfl

theorem Alike.holds_iff (h : Alike a b) (straight : aligned a b = true) (ρ : String → Nat) :
    a.Holds ρ ↔ b.Holds ρ :=
  holds_iff_of_meaning (h.meaning_eq straight ρ)

end Reading

end Peano.Formula
