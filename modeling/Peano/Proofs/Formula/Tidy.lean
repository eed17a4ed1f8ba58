import Peano.Proofs.Formula.Capture
import Peano.Proofs.Formula.Equal
namespace Peano.Formula
open Bool (and_eq_true eq_false_iff)

section Names

variable (number : List Char → Bool)
variable {x y : String}

/-- Whether a name may stand for a number. -/
def isNumberName (x : String) : Bool := number (root x) && plainName x

theorem plainName_eq (x : String) : plainName x = (root x).all fun c => c != '*' && c != '^' := by
  have trailing : (x.toList.rtakeWhile isTrailing).all (fun c => c != '*' && c != '^') = true := by
    rw [List.all_eq_true]
    intro c mem
    have trailing := List.mem_rtakeWhile_imp mem
    rw [and_eq_true, bne_iff_ne, bne_iff_ne]
    constructor <;> (rintro rfl; revert trailing; decide)
  have split := List.rdropWhile_append_rtakeWhile (p := isTrailing) (l := x.toList)
  rw [plainName, ← split, List.all_append, trailing, Bool.and_true]
  rfl

theorem isNumberName_congr (h : root x = root y) : isNumberName number x = isNumberName number y := by
  rw [isNumberName, isNumberName, plainName_eq, plainName_eq, h]

/-- Whether this may stand where numbers do: a term whose degree is a word. -/
def isSide (t : Formula) : Bool := t.isTerm && decide (t.degree < 2 ^ 64)

/-- Under quantifiers with names of the roots `outer`. Only `number` tells which roots are for numbers
and which for proofs. -/
def tidy (outer : List (List Char)) : Formula → Bool
  | .var x => isNumberName number x
  | .succ t => t.isSide && t.tidy outer
  | .add l r | .mul l r | .eq l r | .rung l r => l.isSide && r.isSide && l.tidy outer && r.tidy outer
  | .and l r | .or l r => l.tidy outer && r.tidy outer
  | .arrow z .nat c => isNumberName number z && !outer.contains (root z) && c.tidy (root z :: outer)
  | .arrow z d c => !number (root z) && !d.isAny && d.tidy outer && c.tidy outer
  | .struct z _ s => isNumberName number z && !outer.contains (root z) && s.tidy (root z :: outer)
  | .typeVar _ | .hole => false
  | _ => true

variable {number} {outer : List (List Char)} {t : Formula}

attribute [local simp] tidy

theorem tidy_implication {d : Formula} (h : d ≠ .nat) (z : String) (c : Formula) :
    (Formula.arrow z d c).tidy number outer =
      (!number (root z) && !d.isAny && d.tidy number outer && c.tidy number outer) := by
  rw [tidy]
  exact h

theorem number_of_isNumberName (h : isNumberName number x = true) : number (root x) = true := by
  rw [isNumberName, and_eq_true] at h
  exact h.1

theorem tidy_names (h : t.tidy number outer = true) : (∀ w ∈ t.supposed, number (root w) = false) ∧
      (∀ z ∈ t.quantified, number (root z) = true ∧ root z ∉ outer) ∧
      ∀ x, t.mentions x = true → number (root x) = true := by
  induction t using binder_induction generalizing outer with
  | var y =>
    refine ⟨List.forall_mem_nil _, List.forall_mem_nil _, fun x mentioned => ?_⟩
    obtain rfl := beq_iff_eq.1 mentioned
    exact number_of_isNumberName h
  | succ t ih => exact ih (Bool.and_eq_true_iff.1 h).2
  | implies z d c quantifier ihd ihc =>
    simp only [tidy_implication quantifier, and_eq_true, Bool.not_eq_true'] at h
    obtain ⟨proofs, quantifiers, free⟩ := ihd h.1.2
    obtain ⟨proofs', quantifiers', free'⟩ := ihc h.2
    simp only [supposed_implication quantifier, quantified_implication quantifier,
      mentions_implication quantifier, List.mem_append, Bool.or_eq_true]
    refine ⟨List.forall_mem_cons.2 ⟨h.1.1.1, fun w mem => ?_⟩,
      fun z mem => mem.elim (quantifiers z) (quantifiers' z),
      fun x mentioned => mentioned.elim (free x) (free' x)⟩
    exact (List.mem_append.1 mem).elim (proofs w) (proofs' w)
  | all z c ih | struct z _ c ih =>
    simp only [tidy, and_eq_true, Bool.not_eq_true', List.contains_eq_mem,
      decide_eq_false_iff_not] at h
    obtain ⟨proofs, quantifiers, free⟩ := ih c rfl h.2
    refine ⟨proofs, List.forall_mem_cons.2 ⟨⟨number_of_isNumberName h.1.1, h.1.2⟩, fun z' mem => ?_⟩,
      fun x mentioned => free x (Bool.and_eq_true_iff.1 mentioned).2⟩
    exact (quantifiers z' mem).imp_right (mt (List.mem_cons_of_mem _))
  | typeVar _ | hole => cases h
  | zero | nat | never | any => simp [supposed, quantified, mentions]
  | _ l r ihl ihr =>
    simp only [tidy, and_eq_true] at h
    obtain ⟨proofs, quantifiers, free⟩ := ihl (show l.tidy number outer = true by simp only [h])
    obtain ⟨proofs', quantifiers', free'⟩ := ihr h.2
    simp only [supposed, quantified, mentions, List.mem_append, Bool.or_eq_true]
    exact ⟨fun w mem => mem.elim (proofs w) (proofs' w), fun z mem => mem.elim (quantifiers z) (quantifiers' z),
      fun x mentioned => mentioned.elim (free x) (free' x)⟩

theorem isSide_rewrite (h : t.isSide = true) : (rewrite t x (.var y)).isSide = true := by
  rw [isSide, and_eq_true] at h ⊢
  suffices (rewrite t x (.var y)).isTerm = true ∧ (rewrite t x (.var y)).degree = t.degree from
    ⟨this.1, this.2 ▸ h.2⟩
  have term := h.1
  clear h
  induction t with
  | var z => rw [rewrite]; split <;> exact ⟨rfl, rfl⟩
  | zero => rw [rewrite]; exact ⟨rfl, rfl⟩
  | succ t ih => rw [rewrite]; exact ih term
  | add l r ihl ihr | mul l r ihl ihr =>
    rw [isTerm, and_eq_true] at term
    simp only [rewrite, isTerm, degree, ihl term.1, ihr term.2, Bool.and_self, and_self]
  | _ => cases term

theorem root_freshName (z : String) (ts : List Formula) : root (freshName z ts) = root z :=
  (isVariant_iff.1 (isVariant_freshName z ts)).1

theorem tidy_rewrite (h : t.tidy number outer = true) (name : isNumberName number y = true) :
    (rewrite t x (.var y)).tidy number outer = true := by
  induction t using binder_induction generalizing x y outer with
  | var z => rw [rewrite]; split <;> assumption
  | zero | nat | never | any => rw [rewrite]; exact h
  | typeVar _ | hole => cases h
  | succ s ih =>
    simp only [tidy, and_eq_true] at h
    simp only [rewrite, tidy, isSide_rewrite h.1, ih h.2 name, Bool.and_self]
  | and l r ihl ihr | or l r ihl ihr =>
    simp only [tidy, and_eq_true] at h
    simp only [rewrite, tidy, ihl h.1 name, ihr h.2 name, Bool.and_self]
  | add l r ihl ihr | mul l r ihl ihr | eq l r ihl ihr | rung l r ihl ihr =>
    simp only [tidy, and_eq_true] at h
    simp only [rewrite, tidy, isSide_rewrite h.1.1.1, isSide_rewrite h.1.1.2, ihl h.1.2 name,
      ihr h.2 name, Bool.and_self]
  | implies z d c quantifier ihd ihc =>
    simp only [tidy_implication quantifier, and_eq_true, Bool.not_eq_true'] at h
    have keeps {a : Formula} (plain : a = .nat ∨ a = .any) (hd : d ≠ a) : rewrite d x (.var y) ≠ a :=
      rewrite_ne_of_ne plain hd (by rcases plain with rfl | rfl <;> simp) x
    rw [rewrite_implication quantifier, tidy_implication (keeps (.inl rfl) quantifier), h.1.1.1,
      isAny_eq_false_iff.2 (keeps (.inr rfl) (isAny_eq_false_iff.1 h.1.1.2)), ihd h.1.2 name, ihc h.2 name]
    rfl
  | all z c ih | struct z _ c ih =>
    have rest := h
    simp only [tidy, and_eq_true] at rest
    simp only [rewrite_all, rewrite_struct]
    split
    · exact h
    split
    · have named {ts : List Formula} : isNumberName number (freshName z ts) = true :=
        (isNumberName_congr number (root_freshName z ts)).trans rest.1.1
      rw [tidy, root_freshName, named, rest.1.2,
        ih _ (size_rewrite_var c z _) (ih c rfl rest.2 named) name]
      rfl
    · rw [tidy, rest.1.1, rest.1.2, ih c rfl rest.2 name]
      rfl

theorem reckonable_of_tidy (side : t.isSide = true) (h : t.tidy number outer = true) :
    t.reckonable = true := by
  rw [isSide, and_eq_true] at side
  rw [reckonable, side.2, Bool.and_true]
  have term := side.1
  clear side
  induction t with
  | var x => exact (Bool.and_eq_true_iff.1 h).2
  | zero => rfl
  | succ t ih => exact ih (Bool.and_eq_true_iff.1 h).2 term
  | add l r ihl ihr | mul l r ihl ihr =>
    simp only [tidy, isTerm, and_eq_true] at h term
    rw [plainNames, ihl h.1.2 term.1, ihr h.2 term.2]
    rfl
  | _ => cases term

end Names

section Binders

variable {number : List Char → Bool} {outer : List (List Char)} {c : Formula} {x y : String}

/-- Nothing happens where the name does not occur. -/
theorem rewrite_eq_self {t u : Formula} (unmentioned : t.mentions x = false)
    (kept : ∀ z ∈ t.quantified, isFree z u = false) : rewrite t x u = t := by
  induction t using binder_induction with
  | var z | typeVar z => rw [rewrite, if_neg (beq_eq_false_iff_ne.1 unmentioned)]
  | zero | nat | never | any | hole => rw [rewrite]
  | succ s ih => rw [rewrite, ih unmentioned kept]
  | implies z d c quantifier ihd ihc =>
    rw [mentions_implication quantifier, Bool.or_eq_false_iff] at unmentioned
    rw [quantified_implication quantifier, List.forall_mem_append] at kept
    rw [rewrite_implication quantifier, ihd unmentioned.1 kept.1, ihc unmentioned.2 kept.2]
  | all z c ih | struct z _ c ih =>
    rw [quantified, List.forall_mem_cons] at kept
    simp only [rewrite_all, rewrite_struct]
    split
    · rfl
    next other =>
      rw [kept.1, if_neg Bool.false_ne_true, ih c rfl (by simpa [mentions, other] using unmentioned) kept.2]
  | _ l r ihl ihr =>
    rw [mentions, Bool.or_eq_false_iff] at unmentioned
    rw [quantified, List.forall_mem_append] at kept
    rw [rewrite, ihl unmentioned.1 kept.1, ihr unmentioned.2 kept.2]

theorem quantifier_renamed (name : isNumberName number x = true)
    (h : c.tidy number (root y :: outer) = true) :
    Clear c y (.var x) ∧ (isFree x c = false → c.mentions x = false) := by
  obtain ⟨proofs, quantifiers, -⟩ := tidy_names h
  have number := number_of_isNumberName name
  refine ⟨Apart.clear rfl fun z mem same w mem' => ?_, fun free => ?_⟩
  · obtain rfl := beq_iff_eq.1 same
    rw [eq_false_iff]
    intro variant
    have root_eq := (isVariant_iff.1 variant).1
    rcases List.mem_cons.1 mem' with rfl | mem'
    · exact (quantifiers x mem).2 (root_eq ▸ List.mem_cons_self)
    · cases (proofs w mem').symm.trans (root_eq ▸ number)
  · rw [eq_false_iff]
    intro mentioned
    refine eq_false_iff.1 free (isFree_of_mentions mentioned fun mem => ?_)
    cases (proofs x mem).symm.trans number

theorem implication_renamed (proof : number (root x) = false) (proof' : number (root y) = false)
    (h : c.tidy number outer = true) :
    (c.mentions x = false ∧ c.mentions y = false) ∧ captureFree c y (.var x) = true ∧
      rewrite c y (.var x) = c := by
  obtain ⟨-, quantifiers, free⟩ := tidy_names h
  have unmentioned {w : String} (proof : number (root w) = false) : c.mentions w = false :=
    eq_false_iff.2 fun mentioned => by cases proof.symm.trans (free w mentioned)
  have kept : ∀ z ∈ c.quantified, (x == z) = false := by
    intro z mem
    rw [beq_eq_false_iff_ne]
    rintro rfl
    cases proof.symm.trans (quantifiers x mem).1
  refine ⟨⟨unmentioned proof, unmentioned proof'⟩, captureFree_of_apart rfl fun z mem same => ?_,
    rewrite_eq_self (unmentioned proof') kept⟩
  cases (kept z mem).symm.trans same

theorem bodies_aligned {b b' : Formula} (name : isNumberName number x = true)
    (h : b.tidy number (root y :: outer) = true) (renamed : alignBody? x y b = some b')
    (ih : b'.tidy number (root y :: outer) = true → aligned c b' = true) : (if x = y then aligned c b
      else !b.mentions x && captureFree b y (.var x) && aligned c (b.rewrite y (.var x))) = true := by
  unfold alignBody? at renamed
  split at renamed
  next same =>
    cases renamed
    rw [if_pos same, ih h]
  next other =>
    split at renamed
    · cases renamed
    next free =>
      cases renamed
      obtain ⟨clear, unmentioned⟩ := quantifier_renamed name h
      rw [if_neg other, captureFree_of_clear (var_ne_nat x) clear, unmentioned (eq_false_iff.2 free),
        ih (tidy_rewrite h name)]
      rfl

theorem comparable_of_tidy {l r l' r' : Formula} {outer' : List (List Char)}
    (ha : (Formula.eq l r).tidy number outer = true) (hb : (Formula.eq l' r').tidy number outer' = true) :
    comparable l r l' r' = true := by
  simp only [tidy, and_eq_true] at ha hb
  simp only [comparable, reckonable_of_tidy ha.1.1.1 ha.1.2, reckonable_of_tidy ha.1.1.2 ha.2,
    reckonable_of_tidy hb.1.1.1 hb.1.2, reckonable_of_tidy hb.1.1.2 hb.2, Bool.and_self]

theorem Alike.aligned_of_tidy {a b : Formula} (h : Alike a b) {outer' : List (List Char)}
    (ha : a.tidy number outer = true) (hb : b.tidy number outer' = true) : aligned a b = true := by
  induction h generalizing outer outer' with
  | @rungLeft l r b l' r' sides _ =>
    cases b with
    | eq _ _ | rung _ _ =>
      exact comparable_of_tidy ha hb
    | _ => cases sides
  | rungRight => exact comparable_of_tidy hb ha
  | and _ _ ihl ihr | or _ _ ihl ihr =>
    simp only [tidy, and_eq_true] at ha hb
    rw [aligned, ihl ha.1 hb.1, ihr ha.2 hb.2]
    rfl
  | @arrow x y d d' c c' body domain renamed _ ihd ihc =>
    by_cases quantifier : d = .nat
    · subst quantifier
      cases domain.nat_iff.1 rfl
      simp only [tidy, and_eq_true] at ha hb
      exact bodies_aligned ha.1.1 hb.2 renamed (ihc ha.2)
    · have quantifier' : d' ≠ .nat := fun nat => quantifier (domain.nat_iff.2 nat)
      simp only [tidy_implication quantifier, tidy_implication quantifier', and_eq_true,
        Bool.not_eq_true'] at ha hb
      obtain ⟨⟨-, unmentioned⟩, capturesNone, same⟩ := implication_renamed ha.1.1.1 hb.1.1.1 hb.2
      have body_eq : body = c' := by
        unfold alignBody? at renamed
        grind
      subst body_eq
      rw [aligned, ihd ha.1.2 hb.1.2, isNat_of_ne quantifier, if_neg Bool.false_ne_true, unmentioned,
        capturesNone, same, ihc ha.2 hb.2]
      simp
  | @struct x y p q s s' body renamed _ ih =>
    simp only [tidy, and_eq_true] at ha hb
    exact bodies_aligned ha.1.1 hb.2 renamed (ih ha.2)
  | _ => rfl

end Binders

/-- Formulas that may stand for each other have the same value, and are true for the same numbers if
their names are tidy. -/
theorem equal_formulas_agree {a b : Formula} (same : equal a b = .ok true) (ha : a.anyFree = true)
    (hb : b.anyFree = true) (ρ : String → Nat) : a.value ρ = b.value ρ ∧
      ∀ number : List Char → Bool, a.tidy number [] = true → b.tidy number [] = true →
        (a.Holds ρ ↔ b.Holds ρ) := by
  have alike := alike_of_equal same ha hb
  exact ⟨alike.value_eq ρ, fun number tidy tidy' => alike.holds_iff (alike.aligned_of_tidy tidy tidy') ρ⟩

/-- Two quantifiers that exchange their names. -/
def swapped (x y : String) : Formula :=
  .arrow x .nat (.arrow y .nat (.arrow "h" (.eq (.var x) .zero) (.eq (.mul (.var x) (.var y)) .zero)))

theorem swapped_agree : equal (swapped "x" "y") (swapped "y" "x") = .ok true ∧
      (swapped "x" "y").tidy (fun r => r != ['h']) [] = true ∧
      (swapped "y" "x").tidy (fun r => r != ['h']) [] = true ∧
      ∀ ρ, (swapped "x" "y").Holds ρ ↔ (swapped "y" "x").Holds ρ := by
  have same : equal (swapped "x" "y") (swapped "y" "x") = .ok true := by decide +kernel
  have tidy : (swapped "x" "y").tidy (fun r => r != ['h']) [] = true := by decide +kernel
  have tidy' : (swapped "y" "x").tidy (fun r => r != ['h']) [] = true := by decide +kernel
  exact ⟨same, tidy, tidy', fun ρ => (equal_formulas_agree same rfl rfl ρ).2 _ tidy tidy'⟩

/-- `(x: N) => (h: x == 0) => (y: N) => z == 0`, which says different things of `x` and of `y` as `z`. -/
def inherited (x y z : String) : Formula :=
  .arrow x .nat (.arrow "h" (.eq (.var x) .zero) (.arrow y .nat (.eq (.var z) .zero)))

theorem inherited_disagree : equal (inherited "y" "y_2" "y") (inherited "y_2" "y" "y") = .ok true ∧
      ∀ ρ, (inherited "y" "y_2" "y").Holds ρ ∧ ¬(inherited "y_2" "y" "y").Holds ρ := by
  refine ⟨by decide +kernel, fun ρ => ⟨fun n zero m => ?_, fun holds => ?_⟩⟩
  · change Function.update (Function.update ρ "y" n) "y_2" m "y" = 0
    rw [Function.update_of_ne (by decide)]
    exact zero
  · have one : Function.update (Function.update ρ "y_2" 0) "y" 1 "y" = 0 := holds 0 rfl 1
    rw [Function.update_self] at one
    cases one

end Peano.Formula
