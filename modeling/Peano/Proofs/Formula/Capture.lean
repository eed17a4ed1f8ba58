import Mathlib.Data.List.DropRight
import Peano.Proofs.Formula.Identity
namespace Peano.Formula
open List
open Function (update)
open Bool (and_eq_true eq_false_iff or_eq_true)

section Variants

def isTrailing (c : Char) : Bool := c.isDigit || c == '_'

/-- A name without the digits and underscores at its end. -/
def root (name : String) : List Char := name.toList.rdropWhile isTrailing

def isVariant (z w : String) : Bool :=
  root w == root z && decide (z.toList.count '_' < w.toList.count '_')

theorem isVariant_iff {z w : String} :
    isVariant z w ↔ root w = root z ∧ z.toList.count '_' < w.toList.count '_' := by
  simp [isVariant]

theorem isVariant_trans {x y z : String} (h : isVariant x y) (h' : isVariant y z) : isVariant x z := by
  rw [isVariant_iff] at *
  exact ⟨h'.1.trans h.1, h.2.trans h'.2⟩

theorem isVariant_asymm {x y : String} (h : isVariant x y) : isVariant y x = false := by
  rw [eq_false_iff, Ne, isVariant_iff]
  exact fun back => absurd (isVariant_iff.1 h).2 back.2.not_gt

theorem rdropWhile_append {l r : List Char} (h : ∀ c ∈ r, isTrailing c) :
    (l ++ r).rdropWhile isTrailing = l.rdropWhile isTrailing := by
  rw [List.rdropWhile, reverse_append, dropWhile_append_of_pos (by simpa using h)]
  rfl

def numbered (base : String) (i : Nat) : String := s!"{base}_{i}"

theorem toList_numbered (base : String) (i : Nat) :
    (numbered base i).toList = base.toList ++ '_' :: Nat.toDigits 10 i := by
  simp [numbered, toString]

theorem count_digits {l : List Char} (h : ∀ c ∈ l, c.isDigit) : l.count '_' = 0 :=
  count_eq_zero.2 fun mem => absurd (h _ mem) (by decide)

theorem exists_stem (name : String) :
    ∃ digits, name.toList = (stem name).toList ++ digits ∧ ∀ c ∈ digits, c.isDigit := by
  refine ⟨(name.toList.reverse.takeWhile Char.isDigit).reverse, ?_, ?_⟩
  · rw [stem, String.toList_ofList, ← reverse_append, takeWhile_append_dropWhile,
      reverse_reverse]
  · intro c mem
    exact mem_takeWhile_imp (mem_reverse.1 mem)

theorem isVariant_numbered (name : String) (i : Nat) : isVariant name (numbered (stem name) i) := by
  obtain ⟨digits, split, all⟩ := exists_stem name
  have number : ∀ c ∈ Nat.toDigits 10 i, c.isDigit := fun c mem =>
    Nat.isDigit_of_mem_toDigits (by decide) (by decide) mem
  have trailing : ∀ c ∈ '_' :: Nat.toDigits 10 i, isTrailing c := by
    simpa [isTrailing] using fun c mem => Or.inl (number c mem)
  rw [isVariant_iff, root, root, toList_numbered, split, rdropWhile_append trailing,
    rdropWhile_append (by simpa [isTrailing] using fun c mem => Or.inl (all c mem))]
  simp [count_digits all]

end Variants

section Freshness

theorem exists_freeNames (t : Formula) :
    ∃ names : List String, names.length ≤ t.size ∧ ∀ x, isFree x t → x ∈ names := by
  induction t with
  | var y | typeVar y => exact ⟨[y], by simp [size], by simp [isFree]⟩
  | succ t ih => exact ih.imp fun names h => ⟨h.1.trans (Nat.le_succ _), h.2⟩
  | arrow z d c ihd ihc =>
    obtain ⟨left, few, all⟩ := ihd
    obtain ⟨right, few', all'⟩ := ihc
    refine ⟨left ++ right, by simp only [length_append, size]; omega, fun x free => ?_⟩
    rw [isFree, and_eq_true, or_eq_true] at free
    exact mem_append.2 (free.2.imp (all x) (all' x))
  | struct z p s ih =>
    refine ih.imp fun names h => ⟨h.1.trans (Nat.le_succ _), fun x free => h.2 x ?_⟩
    rw [isFree, and_eq_true] at free
    exact free.2
  | zero | nat | never | any | hole => exact ⟨[], Nat.zero_le _, by simp [isFree]⟩
  | _ l r ihl ihr =>
    obtain ⟨left, few, all⟩ := ihl
    obtain ⟨right, few', all'⟩ := ihr
    refine ⟨left ++ right, by simp only [length_append, size]; omega, fun x free => ?_⟩
    rw [isFree, or_eq_true] at free
    exact mem_append.2 (free.imp (all x) (all' x))

theorem exists_freeNames_any (ts : List Formula) : ∃ names : List String,
    names.length < ts.foldr (fun t n => t.size + n) 1 ∧ ∀ x, ts.any (isFree x) → x ∈ names := by
  induction ts with
  | nil => exact ⟨[], Nat.zero_lt_one, by simp⟩
  | cons t ts ih =>
    obtain ⟨names, few, all⟩ := exists_freeNames t
    obtain ⟨names', few', all'⟩ := ih
    refine ⟨names ++ names', by simp only [length_append, foldr_cons]; omega, fun x free => ?_⟩
    rw [any_cons, or_eq_true] at free
    exact mem_append.2 (free.imp (all x) (all' x))

theorem numbered_injective (base : String) : Function.Injective (numbered base) := by
  intro i j h
  have lists := congrArg String.toList h
  rw [toList_numbered, toList_numbered] at lists
  have digits : Nat.toDigits 10 i = Nat.toDigits 10 j := by simpa using lists
  simpa using congrArg (Nat.ofDigitChars 10 · 0) digits

theorem firstFree_spec (base : String) (ts : List Formula) (fuel i : Nat) :
    (∃ j, firstFree base ts fuel i = numbered base j) ∧ (ts.any (isFree (firstFree base ts fuel i)) = false ∨
        ∀ j < fuel, ts.any (isFree (numbered base (i + j)))) := by
  induction fuel generalizing i with
  | zero => exact ⟨⟨i, rfl⟩, .inr (by simp)⟩
  | succ fuel ih =>
    obtain ⟨made, fresh⟩ := ih (i + 1)
    rw [firstFree]
    split
    next taken =>
      refine ⟨made, fresh.imp_right fun all j hj => ?_⟩
      cases j with
      | zero => exact taken
      | succ j =>
        rw [← Nat.add_assoc, Nat.add_right_comm]
        exact all j (by omega)
    next free =>
      exact ⟨⟨i, rfl⟩, .inl (eq_false_iff.2 free)⟩

theorem isVariant_freshName (name : String) (ts : List Formula) : isVariant name (freshName name ts) := by
  obtain ⟨⟨j, made⟩, -⟩ := firstFree_spec (stem name) ts (ts.foldr (fun t n => t.size + n) 1) 2
  rw [freshName, made]
  exact isVariant_numbered name j

theorem isFree_freshName (name : String) {ts : List Formula} {t : Formula} (mem : t ∈ ts) :
    isFree (freshName name ts) t = false := by
  obtain ⟨names, few, all⟩ := exists_freeNames_any ts
  obtain ⟨-, fresh | taken⟩ := firstFree_spec (stem name) ts (ts.foldr (fun t n => t.size + n) 1) 2
  · exact eq_false_iff.2 fun free => eq_false_iff.1 fresh (any_eq_true.2 ⟨t, mem, free⟩)
  · have distinct := (nodup_range (n := ts.foldr (fun t n => t.size + n) 1)).map
      ((numbered_injective (stem name)).comp (add_right_injective 2))
    have many := (distinct.subperm fun x mem => by
      obtain ⟨j, hj, rfl⟩ := mem_map.1 mem
      exact all _ (taken j (mem_range.1 hj))).length_le
    rw [length_map, length_range] at many
    exact absurd many few.not_ge

end Freshness

section Capture

def quantified : Formula → List String
  | .arrow z .nat c => z :: c.quantified
  | .arrow _ d c => d.quantified ++ c.quantified
  | .struct z _ s => z :: s.quantified
  | .succ t => t.quantified
  | .add l r | .mul l r | .eq l r | .and l r | .or l r | .rung l r => l.quantified ++ r.quantified
  | _ => []

def supposed : Formula → List String
  | .arrow _ .nat c => c.supposed
  | .arrow z d c => z :: (d.supposed ++ c.supposed)
  | .struct _ _ t | .succ t => t.supposed
  | .add l r | .mul l r | .eq l r | .and l r | .or l r | .rung l r => l.supposed ++ r.supposed
  | _ => []

attribute [local simp] quantified supposed

/-- If a name of `u` is quantified, no implication is named, and no name replaced, as the quantifier
could be after renaming. -/
def Apart (t : Formula) (x : String) (u : Formula) : Prop :=
  ∀ z ∈ t.quantified, u.mentions z = true → ∀ w ∈ x :: t.supposed, isVariant z w = false

instance (t : Formula) (x : String) (u : Formula) : Decidable (t.Apart x u) :=
  inferInstanceAs (Decidable (∀ z ∈ t.quantified, _))

section Implication

variable {d : Formula} (h : d ≠ .nat) (z : String) (c : Formula)
include h

theorem quantified_implication : (Formula.arrow z d c).quantified = d.quantified ++ c.quantified := by
  rw [quantified]
  exact h

theorem supposed_implication : (Formula.arrow z d c).supposed = z :: (d.supposed ++ c.supposed) := by
  rw [supposed]
  exact h

end Implication

variable {s t u c : Formula} {x z w q fresh : String}

theorem supposed_of_rewrite (hu : u ≠ .nat) (mem : w ∈ (rewrite t x u).supposed) :
    w ∈ t.supposed ∨ w ∈ u.supposed := by
  induction t using binder_induction generalizing x u with
  | var z | typeVar z =>
    rw [rewrite] at mem
    split at mem
    · exact .inr mem
    · cases mem
  | zero | nat | never | any | hole => rw [rewrite] at mem; exact .inl mem
  | succ s ih => rw [rewrite] at mem; exact ih hu mem
  | implies z d c quantifier ihd ihc =>
    rw [rewrite_implication quantifier, supposed_implication (rewrite_ne_of_ne (.inl rfl) quantifier hu x),
      mem_cons, mem_append] at mem
    rw [supposed_implication quantifier, mem_cons, mem_append]
    obtain rfl | mem | mem := mem
    · exact .inl (.inl rfl)
    · exact (ihd hu mem).imp_left fun mem => .inr (.inl mem)
    · exact (ihc hu mem).imp_left fun mem => .inr (.inr mem)
  | all z c ih | struct z _ c ih =>
    simp only [rewrite_all, rewrite_struct] at mem
    split at mem
    · exact .inl mem
    split at mem
    · refine (ih _ (size_rewrite_var c z _) hu mem).imp_left fun mem => ?_
      exact (ih c rfl (var_ne_nat _) mem).resolve_right not_mem_nil
    · exact ih c rfl hu mem
  | _ l r ihl ihr =>
    rw [rewrite, supposed, mem_append] at mem
    rw [supposed, mem_append]
    exact mem.elim (fun mem => (ihl hu mem).imp_left .inl) fun mem => (ihr hu mem).imp_left .inr

/-- Where the quantifiers of a formula come from after replacing a name by `u`. -/
def Inherits (t u : Formula) (q : String) : Prop :=
  q ∈ t.quantified ∨ q ∈ u.quantified ∨ ∃ z ∈ t.quantified, isFree z u = true ∧ isVariant z q = true

theorem Inherits.mono (h : Inherits s u q) (sub : ∀ z ∈ s.quantified, z ∈ t.quantified) : Inherits t u q :=
  h.imp (sub q) (.imp_right fun ⟨z, mem, free⟩ => ⟨z, sub z mem, free⟩)

/-- A new name adds variants of itself. -/
theorem Inherits.of_var {y : String} (h : Inherits t (.var y) q) : q ∈ t.quantified ∨ isVariant y q := by
  rcases h with mem | mem | ⟨z, -, free, variant⟩
  · exact .inl mem
  · cases mem
  · obtain rfl : y = z := beq_iff_eq.1 free
    exact .inr variant

/-- Under a quantifier over `z`, which is renamed to `fresh` if it would capture a name of `u`. -/
theorem inherits_under (hu : u ≠ .nat) (variant : isVariant z fresh)
    (ih : ∀ s : Formula, s.size = c.size → ∀ {u x q}, u ≠ .nat →
      q ∈ (rewrite s x u).quantified → Inherits s u q) (mem : q ∈ if z = x then z :: c.quantified
      else if isFree z u then fresh :: (rewrite (rewrite c z (.var fresh)) x u).quantified
      else z :: (rewrite c x u).quantified) : Inherits (.arrow z .nat c) u q := by
  split at mem
  · exact .inl mem
  split at mem
  next caught =>
    have renamed {q : String} (h : isVariant z q) : ∃ w ∈ z :: c.quantified, isFree w u ∧
        isVariant w q := ⟨z, mem_cons_self, caught, h⟩
    -- renaming the body adds variants of `fresh` at most, and those are variants of `z`
    have old {q : String} (mem : q ∈ (rewrite c z (.var fresh)).quantified) :
        q ∈ c.quantified ∨ isVariant z q :=
      (ih c rfl (var_ne_nat _) mem).of_var.imp_right (isVariant_trans variant)
    rcases mem_cons.1 mem with rfl | mem
    · exact .inr (.inr (renamed variant))
    rcases ih _ (size_rewrite_var c z fresh) hu mem with mem | mem | ⟨w, mem, free, further⟩
    · exact (old mem).imp (mem_cons_of_mem z) fun added => .inr (renamed added)
    · exact .inr (.inl mem)
    · refine .inr (.inr ?_)
      rcases old mem with mem | added
      · exact ⟨w, mem_cons_of_mem z mem, free, further⟩
      · exact renamed (isVariant_trans added further)
  · rcases mem_cons.1 mem with rfl | mem
    · exact .inl mem_cons_self
    · exact (ih c rfl hu mem).mono fun w => mem_cons_of_mem z

theorem inherits_of_rewrite (hu : u ≠ .nat) (mem : q ∈ (rewrite t x u).quantified) : Inherits t u q := by
  induction t using binder_induction generalizing u x q with
  | var z | typeVar z =>
    rw [rewrite] at mem
    split at mem
    · exact .inr (.inl mem)
    · cases mem
  | zero | nat | never | any | hole => rw [rewrite] at mem; exact .inl mem
  | succ s ih => rw [rewrite] at mem; exact ih hu mem
  | implies z d c quantifier ihd ihc =>
    have parts := quantified_implication quantifier z c
    rw [rewrite_implication quantifier,
      quantified_implication (rewrite_ne_of_ne (.inl rfl) quantifier hu x), mem_append] at mem
    exact mem.elim (fun mem => (ihd hu mem).mono fun z mem => parts ▸ mem_append_left _ mem)
      fun mem => (ihc hu mem).mono fun z mem => parts ▸ mem_append_right _ mem
  | all z c ih | struct z _ c ih =>
    simp only [rewrite_all, rewrite_struct, apply_ite quantified] at mem
    exact inherits_under hu (isVariant_freshName ..) ih mem
  | _ l r ihl ihr =>
    rw [rewrite, quantified, mem_append] at mem
    exact mem.elim (fun mem => (ihl hu mem).mono fun z => mem_append_left _)
      fun mem => (ihr hu mem).mono fun z => mem_append_right _

/-- Where no implication hides it, a name that is mentioned is free. -/
theorem isFree_of_mentions (h : t.mentions x) (hidden : x ∉ t.supposed) : isFree x t := by
  induction t with
  | var y | typeVar y => exact h
  | succ t ih => exact ih h hidden
  | arrow z d c ihd ihc =>
    by_cases quantifier : d = .nat
    · subst quantifier
      simp only [mentions, isFree, and_eq_true] at h ⊢
      exact ⟨h.1, ihc h.2 hidden⟩
    · simp only [supposed_implication quantifier, mem_cons, mem_append, not_or] at hidden
      simp only [mentions_implication quantifier, isFree, and_eq_true, or_eq_true,
        bne_iff_ne] at h ⊢
      exact ⟨Ne.symm hidden.1, h.imp (ihd · hidden.2.1) (ihc · hidden.2.2)⟩
  | struct z p s ih =>
    simp only [mentions, isFree, and_eq_true] at h ⊢
    exact ⟨h.1, ih h.2 hidden⟩
  | zero | nat | never | any | hole => cases h
  | _ l r ihl ihr =>
    simp only [supposed, mem_append, not_or] at hidden
    simp only [mentions, isFree, or_eq_true] at h ⊢
    exact h.imp (ihl · hidden.1) (ihr · hidden.2)

theorem mentions_of_isFree (h : isFree x t) : t.mentions x := by
  induction t with
  | arrow z d c ihd ihc =>
    by_cases quantifier : d = .nat
    · grind [isFree, mentions]
    · grind [isFree, mentions_implication]
  | _ => grind [isFree, mentions]

/-- If a quantifier has a name of `u`, that name is free in `u` for everyone to see, and no implication is
named, and no name replaced, as the quantifier could be after renaming. -/
def Clear (t : Formula) (x : String) (u : Formula) : Prop :=
  ∀ z ∈ t.quantified, u.mentions z = true →
    z ∉ u.supposed ∧ ∀ w ∈ x :: (t.supposed ++ u.supposed), isVariant z w = false

theorem Clear.mono (h : Clear t x u) (quantifiers : ∀ z ∈ s.quantified, z ∈ t.quantified)
    (hypotheses : ∀ w ∈ s.supposed, w ∈ t.supposed) : Clear s x u := by
  intro z mem caught
  obtain ⟨seen, apart⟩ := h z (quantifiers z mem) caught
  refine ⟨seen, fun w mem => apart w ?_⟩
  simp only [mem_cons, mem_append] at mem ⊢
  exact mem.imp_right (.imp_left (hypotheses w))

theorem Clear.implication {d : Formula} (quantifier : d ≠ .nat) (h : Clear (.arrow z d c) x u) :
    Clear d x u ∧ Clear c x u := by
  have names := quantified_implication quantifier z c
  have hypotheses := supposed_implication quantifier z c
  exact ⟨h.mono (fun z mem => names ▸ mem_append_left _ mem)
      fun w mem => hypotheses ▸ mem_cons_of_mem _ (mem_append_left _ mem),
    h.mono (fun z mem => names ▸ mem_append_right _ mem)
      fun w mem => hypotheses ▸ mem_cons_of_mem _ (mem_append_right _ mem)⟩

/-- A term has no quantifiers and no implications, so its names are for everyone to see. -/
theorem Apart.clear (term : u.isTerm) (apart : t.Apart x u) : Clear t x u := by
  have none : u.supposed = [] := by
    clear apart
    induction u with
    | var _ | zero => rfl
    | succ t ih => exact ih term
    | add l r ihl ihr | mul l r ihl ihr =>
      rw [isTerm, and_eq_true] at term
      rw [supposed, ihl term.1, ihr term.2]
      rfl
    | _ => cases term
  intro z mem caught
  rw [none, append_nil]
  exact ⟨not_mem_nil, apart z mem caught⟩

/-- Under a quantifier over `z`, which is renamed to `fresh` if it would capture a name of `u`. -/
theorem clear_under (variant : isVariant z fresh) (unused : isFree fresh u = false)
    (unused' : isFree fresh c = false) (clear : Clear (.arrow z .nat c) x u) :
    if isFree z u then fresh ≠ x ∧ u.mentions fresh = false ∧ c.mentions fresh = false ∧
      Clear c z (.var fresh) ∧ Clear (rewrite c z (.var fresh)) x u
    else u.mentions z = false ∧ Clear c x u := by
  have inside : Clear c x u := fun z' mem => clear z' (mem_cons_of_mem z mem)
  split
  next caught =>
    obtain ⟨-, apart⟩ := clear z mem_cons_self (mentions_of_isFree caught)
    -- a variant of `z` is neither replaced nor the name of an implication
    have other {w : String} (further : isVariant z w) : w ∉ x :: (c.supposed ++ u.supposed) :=
      fun mem => by cases further.symm.trans (apart w mem)
    have unmentioned {t : Formula} (hidden : fresh ∈ t.supposed → fresh ∈ c.supposed ++ u.supposed)
        (free : isFree fresh t = false) : t.mentions fresh = false := by
      rw [eq_false_iff]
      refine fun mentioned => eq_false_iff.1 free (isFree_of_mentions mentioned fun mem => ?_)
      exact other variant (mem_cons_of_mem x (hidden mem))
    refine ⟨fun same => other variant (same ▸ mem_cons_self),
      unmentioned (mem_append_right _) unused, unmentioned (mem_append_left _) unused',
      fun z' _ same => ?_, fun z' mem caught' => ?_⟩
    · obtain rfl : fresh = z' := beq_iff_eq.1 same
      refine ⟨not_mem_nil, fun w mem => ?_⟩
      rw [eq_false_iff]
      intro further
      rw [show (Formula.var fresh).supposed = [] from rfl, append_nil] at mem
      rcases mem_cons.1 mem with rfl | mem
      · cases further.symm.trans (isVariant_asymm variant)
      · exact other (isVariant_trans variant further)
          (mem_cons_of_mem x (mem_append_left _ mem))
    · have fewer : ∀ w ∈ x :: ((rewrite c z (.var fresh)).supposed ++ u.supposed),
          w ∈ x :: (c.supposed ++ u.supposed) := by
        simp only [mem_cons, mem_append]
        exact fun w => .imp_right (.imp_left fun mem =>
          (supposed_of_rewrite (var_ne_nat _) mem).resolve_right not_mem_nil)
      rcases (inherits_of_rewrite (var_ne_nat _) mem).of_var with mem | added
      · exact (inside z' mem caught').imp_right fun apart w mem => apart w (fewer w mem)
      · have further := isVariant_trans variant added
        refine ⟨fun mem => other further (mem_cons_of_mem x (mem_append_right _ mem)),
          fun w mem => ?_⟩
        rw [eq_false_iff]
        exact fun again => other (isVariant_trans further again) (fewer w mem)
  next kept =>
    refine ⟨eq_false_iff.2 fun mentioned => ?_, inside⟩
    exact kept (isFree_of_mentions mentioned (clear z mem_cons_self mentioned).1)

theorem captureFree_under (hu : u ≠ .nat) (variant : isVariant z fresh) (unused : isFree fresh u = false)
    (unused' : isFree fresh c = false) (clear : Clear (.arrow z .nat c) x u)
    (ih : ∀ s : Formula, s.size = c.size → ∀ {u x}, u ≠ .nat → Clear s x u → captureFree s x u) :
    (z == x || if isFree z u then
      fresh != x && !u.mentions fresh && !c.mentions fresh && captureFree c z (.var fresh) &&
        captureFree (rewrite c z (.var fresh)) x u else !u.mentions z && captureFree c x u) := by
  have under := clear_under variant unused unused' clear
  rw [or_eq_true]
  right
  by_cases caught : isFree z u
  · rw [if_pos caught] at under ⊢
    obtain ⟨other, unmentioned, unmentioned', renamed, rest⟩ := under
    simp [other, unmentioned, unmentioned', ih c rfl (var_ne_nat _) renamed,
      ih _ (size_rewrite_var c z fresh) hu rest]
  · rw [if_neg caught] at under ⊢
    rw [under.1, ih c rfl hu under.2]
    rfl

theorem captureFree_of_clear (hu : u ≠ .nat) (clear : Clear t x u) : captureFree t x u := by
  induction t using binder_induction generalizing x u with
  | and l r ihl ihr | or l r ihl ihr =>
    rw [captureFree, ihl hu, ihr hu]
    · rfl
    · exact clear.mono (fun z => mem_append_right _) fun w => mem_append_right _
    · exact clear.mono (fun z => mem_append_left _) fun w => mem_append_left _
  | implies z d c quantifier ihd ihc =>
    obtain ⟨left, right⟩ := clear.implication quantifier
    rw [captureFree_implication quantifier, isNat_of_ne (rewrite_ne_of_ne (.inl rfl) quantifier hu x),
      ihd hu left, ihc hu right]
    rfl
  | all z c ih | struct z _ c ih =>
    rw [captureFree]
    exact captureFree_under hu (isVariant_freshName ..) (isFree_freshName z (by simp))
      (isFree_freshName z (by simp)) clear ih
  | _ => simp [captureFree]

theorem captureFree_of_apart (term : u.isTerm) (apart : t.Apart x u) : captureFree t x u :=
  captureFree_of_clear (by rintro rfl; cases term) (apart.clear term)

end Capture

theorem holds_of_isTerm {u : Formula} (term : u.isTerm) (ρ : String → Nat) : u.Holds ρ := by
  cases u <;> first | exact trivial | cases term

/-- Substitution puts the number of a term in place of a name, in terms always, in statements unless the
quantifiers it renames take the place of that name or of one that an implication hides. -/
theorem rewrite_substitutes (t : Formula) (x : String) {u : Formula} (term : u.isTerm = true)
    (ρ : String → Nat) : (t.rewrite x u).value ρ = t.value (update ρ x (u.value ρ)) ∧
      (t.Apart x u → ((t.rewrite x u).Holds ρ ↔ t.Holds (update ρ x (u.value ρ)))) :=
  ⟨value_rewrite t x u ρ,
    fun apart => holds_rewrite (captureFree_of_apart term apart) (holds_of_isTerm term ρ)⟩

/-- A quantifier that has to be renamed. -/
def onlyNumber : Formula := .arrow "y" .nat (.arrow "h" (.eq (.var "y") .zero) (.eq (.var "y") (.var "x")))

theorem onlyNumber_rewrite :
    (Formula.succ (.var "y")).isTerm = true ∧ onlyNumber.Apart "x" (.succ (.var "y")) ∧
      ∀ ρ, (onlyNumber.rewrite "x" (.succ (.var "y"))).Holds ρ ↔
        onlyNumber.Holds (update ρ "x" (ρ "y" + 1)) := by
  have apart : onlyNumber.Apart "x" (.succ (.var "y")) := by decide +kernel
  exact ⟨rfl, apart, fun ρ => (rewrite_substitutes onlyNumber "x" rfl ρ).2 apart⟩

/-- The quantifier takes the very name that is replaced, and its variable is replaced too: from
`(y: N) => y == 0` comes `(y_2: N) => y == 0`. -/
theorem quantifier_captured : ∃ t : Formula, ∃ ρ,
    t.rewrite "y_2" (.var "y") = .arrow "y_2" .nat (.eq (.var "y") .zero) ∧
      (t.rewrite "y_2" (.var "y")).Holds ρ ∧ ¬t.Holds (update ρ "y_2" ((Formula.var "y").value ρ)) := by
  have result : rewrite (.arrow "y" .nat (.eq (.var "y") .zero)) "y_2" (.var "y") =
      .arrow "y_2" .nat (.eq (.var "y") .zero) := by decide +kernel
  refine ⟨.arrow "y" .nat (.eq (.var "y") .zero), fun _ => 0, result, ?_, fun holds => ?_⟩
  · rw [result]
    intro n
    rfl
  · exact Nat.one_ne_zero (holds 1)

end Peano.Formula
