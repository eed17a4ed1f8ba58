import Peano.Proofs.Formula.Nameless
import Peano.Resolve
namespace Peano.Resolve
open Formula Function List
open Syntax (TypeExpr Name Place)

section Meanings

abbrev Pairs := List (String × Formula)

/-- Each name of a list stands for its formula. -/
def fill (δ : String → Meaning) (pairs : Pairs) : String → Meaning :=
  pairs.foldl (fun δ x => update δ x.1 (x.2.reads .free)) δ

variable {δ δ' : String → Meaning} {pairs : Pairs} {y : String}

theorem fill_congr (h : δ y = δ' y) : fill δ pairs y = fill δ' pairs y := by
  induction pairs generalizing δ δ' with
  | nil => exact h
  | cons x pairs ih => exact ih (update_congr fun _ => h)

theorem fill_of_not_mem (h : y ∉ pairs.map Prod.fst) : fill δ pairs y = δ y := by
  induction pairs generalizing δ with
  | nil => rfl
  | cons x pairs ih =>
    rw [map_cons, mem_cons, not_or] at h
    exact (ih h.2).trans (update_of_ne h.1 _ _)

theorem exists_fill (δ : String → Meaning) (h : y ∈ pairs.map Prod.fst) :
    ∃ x ∈ pairs, fill δ pairs y = x.2.reads .free := by
  induction pairs generalizing δ with
  | nil => cases h
  | cons x pairs ih =>
    by_cases later : y ∈ pairs.map Prod.fst
    · obtain ⟨z, mem, meaning⟩ := ih (update δ x.1 (x.2.reads .free)) later
      exact ⟨z, mem_cons_of_mem x mem, meaning⟩
    · obtain rfl : y = x.1 := (mem_cons.1 h).resolve_right later
      exact ⟨x, mem_cons_self, (fill_of_not_mem later).trans (update_self ..)⟩

/-- What has no part in the list keeps its meaning. -/
theorem fill_update (h : y ∉ pairs.map Prod.fst) (m : Meaning) :
    fill (update δ y m) pairs = update (fill δ pairs) y m := by
  funext z
  by_cases same : z = y
  · rw [same, fill_of_not_mem h, update_self, update_self]
  · rw [update_of_ne same]
    exact fill_congr (update_of_ne same m δ)

end Meanings

section Names

variable (pairs : Pairs) (body : Formula)

def quantifierNames : List String := body.quantified ++ pairs.flatMap (·.2.quantified)

def hypothesisNames : List String := body.supposed ++ pairs.flatMap (·.2.supposed)

/-- A parameter that is mentioned by the argument for an earlier one. -/
def Early (q : String) : Prop := ∃ x y, [x, y] <+ pairs ∧ x.2.mentions y.1 = true ∧ y.1 = q

/-- A quantifier that is mentioned by an argument. -/
def Caught (z : String) : Prop := z ∈ quantifierNames pairs body ∧ ∃ x ∈ pairs, x.2.mentions z = true

/-- Names that have to be renamed can be, to any variant. -/
structure Untangled : Prop where
  /-- They are seen to be free where they are. -/
  seen : ∀ z, Early pairs z ∨ Caught pairs body z → z ∉ pairs.flatMap (·.2.supposed)
  unused : ∀ z, Early pairs z ∨ Caught pairs body z →
    ∀ w ∈ pairs.map Prod.fst ++ hypothesisNames pairs body, isVariant z w = false
  /-- A renamed parameter meets no quantifier, -/
  quantifiers : ∀ q, Early pairs q → ∀ z ∈ quantifierNames pairs body, isVariant q z = false
  caught : ∀ q, Early pairs q → ∀ z, Caught pairs body z → root z ≠ root q
  /-- no other parameter, -/
  parameters : ∀ q q', Early pairs q → Early pairs q' → q ≠ q' → root q ≠ root q'
  /-- and no further argument before its own. -/
  between : ∀ x y z, [x, y, z] <+ pairs → x.2.mentions z.1 = true →
    y.2.mentions z.1 = false ∧ ∀ w, isVariant z.1 w = true → y.2.mentions w = false

/-- What is known of the body while arguments are put in. -/
structure Tame (t : Formula) : Prop where
  quantifiers : ∀ q ∈ t.quantified, q ∈ quantifierNames pairs body ∨
    ∃ z, Caught pairs body z ∧ isVariant z q = true
  hypotheses : ∀ w ∈ t.supposed, w ∈ hypothesisNames pairs body

end Names

section Steps

variable {pairs : Pairs} {body t : Formula}
variable {s : Slot} {x : String × Formula}

theorem Tame.initial : Tame pairs body body where
  quantifiers _ mem := .inl (mem_append_left _ mem)
  hypotheses _ mem := mem_append_left _ mem

/-- What a parameter that waits for its argument may be called by now. -/
def Called (pairs : Pairs) (s : Slot) : Prop :=
  s.current = s.param.name ∨ isVariant s.param.name s.current = true ∧ Early pairs s.param.name

theorem root_eq_of_isVariant {z q w : String} (h : isVariant z w) (h' : isVariant q w) : root z = root q :=
  (isVariant_iff.1 h).1.symm.trans (isVariant_iff.1 h').1

variable (untangled : Untangled pairs body)
include untangled

theorem current_ne {s' : Slot} (called : Called pairs s) (called' : Called pairs s')
    (mem : s.param.name ∈ pairs.map Prod.fst) (mem' : s'.param.name ∈ pairs.map Prod.fst)
    (other : s.param.name ≠ s'.param.name) : s.current ≠ s'.current := by
  intro same
  rcases called with kept | ⟨variant, early⟩ <;> rcases called' with kept' | ⟨variant', early'⟩
  · exact other (kept.symm.trans (same.trans kept'))
  · rw [← same, kept] at variant'
    cases variant'.symm.trans (untangled.unused _ (.inl early') _ (mem_append_left _ mem))
  · rw [same, kept'] at variant
    cases variant.symm.trans (untangled.unused _ (.inl early) _ (mem_append_left _ mem'))
  · exact untangled.parameters _ _ early early' other (root_eq_of_isVariant variant (same ▸ variant'))

/-- A variant of a parameter that was renamed is no name of a binder. -/
theorem Tame.unused (tame : Tame pairs body t) {q w : String} (early : Early pairs q)
    (variant : isVariant q w) : w ∉ t.quantified ∧ w ∉ t.supposed := by
  refine ⟨fun mem => ?_, fun mem => ?_⟩
  · rcases tame.quantifiers w mem with mem | ⟨z, caught, variant'⟩
    · cases variant.symm.trans (untangled.quantifiers q early w mem)
    · exact untangled.caught q early z caught (root_eq_of_isVariant variant' variant)
  · have not := untangled.unused q (.inl early) w (mem_append_right _ (tame.hypotheses w mem))
    cases variant.symm.trans not

theorem Tame.clear (tame : Tame pairs body t) (mem : x ∈ pairs) (called : Called pairs s)
    (param : s.param.name ∈ pairs.map Prod.fst) : Clear t s.current x.2 := by
  -- a name that is caught has no variant among the names that count
  have apart {z w : String} (caught : Caught pairs body z) (h : w ∈ s.current :: (t.supposed ++ x.2.supposed)) :
      isVariant z w = false := by
    have known := untangled.unused z (.inr caught)
    rw [mem_cons, mem_append] at h
    rcases h with rfl | h | h
    · rcases called with kept | ⟨variant, early⟩
      · exact known _ (mem_append_left _ (kept ▸ param))
      · rw [Bool.eq_false_iff]
        intro further
        exact untangled.caught _ early z caught (root_eq_of_isVariant further variant)
    · exact known w (mem_append_right _ (tame.hypotheses w h))
    · exact known w (mem_append_right _ (mem_append_right _ (mem_flatMap.2 ⟨x, mem, h⟩)))
  intro z quantified mentioned
  rcases tame.quantifiers z quantified with known | ⟨z₀, caught, variant⟩
  · have caught : Caught pairs body z := ⟨known, x, mem, mentioned⟩
    exact ⟨fun h => untangled.seen z (.inr caught) (mem_flatMap.2 ⟨x, mem, h⟩), fun w => apart caught⟩
  · refine ⟨fun h => ?_, fun w h => ?_⟩
    · cases variant.symm.trans (apart caught (mem_cons_of_mem _ (mem_append_right _ h)))
    · rw [Bool.eq_false_iff]
      exact fun further => Bool.eq_false_iff.1 (apart caught h) (isVariant_trans variant further)

omit untangled

theorem Tame.rewrite (tame : Tame pairs body t) (mem : x ∈ pairs) (number : x.2 ≠ .nat) (y : String) :
    Tame pairs body (t.rewrite y x.2) where
  quantifiers q h := by
    rcases inherits_of_rewrite number h with h | h | ⟨z, h, free, variant⟩
    · exact tame.quantifiers q h
    · exact .inl (mem_append_right _ (mem_flatMap.2 ⟨x, mem, h⟩))
    · rcases tame.quantifiers z h with known | ⟨z₀, caught, variant'⟩
      · exact .inr ⟨z, ⟨known, x, mem, mentions_of_isFree free⟩, variant⟩
      · exact .inr ⟨z₀, caught, isVariant_trans variant' variant⟩
  hypotheses w h := by
    rcases supposed_of_rewrite number h with h | h
    · exact tame.hypotheses w h
    · exact mem_append_right _ (mem_flatMap.2 ⟨x, mem, h⟩)

/-- The parameters that wait for their arguments, by their current names. -/
def pending (slots : List Slot) (as : List Formula) : Pairs := (slots.map Slot.current).zip as

theorem mem_pending {slots : List Slot} {as : List Formula} {y : String} (h : y ∈ (pending slots as).map Prod.fst) :
    ∃ s ∈ slots, s.current = y := by
  obtain ⟨x, mem, rfl⟩ := mem_map.1 h
  exact mem_map.1 (of_mem_zip mem).1

/-- The parameters that wait are different ones, each under one of its names. -/
structure Queue (pairs : Pairs) (slots : List Slot) : Prop where
  params : ∀ s ∈ slots, s.param.name ∈ pairs.map Prod.fst
  distinct : (slots.map (·.param.name)).Nodup
  called : ∀ s ∈ slots, Called pairs s

theorem Queue.tail {rest : List Slot} (queue : Queue pairs (s :: rest)) : Queue pairs rest :=
  ⟨(forall_mem_cons.1 queue.params).2, (nodup_cons.1 queue.distinct).2, (forall_mem_cons.1 queue.called).2⟩

/-- How an argument may meet a parameter that waits: it mentions the one by its own name, or not at all. -/
structure Meets (pairs : Pairs) (a : Formula) (s : Slot) : Prop where
  named : isFree s.param.name a = true → s.current = s.param.name ∧ Early pairs s.param.name
  other : isFree s.param.name a = false → a.mentions s.current = false

/-- Renaming the later parameters that an argument mentions changes nothing. -/
structure Avoids (pairs : Pairs) (body a t : Formula) (slots : List Slot)
    (r : Formula × List Slot) : Prop where
  tame : Tame pairs body r.1
  params : r.2.map Slot.param = slots.map Slot.param
  waiting : ∀ s ∈ r.2, a.mentions s.current = false ∧
    (s ∈ slots ∨ isVariant s.param.name s.current = true ∧ a.mentions s.param.name = true)
  reads : ∀ δ k as, slots.length = as.length →
    r.1.nameless k (fill δ (pending r.2 as)) = t.nameless k (fill δ (pending slots as))

include untangled

theorem Queue.alone {rest : List Slot} (queue : Queue pairs (s :: rest)) (as : List Formula) :
    s.current ∉ (pending rest as).map Prod.fst := by
  intro h
  obtain ⟨s', mem, same⟩ := mem_pending h
  refine current_ne untangled (queue.tail.called s' mem) (queue.called s mem_cons_self)
    (queue.tail.params s' mem) (queue.params s mem_cons_self) (fun clash => ?_) same
  exact (nodup_cons.1 queue.distinct).1 (mem_map.2 ⟨s', mem, clash⟩)

theorem Tame.renamed (tame : Tame pairs body t) {q fresh : String} (early : Early pairs q)
    (variant : isVariant q fresh) : Tame pairs body (t.rewrite q (.typeVar fresh)) where
  quantifiers w h := by
    rcases inherits_of_rewrite (by nofun) h with h | h | ⟨z, h, free, -⟩
    · exact tame.quantifiers w h
    · cases h
    · obtain rfl : fresh = z := beq_iff_eq.1 free
      exact ((tame.unused untangled early variant).1 h).elim
  hypotheses w h := by
    rcases supposed_of_rewrite (by nofun) h with h | h
    · exact tame.hypotheses w h
    · cases h

theorem rename_reads (tame : Tame pairs body t) {rest : List Slot} {fresh : String}
    (kept : s.current = s.param.name) (early : Early pairs s.param.name)
    (variant : isVariant s.param.name fresh) (unused : isFree fresh t = false) (queue : Queue pairs (s :: rest))
    (δ : String → Meaning) (k : Nat) (b : Formula) (as : List Formula) :
    (t.rewrite s.param.name (.typeVar fresh)).nameless k
        (fill (update δ fresh (b.reads .free)) (pending rest as)) =
      t.nameless k (fill (update δ s.current (b.reads .free)) (pending rest as)) := by
  -- neither the old name nor the new one is that of another parameter
  have queue' : Queue pairs ({ s with current := fresh } :: rest) :=
    ⟨forall_mem_cons.2 (forall_mem_cons.1 queue.params), queue.distinct,
      forall_mem_cons.2 ⟨.inr ⟨variant, early⟩, queue.tail.called⟩⟩
  obtain ⟨unbound, unhidden⟩ := tame.unused untangled early variant
  have clear : Clear t s.current (.typeVar fresh) := by
    intro z mem mentioned
    obtain rfl : fresh = z := beq_iff_eq.1 mentioned
    exact (unbound mem).elim
  have itself : (Formula.typeVar fresh).reads (fill (update δ fresh (b.reads .free)) (pending rest as)) =
      b.reads .free := by
    funext _ j
    rw [Formula.reads, nameless, fill_of_not_mem (queue'.alone untangled as), update_self]
    rfl
  rw [← kept, nameless_rewrite (by simp) clear, itself, ← fill_update (queue.alone untangled as)]
  refine nameless_congr fun y hy => fill_congr (update_congr fun _ => update_of_ne ?_ _ δ)
  rintro rfl
  cases unused.symm.trans (isFree_of_mentions hy unhidden)

theorem avoid_avoids (mem : x ∈ pairs) (slots : List Slot) (queue : Queue pairs slots)
    (meets : ∀ s ∈ slots, Meets pairs x.2 s) (tame : Tame pairs body t) :
    Avoids pairs body x.2 t slots (avoid x.2 t slots) := by
  induction slots generalizing t with
  | nil => exact ⟨tame, rfl, nofun, fun _ _ _ _ => rfl⟩
  | cons s rest ih =>
    obtain ⟨known, meets⟩ := forall_mem_cons.1 meets
    have ih {t : Formula} (tame : Tame pairs body t) := ih queue.tail meets tame
    rw [avoid]
    split
    next named =>
      obtain ⟨kept, early⟩ := known.named named
      have variant := isVariant_freshName s.param.name [x.2, t]
      have unused : isFree (freshName s.param.name [x.2, t]) x.2 = false := isFree_freshName _ (by simp)
      have unused' : isFree (freshName s.param.name [x.2, t]) t = false := isFree_freshName _ (by simp)
      generalize freshName s.param.name [x.2, t] = fresh at variant unused unused' ⊢
      obtain ⟨tame', params', waiting, reads⟩ := ih (tame.renamed untangled early variant)
      refine ⟨tame', congrArg (s.param :: ·) params', forall_mem_cons.2 ⟨?_, fun s' h => ?_⟩, ?_⟩
      · refine ⟨Bool.eq_false_iff.2 fun mentioned => ?_, .inr ⟨variant, mentions_of_isFree named⟩⟩
        refine Bool.eq_false_iff.1 unused (isFree_of_mentions mentioned fun hidden => ?_)
        have known := untangled.unused _ (.inl early) fresh
          (mem_append_right _ (mem_append_right _ (mem_flatMap.2 ⟨x, mem, hidden⟩)))
        cases variant.symm.trans known
      · exact (waiting s' h).imp_right (.imp_left (mem_cons_of_mem s))
      · intro δ k as long
        cases as with
        | nil => cases long
        | cons b bs =>
          refine (reads (update δ fresh (b.reads .free)) k bs (Nat.succ.inj long)).trans ?_
          exact rename_reads untangled tame kept early variant unused' queue δ k b bs
    next other =>
      obtain ⟨tame', params', waiting, reads⟩ := ih tame
      refine ⟨tame', congrArg (s.param :: ·) params', forall_mem_cons.2 ⟨?_, fun s' h => ?_⟩, ?_⟩
      · exact ⟨known.other (Bool.eq_false_iff.2 other), .inl mem_cons_self⟩
      · exact (waiting s' h).imp_right (.imp_left (mem_cons_of_mem s))
      · intro δ k as long
        cases as with
        | nil => cases long
        | cons b bs => exact reads (update δ s.current (b.reads .free)) k bs (Nat.succ.inj long)

/-- An argument is put in for its parameter after the later ones have been renamed. -/
theorem Avoids.put (mem : x ∈ pairs) (number : x.2 ≠ .nat) {slots : List Slot} {r : Formula × List Slot}
    (avoids : Avoids pairs body x.2 t slots r) (queue : Queue pairs (s :: r.2)) {as : List Formula}
    (long : slots.length = as.length) (k : Nat) :
    (r.1.rewrite s.current x.2).nameless k (fill .free (pending r.2 as)) =
      t.nameless k (fill .free ((s.current, x.2) :: pending slots as)) := by
  have itself : x.2.reads (fill .free (pending r.2 as)) = x.2.reads .free := by
    refine reads_congr fun y mentioned => fill_of_not_mem fun h => ?_
    obtain ⟨s', mem', rfl⟩ := mem_pending h
    cases (avoids.waiting s' mem').1.symm.trans mentioned
  have clear := avoids.tame.clear untangled mem (queue.called s mem_cons_self) (queue.params s mem_cons_self)
  rw [nameless_rewrite number clear, itself, ← fill_update (queue.alone untangled as)]
  exact avoids.reads _ k as long

end Steps

section Instances

variable {a t : Formula} {s : Slot} {before rest : Pairs}

/-- Whether a formula is of the kind that a parameter ranges over. -/
def ofKind : Scope.Constraint → Formula → Bool
  | .number, a => a.isArithmetic
  | .statement, a =>
    match Scope.tag a with
    | .ok (.proof _) => true
    | _ => false

theorem checkArgument_of_kind {param : Scope.Param} (h : ofKind param.constraint a)
    (generic : String) (index : Nat) : checkArgument generic index param a = .ok () := by
  unfold checkArgument
  cases constraint : param.constraint with
  | number | statement =>
    rw [constraint] at h
    cases a <;> first | rfl | cases h

theorem ne_nat_of_kind {c : Scope.Constraint} (h : ofKind c a) : a ≠ .nat := by
  rintro rfl
  cases c <;> cases h

/-- What written arguments stand for. -/
def provided (scope : Scope) (args : List TypeExpr) : List Formula := args.map fun arg => (resolve scope arg).1

variable {scope : Scope} {pairs : Pairs} {body : Formula}

/-- The argument of a parameter that waits is found among the pairs that are left. -/
theorem exists_pair {slots : List Slot} {as : List Formula} (long : slots.length = as.length)
    (mem : s ∈ slots) : ∃ y ∈ (slots.map (·.param.name)).zip as, y.1 = s.param.name := by
  obtain ⟨i, h, rfl⟩ := mem_iff_getElem.1 mem
  refine ⟨(slots[i].param.name, as.get ⟨i, long ▸ h⟩), mem_iff_getElem.2 ⟨i, ?_, ?_⟩, rfl⟩
  · simpa [← long] using h
  · simp

/-- Whether a parameter still has its name, or was renamed because of one of the arguments `before`. -/
def Waits (before : Pairs) (s : Slot) : Prop :=
  s.current = s.param.name ∨
    isVariant s.param.name s.current = true ∧ ∃ x ∈ before, x.2.mentions s.param.name = true

theorem Waits.called (h : Waits before s) {y : String × Formula} (mem : y ∈ rest)
    (name : y.1 = s.param.name) : Called (before ++ rest) s := by
  refine h.imp_right fun ⟨variant, x, mem', mentioned⟩ => ⟨variant, x, y, ?_, name ▸ mentioned, name⟩
  exact (singleton_sublist.2 mem').append (singleton_sublist.2 mem)

theorem Waits.queue {slots : List Slot} {as : List Formula}
    (split : pairs = before ++ (slots.map (·.param.name)).zip as) (long : slots.length = as.length)
    (distinct : (slots.map (·.param.name)).Nodup) (waits : ∀ s ∈ slots, Waits before s) : Queue pairs slots := by
  refine ⟨fun s mem => ?_, distinct, fun s mem => ?_⟩ <;> obtain ⟨y, found, name⟩ := exists_pair long mem
  · exact split ▸ mem_map.2 ⟨y, mem_append_right _ found, name⟩
  · exact split ▸ (waits s mem).called found name

theorem Waits.meets (untangled : Untangled pairs body) {x : String × Formula}
    (split : pairs = before ++ x :: rest) (h : Waits before s) {y : String × Formula} (mem : y ∈ rest)
    (name : y.1 = s.param.name) : Meets pairs x.2 s := by
  have late : [x, y] <+ pairs := by
    rw [split]
    exact ((singleton_sublist.2 mem).cons_cons x).trans (sublist_append_right before _)
  have early (mentioned : x.2.mentions s.param.name) : Early pairs s.param.name :=
    ⟨x, y, late, name ▸ mentioned, name⟩
  -- if the parameter was renamed before, this argument mentions neither of its names
  have between (renamed : ∃ x' ∈ before, x'.2.mentions s.param.name) :
      x.2.mentions s.param.name = false ∧ ∀ w, isVariant s.param.name w → x.2.mentions w = false := by
    obtain ⟨x', mem', mentioned⟩ := renamed
    have inside : [x', x, y] <+ pairs := by
      rw [split]
      exact (singleton_sublist.2 mem').append ((singleton_sublist.2 mem).cons_cons x)
    rw [← name] at mentioned ⊢
    exact untangled.between x' x y inside mentioned
  refine ⟨fun free => ⟨?_, early (mentions_of_isFree free)⟩, fun free => ?_⟩
  · rcases h with kept | ⟨-, renamed⟩
    · exact kept
    · cases (mentions_of_isFree free).symm.trans (between renamed).1
  · rcases h with kept | ⟨variant, renamed⟩
    · rw [kept, Bool.eq_false_iff]
      intro mentioned
      refine Bool.eq_false_iff.1 free (isFree_of_mentions mentioned fun hidden => ?_)
      refine untangled.seen _ (.inl (early mentioned)) (mem_flatMap.2 ⟨x, ?_, hidden⟩)
      exact late.subset mem_cons_self
    · exact (between renamed).2 s.current variant

theorem instantiate_step {generic : String} {index : Nat} {slots : List Slot} {arg : TypeExpr}
    {args : List TypeExpr} (kind : ofKind s.param.constraint (resolve scope arg).1) :
    instantiate scope generic index t (s :: slots) (arg :: args) =
      let r := avoid (resolve scope arg).1 t slots
      let next := instantiate scope generic (index + 1) (r.1.rewrite s.current (resolve scope arg).1) r.2 args
      (next.1, (resolve scope arg).2 ++ next.2) := by
  have checked : checkArgument generic index s.param (settle arg.place (resolveNode scope arg)).1 = .ok () :=
    checkArgument_of_kind kind generic index
  rw [instantiate]
  dsimp only
  rw [checked]
  rfl

/-- The arguments that are left are put in for the parameters that wait. -/
theorem instantiate_reads (untangled : Untangled pairs body) (generic : String) (args : List TypeExpr)
    (slots : List Slot) (before : Pairs) (index : Nat)
    (split : pairs = before ++ (slots.map (·.param.name)).zip (provided scope args))
    (long : slots.length = args.length) (distinct : (slots.map (·.param.name)).Nodup)
    (kinds : ∀ x ∈ (slots.map Slot.param).zip (provided scope args), ofKind x.1.constraint x.2)
    (waits : ∀ s ∈ slots, Waits before s) (tame : Tame pairs body t) :
    ∃ u, instantiate scope generic index t slots args =
        (.ok u, args.flatMap fun arg => (resolve scope arg).2) ∧
      ∀ k, u.nameless k .free = t.nameless k (fill .free (pending slots (provided scope args))) := by
  induction args generalizing slots before t index with
  | nil =>
    obtain rfl := length_eq_zero_iff.1 long
    exact ⟨t, by rfl, fun k => rfl⟩
  | cons arg args ih =>
    obtain ⟨s, slots, rfl⟩ := exists_cons_of_length_eq_add_one long
    have queue := Waits.queue split (by rw [provided, length_map, long]) distinct waits
    have long : slots.length = (provided scope args).length := by
      rw [provided, length_map]
      exact Nat.succ.inj long
    let x := (s.param.name, (resolve scope arg).1)
    have split : pairs = before ++ x :: (slots.map (·.param.name)).zip (provided scope args) := split
    have kind : ofKind s.param.constraint x.2 := kinds (s.param, x.2) mem_cons_self
    have mem : x ∈ pairs := by simp [split]
    have avoids : Avoids pairs body x.2 t slots (avoid x.2 t slots) := by
      refine avoid_avoids untangled mem slots queue.tail (fun s' h => ?_) tame
      obtain ⟨y, found, name⟩ := exists_pair long h
      exact (waits s' (mem_cons_of_mem s h)).meets untangled split found name
    rw [instantiate_step kind]
    change ∃ u, (_, _) = _ ∧ _
    generalize avoid x.2 t slots = r at avoids
    have same : r.2.map (·.param.name) = slots.map (·.param.name) := by
      have names := congrArg (List.map Scope.Param.name) avoids.params
      rwa [map_map, map_map] at names
    have split' : pairs = (before ++ [x]) ++ (r.2.map (·.param.name)).zip (provided scope args) := by
      rw [same, split, append_assoc]
      rfl
    have long' : r.2.length = (provided scope args).length := by
      rw [← long, ← length_map (·.param), avoids.params, length_map]
    have waits' (s' : Slot) (h : s' ∈ r.2) : Waits (before ++ [x]) s' := by
      rcases (avoids.waiting s' h).2 with old | ⟨variant, mentioned⟩
      · refine (waits s' (mem_cons_of_mem s old)).imp_right (.imp_right fun ⟨x', mem', h⟩ => ?_)
        exact ⟨x', mem_append_left _ mem', h⟩
      · exact .inr ⟨variant, x, by simp, mentioned⟩
    have distinct' : (r.2.map (·.param.name)).Nodup := same ▸ (nodup_cons.1 distinct).2
    have queue' := Waits.queue split' long' distinct' waits'
    obtain ⟨u, found, reads⟩ := ih r.2 (before ++ [x]) (index + 1) split'
      (by simpa [provided] using long') distinct'
      (fun y h => kinds y (mem_cons_of_mem _ (avoids.params ▸ h))) waits'
      (avoids.tame.rewrite mem (ne_nat_of_kind kind) s.current)
    refine ⟨u, by rw [found]; rfl, fun k => (reads k).trans ?_⟩
    refine avoids.put untangled mem (ne_nat_of_kind kind) ⟨?_, ?_, ?_⟩ long k
    · exact forall_mem_cons.2 ⟨queue.params s mem_cons_self, queue'.params⟩
    · rw [map_cons, same]
      exact distinct
    · exact forall_mem_cons.2 ⟨queue.called s mem_cons_self, queue'.called⟩

/-- Every free type variable is one of an argument, or one of the body that is no parameter. -/
theorem typeVars_of_reads (reads : t.nameless 0 .free = body.nameless 0 (fill .free pairs)) {x : String}
    (h : t.hasTypeVar x) : body.hasTypeVar x ∧ x ∉ pairs.map Prod.fst ∨ ∃ y ∈ pairs, y.2.hasTypeVar x := by
  have seen : (t.nameless 0 .free).hasTypeVar x := hasTypeVar_nameless rfl h
  rw [reads] at seen
  obtain ⟨y, isType, j, inside, found⟩ := exists_hasTypeVar seen
  by_cases param : y ∈ pairs.map Prod.fst
  · obtain ⟨z, mem, meaning⟩ := exists_fill .free param
    rw [meaning] at found
    exact .inr ⟨z, mem, hasTypeVar_of_nameless found⟩
  · rw [fill_of_not_mem param] at found
    cases isType with
    | false => cases found
    | true =>
      obtain rfl := beq_iff_eq.1 found
      exact .inl ⟨inside rfl, param⟩

/-- A type with arguments stands for its body with all arguments in place of the parameters at once, up to
the names of quantifiers. -/
theorem instantiate_simultaneous (f : Name) (args : List TypeExpr) (place : Place)
    {params : List Scope.Param} (found : scope.find? f.text = some (.generic params body))
    (long : params.length = args.length) (distinct : (params.map (·.name)).Nodup)
    (kinds : ∀ x ∈ params.zip (provided scope args), ofKind x.1.constraint x.2 = true)
    (untangled : Untangled ((params.map (·.name)).zip (provided scope args)) body) :
    ∃ t, resolveNode scope (.generic f args place) = (.ok t, args.flatMap fun arg => (resolve scope arg).2) ∧
      t.nameless 0 .free = body.nameless 0 (fill .free ((params.map (·.name)).zip (provided scope args))) ∧
      ∀ x, t.hasTypeVar x = true → body.hasTypeVar x = true ∧ x ∉ params.map (·.name) ∨
        ∃ a ∈ provided scope args, a.hasTypeVar x = true := by
  let slots : List Slot := params.map fun p => ⟨p, p.name⟩
  have names : slots.map (·.param.name) = params.map (·.name) := map_map
  have currents : slots.map Slot.current = params.map (·.name) := map_map
  have same : slots.map Slot.param = params := by simp [slots, Function.comp_def]
  obtain ⟨t, run, reads⟩ := instantiate_reads untangled f.text args slots [] 0
    (by rw [names]; rfl) (by rw [length_map, long]) (names ▸ distinct) (same.symm ▸ kinds)
    (fun s mem => by obtain ⟨p, -, rfl⟩ := mem_map.1 mem; exact .inl rfl) .initial
  have reads := reads 0
  rw [pending, currents] at reads
  refine ⟨t, ?_, reads, fun x h => ?_⟩
  · rw [resolveNode, found]
    exact (if_pos long).trans run
  · refine (typeVars_of_reads reads h).imp (.imp_right ?_) fun ⟨y, mem, h⟩ => ⟨y.2, (of_mem_zip mem).2, h⟩
    rw [map_fst_zip (by simp [provided, long])]
    exact id

end Instances

section Examples

/-- The type `{d: N; p: d * a == b}` with parameters `a` and `b`. -/
def multiple : Formula := .struct "d" "p" (.eq (.mul (.var "d") (.var "a")) (.var "b"))

/-- With it two numbers are in scope that have the names of its quantifier and of a parameter. -/
def multipleScope : Scope :=
  [("G", .generic [⟨"a", .number⟩, ⟨"b", .number⟩] multiple), ("b", .arithmetic (.var "b")),
    ("d", .arithmetic (.var "d"))]

/-- `d + b` and `1` -/
def multipleArgs : List TypeExpr :=
  [.binary .add (.name ⟨"d", none⟩) (.name ⟨"b", none⟩) none, .numeral "1" none]

theorem multiple_provided :
    provided multipleScope multipleArgs = [.add (.var "d") (.var "b"), .succ .zero] := by decide +kernel

theorem multiple_untangled : Untangled [("a", .add (.var "d") (.var "b")), ("b", .succ .zero)] multiple := by
  let pairs : Pairs := [("a", .add (.var "d") (.var "b")), ("b", .succ .zero)]
  have early {q : String} (h : Early pairs q) : q = "b" := by
    obtain ⟨x, y, sub, -, rfl⟩ := h
    dsimp only [pairs] at sub
    cases sub.eq_of_length rfl
    rfl
  have caught {z : String} (h : Caught pairs multiple z) : z = "d" := mem_singleton.1 h.1
  have renamed {z : String} (h : Early pairs z ∨ Caught pairs multiple z) : z ∈ ["b", "d"] := by
    rcases h with h | h
    · simp [early h]
    · simp [caught h]
  have unused : ∀ z ∈ ["b", "d"], ∀ w ∈ ["a", "b"], isVariant z w = false := by decide +kernel
  refine ⟨fun z _ => not_mem_nil, fun z h => unused z (renamed h), ?_, ?_, ?_, ?_⟩
  · intro q h
    rw [early h]
    decide +kernel
  · intro q h z h'
    rw [early h, caught h']
    decide +kernel
  · intro q q' h h' other
    exact (other ((early h).trans (early h').symm)).elim
  · intro x y z sub
    exact absurd sub.length_le (by simp)

/-- Both the quantifier and the parameter are renamed on the way to `{d_2: N; p: d_2 * (d + b) == 1}`. -/
theorem multiple_simultaneous :
    multipleScope.find? "G" = some (.generic [⟨"a", .number⟩, ⟨"b", .number⟩] multiple) ∧
    Untangled (["a", "b"].zip (provided multipleScope multipleArgs)) multiple ∧
    ∃ t, resolveNode multipleScope (.generic ⟨"G", none⟩ multipleArgs none) = (.ok t, []) ∧
      t.nameless 0 .free = .struct "p" (.eq (.mul (.bound 0) (.add (.var "d") (.var "b"))) (.succ .zero)) ∧
      ∀ x, t.hasTypeVar x = false := by
  have untangled : Untangled (["a", "b"].zip (provided multipleScope multipleArgs)) multiple := by
    exact multiple_untangled
  have found : multipleScope.find? "G" = some (.generic [⟨"a", .number⟩, ⟨"b", .number⟩] multiple) := rfl
  obtain ⟨t, run, reads, typeVars⟩ := instantiate_simultaneous ⟨"G", none⟩ multipleArgs none found rfl
    (by decide) (by decide +kernel) untangled
  have quiet : (multipleArgs.flatMap fun arg => (resolve multipleScope arg).2) = [] := by decide +kernel
  refine ⟨found, untangled, t, quiet ▸ run, reads.trans (by rw [multiple_provided]; decide +kernel), fun x => ?_⟩
  rw [Bool.eq_false_iff]
  intro left
  have none : multiple.hasTypeVar x = false := by simp [multiple, hasTypeVar]
  obtain ⟨a, mem, left⟩ := (typeVars x left).resolve_left fun h => by cases none.symm.trans h.1
  rw [multiple_provided] at mem
  obtain rfl | rfl : a = .add (.var "d") (.var "b") ∨ a = .succ .zero := by simpa using mem
  · cases left
  · cases left

/-- The type `A + B == C` with parameters `A`, `B` and `C`, and a number `C`. -/
def sumScope : Scope :=
  [("G", .generic [⟨"A", .number⟩, ⟨"B", .number⟩, ⟨"C", .number⟩]
      (.eq (.add (.var "A") (.var "B")) (.var "C"))),
    ("C", .arithmetic (.var "C"))]

/-- `C`, `C` and `5`: the last parameter is renamed twice, and what it was called in between is left over
in `5 + C == C_2`. -/
theorem renamed_twice : ∃ t args, provided sumScope args = [.var "C", .var "C", .numeral 5] ∧
    resolveNode sumScope (.generic ⟨"G", none⟩ args none) = (.ok t, []) ∧
    t = .eq (.add (.numeral 5) (.var "C")) (.typeVar "C_2") ∧
    t.nameless 0 .free ≠ (Formula.eq (.add (.var "A") (.var "B")) (.var "C")).nameless 0
      (fill .free (["A", "B", "C"].zip (provided sumScope args))) := by
  let args : List TypeExpr := [.name ⟨"C", none⟩, .name ⟨"C", none⟩, .numeral "5" none]
  refine ⟨.eq (.add (.numeral 5) (.var "C")) (.typeVar "C_2"), args, ?_, ?_, rfl, ?_⟩
  · decide +kernel
  · decide +kernel
  · decide +kernel

end Examples

end Peano.Resolve
