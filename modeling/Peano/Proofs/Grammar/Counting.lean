import Mathlib.Logic.Relation
import Peano.Proofs.Grammar.Chart
namespace Peano.Grammar
open List

section Amounts

variable {α β : Type} {p q : Prop} {P Q : α → Prop}
variable {a b : Amount}

def Only (P : α → Prop) (x : α) : Prop := P x ∧ ∀ y, P y → y = x

/-- How many things have a property. Many are two different ones only if the count is sharp. -/
def Amount.Counts (sharp : Prop) (P : α → Prop) : Amount → Prop
  | .none => ∀ x, ¬ P x
  | .one => ∃ x, Only P x
  | .many => ∃ x, P x ∧ (sharp → ∃ y, P y ∧ y ≠ x)

theorem Amount.Counts.congr (h : a.Counts p P) (same : ∀ x, P x ↔ Q x) : a.Counts p Q := by
  obtain rfl : P = Q := funext fun x => propext (same x)
  exact h

theorem Amount.Counts.mono (h : a.Counts p P) (less : q → p) : a.Counts q P := by
  cases a with
  | none | one => exact h
  | many =>
    obtain ⟨x, hx, other⟩ := h
    exact ⟨x, hx, fun hq => other (less hq)⟩

/-- Many of some things are many of any more that are made of them in different ways. -/
theorem Amount.Counts.image {f : α → β} {Q : β → Prop} (h : Amount.many.Counts p P)
    (injective : ∀ x y, f x = f y → x = y) (made : ∀ x, P x → Q (f x)) : Amount.many.Counts p Q := by
  obtain ⟨x, hx, other⟩ := h
  refine ⟨f x, made x hx, fun sharp => ?_⟩
  obtain ⟨y, hy, differ⟩ := other sharp
  exact ⟨f y, made y hy, fun same => differ (injective y x same)⟩

theorem Amount.Counts.grow (h : Amount.many.Counts p P) (more : ∀ x, P x → Q x) : Amount.many.Counts p Q :=
  h.image (f := id) (fun _ _ => id) more

theorem Amount.Counts.exists (h : a.Counts p P) (some : a ≠ .none) : ∃ x, P x := by
  cases a with
  | none => exact (some rfl).elim
  | one =>
    obtain ⟨x, hx, -⟩ := h
    exact ⟨x, hx⟩
  | many =>
    obtain ⟨x, hx, -⟩ := h
    exact ⟨x, hx⟩

theorem Amount.Counts.add (ha : a.Counts p P) (hb : b.Counts p Q) (disjoint : ∀ x, P x → ¬ Q x) :
    (a.add b).Counts p fun x => P x ∨ Q x := by
  cases a with
  | none => exact hb.congr fun x => ⟨.inr, fun h => h.resolve_left (ha x)⟩
  | one =>
    obtain ⟨x, hx, only⟩ := ha
    cases b with
    | none => exact ⟨x, .inl hx, fun y h => only y (h.resolve_right (hb y))⟩
    | one =>
      obtain ⟨y, hy, -⟩ := hb
      refine ⟨x, .inl hx, fun _ => ⟨y, .inr hy, ?_⟩⟩
      rintro rfl
      exact disjoint y hx hy
    | many => exact hb.grow fun _ => .inr
  | many =>
    have both : Amount.many.Counts p fun x => P x ∨ Q x := ha.grow fun _ => .inl
    cases b <;> exact both

/-- Lists of a first one and others. -/
def Headed (P : α → Prop) (R : List α → Prop) (ts : List α) : Prop := ∃ t us, ts = t :: us ∧ P t ∧ R us

/-- Where both parts can be had, the count of the first has to be sharp for that of the pairs. -/
theorem Amount.Counts.mul {R : List α → Prop} (ha : a.Counts p P) (hb : b.Counts q R)
    (sharp : q → (∃ us, R us) → p) : (a.mul b).Counts q (Headed P R) := by
  cases b with
  | none =>
    have nothing : Amount.none.Counts q (Headed P R) := by
      rintro _ ⟨t, us, -, -, hus⟩
      exact hb us hus
    cases a <;> exact nothing
  | one =>
    obtain ⟨us, hus, only⟩ := hb
    cases a with
    | none =>
      rintro _ ⟨t, us, -, ht, -⟩
      exact ha t ht
    | one =>
      obtain ⟨t, ht, only'⟩ := ha
      refine ⟨t :: us, ⟨t, us, rfl, ht, hus⟩, ?_⟩
      rintro _ ⟨t', us', rfl, ht', hus'⟩
      rw [only' t' ht', only us' hus']
    | many =>
      have firsts : Amount.many.Counts q P := ha.mono fun hq => sharp hq ⟨us, hus⟩
      exact firsts.image (f := (· :: us)) (fun _ _ same => (cons.inj same).1)
        fun t ht => ⟨t, us, rfl, ht, hus⟩
  | many =>
    have behind {t : α} (ht : P t) : Amount.many.Counts q (Headed P R) :=
      hb.image (f := (t :: ·)) (fun _ _ same => (cons.inj same).2) fun us hus => ⟨t, us, rfl, ht, hus⟩
    cases a with
    | none =>
      rintro _ ⟨t, us, -, ht, -⟩
      exact ha t ht
    | one =>
      obtain ⟨t, ht, -⟩ := ha
      exact behind ht
    | many =>
      obtain ⟨t, ht, -⟩ := ha
      exact behind ht

theorem Amount.Counts.map (h : a.Counts p P) {f : α → β} (injective : ∀ x y, f x = f y → x = y) :
    a.Counts p fun y => ∃ x, y = f x ∧ P x := by
  cases a with
  | none =>
    rintro _ ⟨x, -, hx⟩
    exact h x hx
  | one =>
    obtain ⟨x, hx, only⟩ := h
    refine ⟨f x, ⟨x, rfl, hx⟩, ?_⟩
    rintro _ ⟨y, rfl, hy⟩
    rw [only y hy]
  | many => exact h.image injective fun x hx => ⟨x, rfl, hx⟩

end Amounts

section Runs

variable {ν α β : Type} [Ord ν] {I J K : Memo ν → Prop} {Q : α → Prop} {R : β → Prop}

variable {x : Counting ν α}

/-- From memos as before to memos as after, with a result as required. -/
def Runs (I J : Memo ν → Prop) (Q : α → Prop) (x : Counting ν α) : Prop :=
  ∀ memo, I memo → J (x.run memo).2 ∧ Q (x.run memo).1

theorem Runs.pure {a : α} (h : Q a) : Runs I I Q (pure a) := fun _ hm => ⟨hm, h⟩

theorem Runs.bind {f : α → Counting ν β} (hx : Runs I J Q x) (hf : ∀ a, Q a → Runs J K R (f a)) :
    Runs I K R (x >>= f) := by
  intro memo hm
  obtain ⟨hm', ha⟩ := hx memo hm
  exact hf _ ha _ hm'

theorem Runs.mono {P : α → Prop} (hx : Runs I J Q x) (h : ∀ a, Q a → P a) : Runs I J P x :=
  fun memo hm => ⟨(hx memo hm).1, h _ (hx memo hm).2⟩

theorem Runs.get_bind {f : Memo ν → Counting ν β} (h : ∀ memo, I memo → Runs I J R (f memo)) :
    Runs I J R (get >>= f) :=
  fun memo hm => h memo hm memo hm

theorem Runs.modify_bind {f : Memo ν → Memo ν} {x : PUnit → Counting ν β}
    (h : ∀ memo, I memo → J (f memo)) (hx : Runs J K R (x ⟨⟩)) : Runs I K R (modify f >>= x) :=
  fun memo hm => hx (f memo) (h memo hm)

end Runs

section Sums

variable {ν α τ : Type} [Ord ν] {I : Memo ν → Prop} {sharp : Prop}

/-- Memos stay as they should be, and the result counts what has a property. -/
abbrev Tallies (I : Memo ν → Prop) (sharp : Prop) (P : α → Prop) (x : Counting ν Amount) : Prop :=
  Runs I I (Amount.Counts sharp P) x

/-- Sums over things that are of different kinds count them all. -/
theorem sumOver_runs (hasty : Bool) {ways : Nat → Counting ν Amount} {K : Nat → α → Prop} {T : α → Prop}
    {ks : List Nat} {total : Amount} (runs : ∀ k ∈ ks, Tallies I sharp (K k) (ways k))
    (apart : ks.Pairwise fun k m => ∀ x, K k x → ¬ K m x) (counted : total.Counts sharp T)
    (new : ∀ k ∈ ks, ∀ x, T x → ¬ K k x) :
    Tallies I sharp (fun x => T x ∨ ∃ k ∈ ks, K k x) (sumOver hasty ways total ks) := by
  induction ks generalizing total T with
  | nil => exact .pure (counted.congr fun x => by simp)
  | cons k ks ih =>
    obtain ⟨here, later⟩ := forall_mem_cons.1 runs
    obtain ⟨first, apart⟩ := pairwise_cons.1 apart
    obtain ⟨new_here, new_later⟩ := forall_mem_cons.1 new
    simp only [exists_mem_cons_iff, ← or_assoc]
    refine here.bind fun a ha => ?_
    have sum := counted.add ha new_here
    dsimp only
    split
    next many =>
      rw [eq_of_beq (Bool.and_eq_true_iff.1 many).2] at sum
      exact .pure (sum.grow fun _ => .inl)
    · exact ih later apart sum fun m hm x old => old.elim (new_later m hm x) (first m hm x)

theorem dividedAt_runs {first others : Nat → Counting ν Amount} {stop : Nat} {p : Prop} {F : α → Prop}
    {O : List α → Prop} (runs_first : Tallies I p F (first stop))
    (runs_others : (∃ t, F t) → Tallies I sharp O (others stop)) (clear : sharp → (∃ us, O us) → p) :
    Tallies I sharp (Headed F O) (dividedAt first others stop) := by
  refine runs_first.bind fun a ha => ?_
  by_cases none : a = .none
  · subst none
    refine .pure ?_
    rintro _ ⟨t, us, -, ht, -⟩
    exact ha t ht
  · have runs := runs_others (ha.exists none)
    cases a with
    | none => exact (none rfl).elim
    | one | many => exact runs.bind fun b hb => .pure (ha.mul hb clear)

end Sums

section LeftRecursion

variable {ν τ : Type} [DecidableEq ν] [Ord ν]

/-- What a rule may begin with ranks below its left-hand side. The left-hand side itself may come
first too, if something has to come after it. -/
def LeftRanked (g : Grammar ν τ) (rank : ν → Nat) : Prop :=
  ∀ r ∈ g.rules.toList, ∀ (α : List (Symbol ν τ)) (m : ν) (β : List (Symbol ν τ)),
    r.rhs = α ++ .nonterminal m :: β → α.all (Symbol.vanishes g.nullable) = true →
      rank m < rank r.lhs ∨ m = r.lhs ∧ β.all (Symbol.vanishes g.nullable) = false

def Begins (g : Grammar ν τ) (n m : ν) : Prop :=
  ∃ α β : List (Symbol ν τ), ⟨n, α ++ .nonterminal m :: β⟩ ∈ g.rules.toList ∧
    α.all (Symbol.vanishes g.nullable) = true

/-- Where two nonterminals may begin with each other, nothing has to come after them. -/
def LeftSimple (g : Grammar ν τ) : Prop :=
  ∀ (n m : ν) (α β : List (Symbol ν τ)), ⟨n, α ++ .nonterminal m :: β⟩ ∈ g.rules.toList →
    α.all (Symbol.vanishes g.nullable) = true → n ≠ m → Relation.ReflTransGen (Begins g) m n →
      β.all (Symbol.vanishes g.nullable) = true

variable {g : Grammar ν τ} {n m : ν} {s r : List τ} {t : Tree τ}

theorem LeftRanked.leftSimple {rank : ν → Nat} (ranked : LeftRanked g rank) : LeftSimple g := by
  have descends : ∀ n m, Begins g n m → rank m ≤ rank n := by
    rintro n m ⟨α, β, mem, vanishes⟩
    rcases ranked _ mem α m β rfl vanishes with lower | ⟨rfl, -⟩
    · exact Nat.le_of_lt lower
    · exact Nat.le_refl _
  have reached : ∀ m n, Relation.ReflTransGen (Begins g) m n → rank n ≤ rank m := by
    intro m n path
    induction path with
    | refl => exact Nat.le_refl _
    | tail _ last ih => exact Nat.le_trans (descends _ _ last) ih
  intro n m α β mem vanishes differ back
  have above := reached m n back
  rcases ranked _ mem α m β rfl vanishes with lower | ⟨same, -⟩
  · dsimp only at lower
    omega
  · exact (differ same.symm).elim

/-- A tree of what a rule begins with is inside a larger one that reads the same, if nothing has to
come after it. -/
theorem exists_around {α β : List (Symbol ν τ)} (mem : ⟨n, α ++ .nonterminal m :: β⟩ ∈ g.rules.toList)
    (before : α.all (Symbol.vanishes g.nullable))
    (after : β.all (Symbol.vanishes g.nullable)) (h : Reads g [.nonterminal m] s r [t]) :
    ∃ u, Reads g [.nonterminal n] s r [u] ∧ sizeOf t < sizeOf u := by
  have known : ∀ k ∈ g.nullable, g.Vanishing k := fun k hk =>
    vanishing_of_isNullable (by simpa [isNullable] using hk)
  obtain ⟨us, front⟩ := reads_of_vanishes known before
  obtain ⟨vs, back⟩ := reads_of_vanishes known after
  obtain ⟨i, found⟩ := getElem?_of_mem mem
  refine ⟨.node i (us ++ t :: vs), reads_node (by simpa using found) ?_, ?_⟩
  · exact (front s).append (h.append (back r))
  · have inside : sizeOf t < sizeOf (us ++ t :: vs) := sizeOf_lt_of_mem (by simp)
    rw [Tree.node.sizeOf_spec]
    omega

theorem exists_larger (simple : LeftSimple g) (path : Relation.ReflTransGen (Begins g) n m)
    (back : Relation.ReflTransGen (Begins g) m n) (h : Reads g [.nonterminal m] s r [t]) :
    ∃ u, Reads g [.nonterminal n] s r [u] ∧ sizeOf t ≤ sizeOf u := by
  induction path using Relation.ReflTransGen.head_induction_on with
  | refl => exact ⟨t, h, Nat.le_refl _⟩
  | @head n k first rest ih =>
    obtain ⟨u, hu, larger⟩ := ih (back.tail first)
    by_cases same : n = k
    · exact ⟨u, same ▸ hu, larger⟩
    · obtain ⟨α, β, mem, before⟩ := first
      have after := simple n k α β mem before same (rest.trans back)
      obtain ⟨v, hv, around⟩ := exists_around mem before after hu
      exact ⟨v, hv, by omega⟩

/-- A stretch inside another one. If it is all of it, the outer one may begin with it, by way of
others. -/
structure Inside (g : Grammar ν τ) (inner outer : Stretch ν) : Prop where
  start : outer.start ≤ inner.start
  stop : inner.stop ≤ outer.stop
  begins : inner.start = outer.start → inner.stop = outer.stop →
    Relation.ReflTransGen (Begins g) outer.name inner.name

theorem Inside.refl (s : Stretch ν) : Inside g s s := ⟨Nat.le_refl _, Nat.le_refl _, fun _ _ => .refl⟩

theorem Inside.trans {a b c : Stretch ν} (h : Inside g a b) (h' : Inside g b c) : Inside g a c := by
  obtain ⟨start, stop, begins⟩ := h
  obtain ⟨start', stop', begins'⟩ := h'
  refine ⟨by omega, by omega, fun _ _ => ?_⟩
  exact (begins' (by omega) (by omega)).trans (begins (by omega) (by omega))

end LeftRecursion

section Stretches

variable {ν τ : Type} [DecidableEq ν] [Ord ν] {g : Grammar ν τ} {tokens : List τ}

def TreeOf (g : Grammar ν τ) (tokens : List τ) (s : Stretch ν) (t : Tree τ) : Prop :=
  Reads g [.nonterminal s.name] (tokens.drop s.start) (tokens.drop s.stop) [t]

/-- Derivations for the rest of a rule. -/
def ForestOf (g : Grammar ν τ) (tokens : List τ) (q : Remainder) (ts : List (Tree τ)) : Prop :=
  Reads g ((g.rhs q.rule).drop q.dot) (tokens.drop q.start) (tokens.drop q.stop) ts

theorem treeOf_unique_stop {n : ν} {i m k : Nat} {t : Tree τ} (hm : m ≤ tokens.length)
    (hk : k ≤ tokens.length) (h : TreeOf g tokens ⟨n, i, m⟩ t) (h' : TreeOf g tokens ⟨n, i, k⟩ t) : m = k :=
  drop_injective hm hk (h.rest_eq h')

variable {rule dot start stop : Nat} {rest : List (Symbol ν τ)} {ts : List (Tree τ)}

theorem forestOf_nil (hi : start ≤ tokens.length) (hj : stop ≤ tokens.length)
    (symbols : (g.rhs rule).drop dot = []) :
    ForestOf g tokens ⟨rule, dot, start, stop⟩ ts ↔ start = stop ∧ ts = [] := by
  rw [ForestOf, symbols, reads_nil]
  exact and_congr_left fun _ => ⟨drop_injective hi hj, fun same => by rw [same]⟩

theorem drop_succ_of_drop {x : Symbol ν τ} (symbols : (g.rhs rule).drop dot = x :: rest) :
    (g.rhs rule).drop (dot + 1) = rest := by
  rw [← drop_drop, symbols]
  rfl

theorem forestOf_terminal {label : String} {accepts : τ → Bool} (hj : stop ≤ tokens.length)
    (symbols : (g.rhs rule).drop dot = .terminal label accepts :: rest) :
    ForestOf g tokens ⟨rule, dot, start, stop⟩ ts ↔ ∃ t us, tokens[start]? = some t ∧ start < stop ∧
      accepts t ∧ ts = .leaf t :: us ∧ ForestOf g tokens ⟨rule, dot + 1, start + 1, stop⟩ us := by
  have others : (g.rhs rule).drop (dot + 1) = rest := drop_succ_of_drop symbols
  simp only [ForestOf, symbols, others, reads_terminal]
  constructor
  · rintro ⟨t, s, us, here, rfl, fits, tail⟩
    obtain ⟨inside, token, after⟩ := drop_cons here
    have length := tail.length_le
    rw [← after] at tail length
    simp only [length_drop] at length
    exact ⟨t, us, token, by omega, fits, rfl, tail⟩
  · rintro ⟨t, us, token, inside, fits, rfl, tail⟩
    refine ⟨t, _, us, ?_, rfl, fits, tail⟩
    rw [drop_eq_getElem?_toList_append, token]
    rfl

end Stretches

section Counts

variable {ν τ : Type} [DecidableEq ν] [Ord ν] {g : Grammar ν τ} {begin : ν} {tokens : List τ}
  {columns : Array (Column ν)} {stack : List (Stretch ν)} {s : Stretch ν}

variable {memo : Memo ν} {a : Amount}

/-- What the memo knows is right, and the stretches on the stack are being counted. -/
structure Memo.Sound (g : Grammar ν τ) (tokens : List τ) (stack : List (Stretch ν))
    (memo : Memo ν) : Prop where
  pending : ∀ s : Stretch ν, memo.stretches[s]? = some .pending ↔ s ∈ stack
  known : ∀ (s : Stretch ν) (a : Amount), memo.stretches[s]? = some (.known a) →
    a.Counts (LeftSimple g) (TreeOf g tokens s)
  remainders : ∀ (q : Remainder) (a : Amount), memo.remainders[q]? = some a →
    a.Counts (LeftSimple g) (ForestOf g tokens q)

/-- The stretches on the stack are different ones, and the fuel is enough for all others. -/
structure Stacked (g : Grammar ν τ) (columns : Array (Column ν)) (fuel : Nat)
    (stack : List (Stretch ν)) : Prop where
  done : ∀ p ∈ stack, p ∈ stretchesOf g columns
  nodup : stack.Nodup
  fuel : (stretchesOf g columns).length < fuel + stack.length

/-- A stretch that may be counted next. -/
structure Ready (g : Grammar ν τ) (tokens : List τ) (columns : Array (Column ν))
    (stack : List (Stretch ν)) (s : Stretch ν) : Prop where
  predicted : ∀ r ∈ g.rulesFor s.name, In columns s.start ⟨r, 0, s.start⟩
  start : s.start ≤ tokens.length
  stop : s.stop ≤ tokens.length
  nested : ∀ p ∈ stack, Inside g s p

def Twofold (g : Grammar ν τ) (tokens : List τ) (s : Stretch ν) : Prop :=
  ∃ t u, TreeOf g tokens s t ∧ TreeOf g tokens s u ∧ u ≠ t

/-- A right way to count what stretches derive, while some are being counted already. -/
def Counter (g : Grammar ν τ) (tokens : List τ) (columns : Array (Column ν)) (stack : List (Stretch ν))
    (count : Stretch ν → Counting ν Amount) : Prop :=
  ∀ s, Ready g tokens columns stack s → Tallies (Memo.Sound g tokens stack)
    (LeftSimple g ∧ (s ∈ stack → Twofold g tokens s)) (TreeOf g tokens s) (count s)

/-- A rule has been read in a stretch up to a place, and the rest of it comes next. -/
structure Reached (g : Grammar ν τ) (tokens : List τ) (columns : Array (Column ν)) (s : Stretch ν)
    (rule dot start : Nat) (rest : List (Symbol ν τ)) : Prop where
  mem : rule ∈ g.rulesFor s.name
  item : In columns start ⟨rule, dot, s.start⟩
  symbols : (g.rhs rule).drop dot = rest
  before : start ≤ s.stop
  stop : s.stop ≤ tokens.length

variable {fuel rule dot start m : Nat} {n : ν} {rest : List (Symbol ν τ)}

theorem Reached.le (here : Reached g tokens columns s rule dot start rest) : start ≤ tokens.length :=
  Nat.le_trans here.before here.stop

theorem Ready.reached (ready : Ready g tokens columns stack s) (mem : rule ∈ g.rulesFor s.name)
    (le : s.start ≤ s.stop) : Reached g tokens columns s rule 0 s.start (g.rhs rule) :=
  ⟨mem, ready.predicted rule mem, rfl, le, ready.stop⟩

theorem Stacked.pos (h : Stacked g columns fuel stack) : 0 < fuel := by
  have := (subperm_of_subset h.nodup h.done).length_le
  have := h.fuel
  omega

theorem Stacked.push (h : Stacked g columns (fuel + 1) stack) (done : s ∈ stretchesOf g columns)
    (new : s ∉ stack) : Stacked g columns fuel (s :: stack) := by
  refine ⟨forall_mem_cons.2 ⟨done, h.done⟩, nodup_cons.2 ⟨new, h.nodup⟩, ?_⟩
  have := h.fuel
  rw [length_cons]
  omega

theorem getElem?_insert_eq_some {κ β : Type} [Ord κ] [Std.TransOrd κ] [Std.LawfulEqOrd κ]
    {map : Std.TreeMap κ β} {k i : κ} {v w : β} :
    (map.insert k v)[i]? = some w ↔ k = i ∧ v = w ∨ k ≠ i ∧ map[i]? = some w := by
  rw [Std.TreeMap.getElem?_insert]
  split <;> simp_all

theorem Memo.Sound.insert_remainder (h : memo.Sound g tokens stack) {q : Remainder}
    (ha : a.Counts (LeftSimple g) (ForestOf g tokens q)) :
    Memo.Sound g tokens stack { memo with remainders := memo.remainders.insert q a } := by
  refine ⟨h.pending, h.known, fun q' a' found => ?_⟩
  obtain ⟨rfl, rfl⟩ | ⟨-, found⟩ := getElem?_insert_eq_some.1 found
  · exact ha
  · exact h.remainders q' a' found

theorem store_runs {q : Remainder} (ha : a.Counts (LeftSimple g) (ForestOf g tokens q)) :
    Tallies (Memo.Sound g tokens stack) (LeftSimple g) (ForestOf g tokens q)
      (do modify fun memo => { memo with remainders := memo.remainders.insert q a }
          pure a) :=
  .modify_bind (fun _ h => h.insert_remainder ha) (.pure ha)

section Items
variable (chart : Charted g begin tokens columns) (full : columns.size = tokens.length + 1)
include chart full

theorem Reached.scanned {label : String} {accepts : τ → Bool} {t : τ}
    (here : Reached g tokens columns s rule dot start (.terminal label accepts :: rest))
    (token : tokens[start]? = some t) (inside : start < s.stop) (fits : accepts t) :
    Reached g tokens columns s rule (dot + 1) (start + 1) rest := by
  have := here.stop
  refine ⟨here.mem, ?_, drop_succ_of_drop here.symbols, inside, here.stop⟩
  exact chart.scanned here.item (by omega) (next?_of_drop here.symbols).1 token fits

variable [Std.TransOrd ν] [Std.LawfulEqOrd ν]

omit full in
theorem starts_with (here : Reached g tokens columns s rule dot s.start (.nonterminal n :: rest)) :
    ∃ α : List (Symbol ν τ), ⟨s.name, α ++ .nonterminal n :: rest⟩ ∈ g.rules.toList ∧
      α.all (Symbol.vanishes g.nullable) := by
  obtain ⟨-, ⟨ts, before⟩, -⟩ := chart.valid here.item
  obtain ⟨rhs, found⟩ := (mem_rulesFor g).1 here.mem
  have parts : rhs = (g.rhs rule).take dot ++ .nonterminal n :: rest := by
    rw [← here.symbols, take_append_drop, rhs_of_found found]
  refine ⟨(g.rhs rule).take dot, ?_, vanishes_of_reads before rfl⟩
  rw [← parts]
  exact mem_of_getElem? (by simpa using found)

omit full in
theorem Reached.inside (here : Reached g tokens columns s rule dot start (.nonterminal n :: rest))
    (last : m ≤ s.stop) : Inside g ⟨n, start, m⟩ s := by
  refine ⟨(chart.valid here.item).fitting.2, last, ?_⟩
  rintro rfl -
  obtain ⟨α, mem, vanishes⟩ := starts_with chart here
  exact .single ⟨α, rest, mem, vanishes⟩

theorem Reached.moved {t : Tree τ} (here : Reached g tokens columns s rule dot start (.nonterminal n :: rest))
    (last : m ≤ s.stop) (first : TreeOf g tokens ⟨n, start, m⟩ t) :
    Reached g tokens columns s rule (dot + 1) m rest := by
  have := here.stop
  have := here.before
  refine ⟨here.mem, ?_, drop_succ_of_drop here.symbols, last, here.stop⟩
  exact chart.moves (γ := [.nonterminal n]) (by omega) (by omega) (by omega) here.item here.symbols first

/-- The places where a part for a nonterminal may stop. -/
theorem Reached.mem_stops (here : Reached g tokens columns s rule dot start (.nonterminal n :: rest)) :
    m ∈ (completions g columns).stopsWithin s.stop n start ↔
      m ≤ s.stop ∧ ∃ t, TreeOf g tokens ⟨n, start, m⟩ t := by
  have := here.stop
  have := here.before
  rw [Completions.stopsWithin, mem_filter, decide_eq_true_iff, Array.mem_toList_iff,
    (completions_spec g columns).2, and_comm]
  refine and_congr_right fun last => ⟨fun done => (chart.sound done).2.2, fun ⟨t, reads⟩ => ?_⟩
  have predicted := chart.predicted here.item (next?_of_drop here.symbols).1
  exact chart.complete (by omega) (by omega) (by omega) predicted reads

/-- A part of a stretch inside all that are being counted may be counted next. Where the rest of its
rule can be read too, it is being counted already only if it has two derivations. -/
theorem Reached.ready_part (here : Reached g tokens columns s rule dot start (.nonterminal n :: rest))
    (outer : ∀ p ∈ stack, Inside g s p)
    (hm : m ∈ (completions g columns).stopsWithin s.stop n start) :
    Ready g tokens columns stack ⟨n, start, m⟩ ∧
      (LeftSimple g → (∃ us, ForestOf g tokens ⟨rule, dot + 1, m, s.stop⟩ us) →
        ⟨n, start, m⟩ ∈ stack → Twofold g tokens ⟨n, start, m⟩) := by
  obtain ⟨last, t, reads⟩ := (here.mem_stops chart full).1 hm
  have inside : Inside g ⟨n, start, m⟩ s := here.inside chart last
  refine ⟨⟨?_, here.le, Nat.le_trans last here.stop, ?_⟩, ?_⟩
  · exact chart.predicted here.item (next?_of_drop here.symbols).1
  · exact fun p hp => inside.trans (outer p hp)
  · rintro simple ⟨us, forest⟩ mem
    -- all stretches from this one up to the top are the same but for their names
    have around : Inside g s ⟨n, start, m⟩ := outer _ mem
    obtain rfl : s.start = start := Nat.le_antisymm inside.start around.start
    obtain rfl : s.stop = m := Nat.le_antisymm around.stop inside.stop
    rw [ForestOf, drop_succ_of_drop here.symbols] at forest
    obtain ⟨α, mem, before⟩ := starts_with chart here
    obtain ⟨u, hu, larger⟩ := exists_around mem before (vanishes_of_reads forest rfl) reads
    obtain ⟨v, hv, larger'⟩ :=
      exists_larger simple (around.begins rfl rfl) (inside.begins rfl rfl) hu
    refine ⟨t, v, reads, hv, ?_⟩
    rintro rfl
    omega

/-- The ways to read a part up to a stop and the rest of the rule from there on. -/
theorem Reached.divided_runs {count : Stretch ν → Counting ν Amount} {others : Nat → Counting ν Amount}
    (here : Reached g tokens columns s rule dot start (.nonterminal n :: rest))
    (outer : ∀ p ∈ stack, Inside g s p) (counter : Counter g tokens columns stack count)
    (later : ∀ m, Reached g tokens columns s rule (dot + 1) m rest → Tallies (Memo.Sound g tokens stack)
      (LeftSimple g) (ForestOf g tokens ⟨rule, dot + 1, m, s.stop⟩) (others m))
    (hm : m ∈ (completions g columns).stopsWithin s.stop n start) :
    Tallies (Memo.Sound g tokens stack) (LeftSimple g)
      (Headed (TreeOf g tokens ⟨n, start, m⟩) (ForestOf g tokens ⟨rule, dot + 1, m, s.stop⟩))
      (dividedAt (fun m => count ⟨n, start, m⟩) others m) := by
  obtain ⟨ready, twofold⟩ := here.ready_part chart full outer hm
  have last := ((here.mem_stops chart full).1 hm).1
  exact dividedAt_runs (counter _ ready) (fun ⟨t, first⟩ => later m (here.moved chart full last first))
    fun simple others => ⟨simple, twofold simple others⟩

theorem Reached.forest_iff {ts : List (Tree τ)}
    (here : Reached g tokens columns s rule dot start (.nonterminal n :: rest)) :
    ForestOf g tokens ⟨rule, dot, start, s.stop⟩ ts ↔ ∃ m ∈ (completions g columns).stopsWithin s.stop n start,
      Headed (TreeOf g tokens ⟨n, start, m⟩) (ForestOf g tokens ⟨rule, dot + 1, m, s.stop⟩) ts := by
  simp only [ForestOf, Headed, here.symbols, drop_succ_of_drop here.symbols, reads_nonterminal (α := rest)]
  constructor
  · rintro ⟨_, t, us, rfl, first, tail⟩
    obtain ⟨m, -, hm, rfl⟩ := first.exists_drop here.le
    have length := tail.length_le
    have := here.stop
    simp only [length_drop] at length
    exact ⟨m, (here.mem_stops chart full).2 ⟨by omega, t, first⟩, t, us, rfl, first, tail⟩
  · rintro ⟨m, -, t, us, rfl, first, tail⟩
    exact ⟨_, t, us, rfl, first, tail⟩

/-- The ways to read the rest of a rule, given a right way to count what stretches derive. -/
theorem Reached.restAmount_runs {count : Stretch ν → Counting ν Amount} (outer : ∀ p ∈ stack, Inside g s p)
    (counter : Counter g tokens columns stack count) (here : Reached g tokens columns s rule dot start rest) :
    Tallies (Memo.Sound g tokens stack) (LeftSimple g) (ForestOf g tokens ⟨rule, dot, start, s.stop⟩)
      (restAmount tokens.toArray (completions g columns) count rule s.stop rest dot start) := by
  induction rest generalizing dot start with
  | nil =>
    have empty {ts} : ForestOf g tokens ⟨rule, dot, start, s.stop⟩ ts ↔ start = s.stop ∧ ts = [] :=
      forestOf_nil here.le here.stop here.symbols
    refine .pure ?_
    split
    next same => exact ⟨[], empty.2 ⟨same, rfl⟩, fun ts h => (empty.1 h).2⟩
    next early => exact fun ts h => early (empty.1 h).1
  | cons x rest ih =>
    refine .get_bind fun memo sound => ?_
    split
    next known =>
      exact .pure (sound.remainders _ _ known)
    · cases x with
      | terminal label accepts =>
        have split {ts} : ForestOf g tokens ⟨rule, dot, start, s.stop⟩ ts ↔ _ :=
          forestOf_terminal here.stop here.symbols
        rw [getElem?_toArray]
        dsimp only
        split
        next t token =>
          split
          next fits =>
            rw [Bool.and_eq_true, decide_eq_true_iff] at fits
            refine (ih (here.scanned chart full token fits.1 fits.2)).bind fun a ha => store_runs ?_
            refine (ha.map (f := (.leaf t :: ·)) fun us vs same => (cons.inj same).2).congr fun ts => ?_
            rw [split, token]
            constructor
            · rintro ⟨us, rfl, hus⟩
              exact ⟨t, us, rfl, fits.1, fits.2, rfl, hus⟩
            · rintro ⟨_, us, here, -, -, rfl, hus⟩
              cases here
              exact ⟨us, rfl, hus⟩
          next misfit =>
            refine Runs.bind (.pure rfl) fun a ha => store_runs (ha ▸ fun ts h => misfit ?_)
            obtain ⟨_, us, here, inside, fits, -, -⟩ := split.1 h
            cases token.symm.trans here
            rw [Bool.and_eq_true, decide_eq_true_iff]
            exact ⟨inside, fits⟩
        next token =>
          refine Runs.bind (.pure rfl) fun a ha => store_runs (ha ▸ fun ts h => ?_)
          obtain ⟨_, us, here, -⟩ := split.1 h
          cases token.symm.trans here
      | nonterminal n =>
        have nothing : Amount.none.Counts (LeftSimple g) fun _ : List (Tree τ) => False :=
          fun _ => id
        have apart : ((completions g columns).stopsWithin s.stop n start).Pairwise fun m k => ∀ ts,
            Headed (TreeOf g tokens ⟨n, start, m⟩) (ForestOf g tokens ⟨rule, dot + 1, m, s.stop⟩) ts →
              ¬ Headed (TreeOf g tokens ⟨n, start, k⟩) (ForestOf g tokens ⟨rule, dot + 1, k, s.stop⟩) ts := by
          refine Pairwise.imp_of_mem ?_ (((completions_spec g columns).1 ⟨n, start⟩).filter _)
          rintro m k hm hk differ _ ⟨t, us, rfl, ht, -⟩ ⟨t', us', same, ht', -⟩
          obtain ⟨rfl, -⟩ := cons.inj same
          have hm := ((here.mem_stops chart full).1 hm).1
          have hk := ((here.mem_stops chart full).1 hk).1
          exact differ (treeOf_unique_stop (Nat.le_trans hm here.stop) (Nat.le_trans hk here.stop) ht ht')
        have sum := sumOver_runs true (fun m hm => here.divided_runs chart full outer counter
          (fun m there => ih there) hm) apart nothing fun _ _ _ => False.elim
        refine sum.bind fun a ha => store_runs (ha.congr fun ts => ?_)
        rw [here.forest_iff chart full, false_or]

end Items

variable [Std.TransOrd ν] [Std.LawfulEqOrd ν]

theorem treeOf_iff {t : Tree τ} : TreeOf g tokens s t ↔ ∃ rule ts, t = .node rule ts ∧
    rule ∈ g.rulesFor s.name ∧ ForestOf g tokens ⟨rule, 0, s.start, s.stop⟩ ts := by
  constructor
  · intro h
    obtain ⟨rule, rhs, ts, rfl, found, inner⟩ := h.node
    exact ⟨rule, ts, rfl, (mem_rulesFor g).2 ⟨rhs, found⟩, by rwa [ForestOf, rhs_of_found found]⟩
  · rintro ⟨rule, ts, rfl, mem, inner⟩
    obtain ⟨rhs, found⟩ := (mem_rulesFor g).1 mem
    rw [ForestOf, rhs_of_found found] at inner
    exact reads_node found inner

theorem Memo.Sound.insert_pending (h : memo.Sound g tokens stack) : Memo.Sound g tokens (s :: stack)
      { memo with stretches := memo.stretches.insert s .pending } := by
  refine ⟨fun p => ?_, fun p a found => ?_, h.remainders⟩
  · rw [getElem?_insert_eq_some, h.pending]
    grind
  · obtain ⟨-, same⟩ | ⟨-, found⟩ := getElem?_insert_eq_some.1 found
    · cases same
    · exact h.known p a found

theorem Memo.Sound.insert_known (h : memo.Sound g tokens (s :: stack)) (new : s ∉ stack)
    (ha : a.Counts (LeftSimple g) (TreeOf g tokens s)) : Memo.Sound g tokens stack
      { memo with stretches := memo.stretches.insert s (.known a) } := by
  refine ⟨fun p => ?_, fun p b found => ?_, h.remainders⟩
  · rw [getElem?_insert_eq_some, h.pending]
    grind
  · obtain ⟨rfl, same⟩ | ⟨-, found⟩ := getElem?_insert_eq_some.1 found
    · cases same
      exact ha
    · exact h.known p b found

theorem amount_runs (chart : Charted g begin tokens columns) (full : columns.size = tokens.length + 1)
    (stacked : Stacked g columns fuel stack) :
    Counter g tokens columns stack (amount g tokens.toArray (completions g columns) fuel) := by
  induction fuel generalizing stack with
  | zero => exact absurd stacked.pos (Nat.lt_irrefl 0)
  | succ fuel ih =>
    intro s ready
    refine .get_bind fun memo sound => ?_
    split
    next pending =>
      have mem := (sound.pending s).1 pending
      obtain ⟨-, -, t, reads⟩ := chart.sound (stacked.done s mem)
      refine .pure ⟨t, reads, fun ⟨_, twofold⟩ => ?_⟩
      obtain ⟨u, v, hu, hv, differ⟩ := twofold mem
      by_cases same : u = t
      · exact ⟨v, hv, same ▸ differ⟩
      · exact ⟨u, hu, same⟩
    next known =>
      exact .pure ((sound.known s _ known).mono And.left)
    next unknown =>
      have new : s ∉ stack := fun mem => by
        rw [(sound.pending s).2 mem] at unknown
        cases unknown
      split
      next done =>
        have done : s ∈ stretchesOf g columns := (completions_spec g columns).2.1 done
        have le := (chart.sound done).1
        have outer := forall_mem_cons.2 ⟨Inside.refl s, ready.nested⟩
        have by_rule (rule : Nat) (mem : rule ∈ g.rulesFor s.name) :=
          (ready.reached mem le).restAmount_runs chart full outer (ih (stacked.push done new))
        have nothing : Amount.none.Counts (LeftSimple g) fun _ : Tree τ => False := fun _ => id
        have counted := sumOver_runs false
          (fun r hr => (by_rule r hr).mono fun a ha => ha.map (f := Tree.node r)
            fun ts us same => (Tree.node.inj same).2)
          ((nodup_rulesFor g s.name).imp fun differ => ?_) nothing fun _ _ _ => False.elim
        · refine .modify_bind (fun _ h => h.insert_pending) (counted.bind fun a ha => ?_)
          have ha' : a.Counts (LeftSimple g) (TreeOf g tokens s) := ha.congr fun t => by
            rw [treeOf_iff, false_or]
            grind
          exact .modify_bind (fun _ h => h.insert_known new ha') (.pure (ha'.mono And.left))
        · rintro _ ⟨ts, rfl, -⟩ ⟨us, same, -⟩
          exact differ (Tree.node.inj same).1
      next missing =>
        refine .pure fun t reads => missing ((completions_spec g columns).2.2 ?_)
        have := ready.stop
        exact chart.complete ready.start ready.stop (by omega) ready.predicted reads

end Counts

end Peano.Grammar
