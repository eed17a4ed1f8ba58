import Peano.Proofs.Grammar.Counting
namespace Peano.Grammar
open List
open Bool (and_eq_true or_eq_true)

section Tables

/-- Part of what a sequence of alternatives reads: a part of a rule, or any number of continuations
of a left-recursive nonterminal. -/
inductive Piece (ν κ : Type) where
  | part (p : Part ν κ)
  | more (n : ν)

/-- Rules as data, and what is known about the tokens at both ends of their phrases. The end of the
text comes after a phrase as no class. Whole phrases are read in one way only; others may be so only
together with what comes after them. -/
structure Lookahead (ν κ τ γ : Type) where
  rules : List (ν × List (Part ν κ))
  label : κ → String
  accepts : κ → τ → Bool
  classOf : τ → γ
  classes : κ → List γ
  nullable : ν → Bool
  starts : ν → List γ
  follows : ν → List (Option γ)
  rank : ν → Nat
  whole : ν → Bool

variable {ν κ τ γ : Type} [DecidableEq ν] (ahead : Lookahead ν κ τ γ)

namespace Lookahead

/-- The right-hand side of a rule for `n` that is not left-recursive. -/
def base? (n : ν) (r : ν × List (Part ν κ)) : Option (List (Part ν κ)) :=
  if r.1 = n then
    match r.2 with
    | .phrase m :: rest => if m = n then none else some (.phrase m :: rest)
    | rhs => some rhs
  else none

/-- What a left-recursive rule for `n` adds to a phrase. -/
def continuation? (n : ν) (r : ν × List (Part ν κ)) : Option (List (Part ν κ)) :=
  if r.1 = n then
    match r.2 with
    | .phrase m :: rest => if m = n then some rest else none
    | _ => none
  else none

def bases (n : ν) : List (List (Part ν κ)) := ahead.rules.filterMap (base? n)

def continuations (n : ν) : List (List (Part ν κ)) := ahead.rules.filterMap (continuation? n)

def startsOf : List (Part ν κ) → List γ
  | [] => []
  | .token k :: _ => ahead.classes k
  | .phrase n :: rest => ahead.starts n ++ if ahead.nullable n then startsOf rest else []

def vanish : List (Part ν κ) → Bool
  | [] => true
  | .token _ :: _ => false
  | .phrase n :: rest => ahead.nullable n && vanish rest

/-- What may be ahead of some pieces with `after` after them. -/
def peeks (after : List (Option γ)) : List (Piece ν κ) → List (Option γ)
  | [] => after
  | .part (.token k) :: _ => (ahead.classes k).map some
  | .part (.phrase n) :: rest =>
    (ahead.starts n).map some ++ if ahead.nullable n then peeks after rest else []
  | .more n :: rest => ((ahead.continuations n).flatMap ahead.startsOf).map some ++ peeks after rest

end Lookahead
end Tables

section Checks

variable {ν κ τ γ : Type} [DecidableEq ν] [DecidableEq γ] (ahead : Lookahead ν κ τ γ)
  (after : List (Option γ))

namespace Lookahead

/-- All rules fit the tables of what vanishes and of what phrases begin with. -/
def consistent : Bool :=
  ahead.rules.all fun r =>
    (!ahead.vanish r.2 || ahead.nullable r.1) &&
      (ahead.startsOf r.2).all fun c => (ahead.starts r.1).contains c

def top : Nat := 1000

/-- Whether a phrase can be passed as a whole: it is of a lower rank or further on in the text, and
what comes after it may come after such phrases. -/
def passes (bound : Nat) (n : ν) (rest : List (Piece ν κ)) : Bool :=
  ahead.whole n && ahead.rank n < bound &&
    (ahead.peeks after rest).all fun c => (ahead.follows n).contains c

/-- The bound behind a phrase: any rank will do behind a token. -/
def behind (bound : Nat) (n : ν) : Nat := if ahead.nullable n then bound else top

/-- Both sequences behind a head that reads the same on both sides. -/
def passed? (bound : Nat) : List (Piece ν κ) → List (Piece ν κ) →
    Option (Nat × List (Piece ν κ) × List (Piece ν κ))
  | .part (.token _) :: x, .part (.token _) :: y => some (top, x, y)
  | .part (.phrase n) :: x, .part (.phrase m) :: y =>
    if n = m && ahead.passes after bound n x && ahead.passes after bound n y then
      some (ahead.behind bound n, x, y)
    else none
  | _, _ => none

/-- The sequences one of which is read if a sequence is, with its head opened. -/
def opened? : List (Piece ν κ) → Option (List (List (Piece ν κ)))
  | .part (.phrase n) :: rest =>
    some ((ahead.bases n).map fun rhs => rhs.map .part ++ .more n :: rest)
  | .more n :: rest =>
    some (rest :: (ahead.continuations n).map fun rhs => rhs.map .part ++ .more n :: rest)
  | _ => none

/-- The head of a higher rank is opened first. -/
def height : List (Piece ν κ) → Nat
  | .part (.phrase n) :: _ => ahead.rank n + 1
  | .more _ :: _ => top
  | _ => 0

/-- Whether no text can be read as both sequences with something of `after` after them. -/
def apart : Nat → Nat → List (Piece ν κ) → List (Piece ν κ) → Bool
  | 0, _, _, _ => false
  | fuel + 1, bound, x, y =>
    ((ahead.peeks after x).all fun c => !(ahead.peeks after y).contains c) ||
      match ahead.passed? after bound x y with
      | some (bound, x, y) => apart fuel bound x y
      | none =>
        if ahead.height y ≤ ahead.height x then
          match ahead.opened? x with
          | some choices => choices.all fun choice => apart fuel bound choice y
          | none => false
        else
          match ahead.opened? y with
          | some choices => choices.all fun choice => apart fuel bound x choice
          | none => false

/-- Whether some parts can be read in one way only, with some pieces and something of `after` after
them. -/
def single : Nat → Nat → List (Part ν κ) → List (Piece ν κ) → Bool
  | _, _, [], _ => true
  | 0, _, _, _ => false
  | fuel + 1, _, .token _ :: rest, tail => single fuel top rest tail
  | fuel + 1, bound, .phrase n :: rest, tail =>
    if ahead.passes after bound n (rest.map .part ++ tail) then
      single fuel (ahead.behind bound n) rest tail
    else
      (ahead.continuations n).isEmpty &&
        decide ((ahead.bases n).Pairwise fun x y =>
          ahead.apart after fuel bound (x.map .part ++ (rest.map .part ++ tail))
            (y.map .part ++ (rest.map .part ++ tail)) = true) &&
        (ahead.bases n).all fun rhs => single fuel bound (rhs ++ rest) tail

def settled (fuel : Nat) (n : ν) : Bool :=
  let apart (x y : List (Part ν κ)) : Bool :=
    ahead.apart (ahead.follows n) fuel (ahead.rank n) (x.map .part ++ [.more n])
      (y.map .part ++ [.more n])
  let single (x : List (Part ν κ)) : Bool :=
    ahead.single (ahead.follows n) fuel (ahead.rank n) x [.more n]
  decide ((ahead.bases n).Pairwise fun x y => apart x y = true) && (ahead.bases n).all single &&
    decide ((ahead.continuations n).Pairwise fun x y => apart x y = true) &&
    (ahead.continuations n).all single &&
    (ahead.continuations n).all fun x =>
      ahead.apart (ahead.follows n) fuel (ahead.rank n) [] (x.map .part ++ [.more n])

/-- Whether all that parts of a rule for `n` may begin with ranks below `n`, apart from `n` itself
with something after it. -/
def descends (n : ν) : List (Part ν κ) → Bool
  | [] => true
  | .token _ :: _ => true
  | .phrase m :: rest =>
    (ahead.rank m < ahead.rank n || m = n && !ahead.vanish rest) &&
      (!ahead.nullable m || descends n rest)

end Lookahead
end Checks

section Meaning

variable {ν κ τ γ : Type} [DecidableEq ν] [Ord ν]

namespace Lookahead

abbrev symbols (ahead : Lookahead ν κ τ γ) (parts : List (Part ν κ)) : List (Symbol ν τ) :=
  parts.map (Part.symbol ahead.label ahead.accepts)

def peek (ahead : Lookahead ν κ τ γ) (s : List τ) : Option γ := s.head?.map ahead.classOf

section
variable (ahead : Lookahead ν κ τ γ) (g : Grammar ν τ) (after : List (Option γ))

/-- A sequence of pieces reads the front of a text up to something of `after`, whatever its derivation. -/
inductive Spans : List (Piece ν κ) → List τ → Prop
  | nil {s : List τ} (last : ahead.peek s ∈ after) : Spans [] s
  | part {p : Part ν κ} {rest : List (Piece ν κ)} {s m : List τ} {ts : List (Tree τ)}
      (first : Reads g [p.symbol ahead.label ahead.accepts] s m ts) (tail : Spans rest m) :
      Spans (.part p :: rest) s
  | stop {n : ν} {rest : List (Piece ν κ)} {s : List τ} (tail : Spans rest s) : Spans (.more n :: rest) s
  | more {n : ν} {parts : List (Part ν κ)} {rest : List (Piece ν κ)} {s m : List τ}
      {ts : List (Tree τ)} (listed : parts ∈ ahead.continuations n)
      (first : Reads g (ahead.symbols parts) s m ts) (tail : Spans (.more n :: rest) m) :
      Spans (.more n :: rest) s

/-- A phrase of `n` that is continued, from a tree and the tokens behind it to another tree and the
tokens behind that. -/
inductive Grows (n : ν) : Tree τ → List τ → Tree τ → List τ → Prop
  | refl {t : Tree τ} {s : List τ} : Grows n t s t s
  | step {i : Nat} {parts : List (Part ν κ)} {t u : Tree τ} {s m r : List τ} {ts : List (Tree τ)}
      (listed : ahead.rules[i]? = some (n, .phrase n :: parts))
      (first : Reads g (ahead.symbols parts) s m ts) (tail : Grows n (.node i (t :: ts)) m u r) :
      Grows n t s u r

end

variable {ahead : Lookahead ν κ τ γ} {g : Grammar ν τ} {s m r : List τ} {t u : Tree τ}
  {ts : List (Tree τ)} {n : ν} {parts : List (Part ν κ)} {x y : List (Piece ν κ)} {i : Nat}
  {after : List (Option γ)}

theorem spans_parts (h : Reads g (ahead.symbols parts) s m ts) (tail : Spans ahead g after x m) :
    Spans ahead g after (parts.map .part ++ x) s := by
  induction parts generalizing s ts with
  | nil =>
    obtain ⟨rfl, -⟩ := reads_nil.1 h
    exact tail
  | cons p parts ih =>
    obtain ⟨m', us, vs, -, first, others⟩ := Reads.split (α := [p.symbol _ _]) h
    exact .part first (ih others)

omit [Ord ν] in
theorem base?_eq (fresh : ∀ rest, parts ≠ .phrase n :: rest) : base? n (n, parts) = some parts := by
  simp only [base?, if_pos]
  split
  next m rest =>
    rw [if_neg (fun same => fresh rest (by rw [same]))]
  · rfl

omit [Ord ν] in
theorem continuation?_eq : continuation? n (n, .phrase n :: parts) = some parts := by
  simp [continuation?]

omit [Ord ν] in
theorem mem_continuations (listed : ahead.rules[i]? = some (n, .phrase n :: parts)) :
    parts ∈ ahead.continuations n :=
  mem_filterMap.2 ⟨_, mem_of_getElem? listed, continuation?_eq⟩

omit [Ord ν] in
theorem mem_bases (listed : ahead.rules[i]? = some (n, parts)) (base : base? n (n, parts) = some parts) :
    parts ∈ ahead.bases n :=
  mem_filterMap.2 ⟨_, mem_of_getElem? listed, base⟩

theorem Grows.snoc (h : Grows ahead g n t s u m) (listed : ahead.rules[i]? = some (n, .phrase n :: parts))
    (last : Reads g (ahead.symbols parts) m r ts) : Grows ahead g n t s (.node i (u :: ts)) r := by
  induction h with
  | refl => exact .step listed last .refl
  | step listed' first _ ih => exact .step listed' first (ih last)

theorem Grows.spans (h : Grows ahead g n t s u m) (tail : Spans ahead g after x m) :
    Spans ahead g after (.more n :: x) s := by
  induction h with
  | refl => exact .stop tail
  | step listed first _ ih => exact .more (mem_continuations listed) first (ih tail)

variable [DecidableEq γ]

/-- The tables are right about a grammar. -/
structure Fits (ahead : Lookahead ν κ τ γ) (g : Grammar ν τ) : Prop where
  rules : g.rules.toList = ahead.rules.map fun r => ⟨r.1, ahead.symbols r.2⟩
  classes : ∀ k t, ahead.accepts k t = true → ahead.classOf t ∈ ahead.classes k
  consistent : ahead.consistent = true

variable (fits : ahead.Fits g)
include fits

theorem Fits.rule {rhs : List (Symbol ν τ)} (found : g.rules[i]? = some ⟨n, rhs⟩) :
    ∃ parts, ahead.rules[i]? = some (n, parts) ∧ rhs = ahead.symbols parts := by
  rw [← Array.getElem?_toList, fits.rules, getElem?_map, Option.map_eq_some_iff] at found
  obtain ⟨r, found, same⟩ := found
  cases same
  exact ⟨r.2, found, rfl⟩

theorem Fits.nullable_of_vanish (rule : (n, parts) ∈ ahead.rules)
    (h : ahead.vanish parts) : ahead.nullable n := by
  have := all_eq_true.1 fits.consistent _ rule
  rw [and_eq_true, h] at this
  simpa using this.1

theorem Fits.mem_starts (rule : (n, parts) ∈ ahead.rules) {c : γ}
    (h : c ∈ ahead.startsOf parts) : c ∈ ahead.starts n := by
  have := all_eq_true.1 fits.consistent _ rule
  rw [and_eq_true, all_eq_true] at this
  simpa using this.2 c h

theorem Fits.reads_cases (h : Reads g (ahead.symbols parts) s r ts) :
    (∃ t s', s = t :: s' ∧ ahead.classOf t ∈ ahead.startsOf parts ∧ r.length ≤ s'.length) ∨
      s = r ∧ ahead.vanish parts := by
  generalize symbols : ahead.symbols parts = α at h
  induction h generalizing parts with
  | nil =>
    rw [map_eq_nil_iff] at symbols
    subst symbols
    exact .inr ⟨rfl, rfl⟩
  | @token label accepts others t input rest trees accepted tail ih =>
    obtain ⟨p, rest, rfl, head, -⟩ := map_eq_cons_iff.1 symbols
    cases p with
    | phrase n => cases head
    | token k =>
      cases head
      exact .inl ⟨t, input, rfl, fits.classes k t accepted, tail.length_le⟩
  | @phrase m others rhs rule input middle rest kids trees found inner tail inner_ih tail_ih =>
    obtain ⟨p, others, rfl, head, behind⟩ := map_eq_cons_iff.1 symbols
    cases p with
    | token k => cases head
    | phrase n =>
      cases head
      obtain ⟨body, listed, rfl⟩ := fits.rule found
      have listed := mem_of_getElem? listed
      rw [Lookahead.vanish]
      rcases inner_ih rfl with ⟨t, s', rfl, first, length⟩ | ⟨rfl, vanish⟩
      · refine .inl ⟨t, s', rfl, mem_append_left _ (fits.mem_starts listed first), ?_⟩
        exact Nat.le_trans tail.length_le length
      · have null := fits.nullable_of_vanish listed vanish
        rcases tail_ih behind with ⟨t, s', rfl, first, length⟩ | ⟨rfl, vanish⟩
        · refine .inl ⟨t, s', rfl, mem_append_right _ ?_, length⟩
          rwa [if_pos null]
        · exact .inr ⟨rfl, by rw [null, vanish, Bool.true_and]⟩

theorem Fits.phrase_cases (h : Reads g [.nonterminal n] s r ts) :
    (∃ t s', s = t :: s' ∧ ahead.classOf t ∈ ahead.starts n ∧ r.length ≤ s'.length) ∨
      s = r ∧ ahead.nullable n := by
  have parts : Reads g (ahead.symbols [.phrase n]) s r ts := h
  simpa [startsOf, Lookahead.vanish] using fits.reads_cases parts

theorem Fits.peek_mem (h : Spans ahead g after x s) : ahead.peek s ∈ ahead.peeks after x := by
  induction h with
  | nil last => exact last
  | @part p rest s m ts first tail ih =>
    cases p with
    | token k =>
      obtain ⟨t, s', us, rfl, -, accepted, -⟩ := reads_terminal.1 first
      exact mem_map_of_mem (fits.classes k t accepted)
    | phrase n =>
      rw [peeks]
      rcases fits.phrase_cases first with ⟨t, s', rfl, start, -⟩ | ⟨rfl, null⟩
      · exact mem_append_left _ (mem_map_of_mem start)
      · rw [if_pos null]
        exact mem_append_right _ ih
  | stop tail ih => exact mem_append_right _ ih
  | @more n parts rest s m ts listed first tail ih =>
    rcases fits.reads_cases first with ⟨t, s', rfl, start, -⟩ | ⟨rfl, -⟩
    · refine mem_append_left _ (mem_map_of_mem ?_)
      exact mem_flatMap.2 ⟨parts, listed, start⟩
    · exact ih

/-- A phrase is read by a rule that is not left-recursive, and then continued. -/
theorem grows_of_reads (h : Reads g [.nonterminal n] s r [t]) :
    ∃ i parts ts m, ahead.rules[i]? = some (n, parts) ∧ base? n (n, parts) = some parts ∧
      Reads g (ahead.symbols parts) s m ts ∧ Grows ahead g n (.node i ts) m t r := by
  induction size : sizeOf t using Nat.strongRecOn generalizing t r with
  | ind k ih =>
    obtain ⟨i, rhs, kids, rfl, found, inner⟩ := h.node
    obtain ⟨parts, listed, rfl⟩ := fits.rule found
    by_cases recursive : ∃ rest, parts = .phrase n :: rest
    · obtain ⟨rest, rfl⟩ := recursive
      obtain ⟨m, kid, kids, rfl, first, others⟩ := reads_nonterminal.1 inner
      have smaller : sizeOf kid < k := by
        simp only [← size, Tree.node.sizeOf_spec, List.cons.sizeOf_spec]
        omega
      obtain ⟨i', parts', ts, m', listed', base, reads, grows⟩ := ih _ smaller first rfl
      exact ⟨i', parts', ts, m', listed', base, reads, grows.snoc listed others⟩
    · have base := base?_eq fun rest h => recursive ⟨rest, h⟩
      exact ⟨i, parts, kids, r, listed, base, inner, .refl⟩

theorem Fits.opened {choices : List (List (Piece ν κ))}
    (h : ahead.opened? x = some choices) (spans : Spans ahead g after x s) :
    ∃ choice ∈ choices, Spans ahead g after choice s := by
  cases spans with
  | nil => cases h
  | @part p rest _ m ts first tail =>
    cases p with
    | token k => cases h
    | phrase n =>
      cases h
      obtain ⟨t, rfl⟩ := first.single
      obtain ⟨i, parts, ts, m', listed, base, reads, grows⟩ := grows_of_reads fits first
      exact ⟨_, mem_map_of_mem (mem_bases listed base), spans_parts reads (grows.spans tail)⟩
  | stop tail =>
    cases h
    exact ⟨_, mem_cons_self, tail⟩
  | more listed first tail =>
    cases h
    exact ⟨_, mem_cons_of_mem _ (mem_map_of_mem listed), spans_parts first tail⟩

/-- Phrases of `n` at the start of the text are read in one way only, if what comes after them may
come after such a phrase. -/
def Settles (ahead : Lookahead ν κ τ γ) (g : Grammar ν τ) (n : ν) (s : List τ) : Prop :=
  ∀ ⦃r r' t t'⦄, Reads g [.nonterminal n] s r [t] → Reads g [.nonterminal n] s r' [t'] →
    ahead.peek r ∈ ahead.follows n → ahead.peek r' ∈ ahead.follows n → t = t'

/-- Whole phrases settle further on in the text, and from the start on if they rank below the
bound. -/
def Known (ahead : Lookahead ν κ τ γ) (g : Grammar ν τ) (bound : Nat) (s : List τ) : Prop :=
  ∀ n s', ahead.whole n = true →
    s'.length < s.length ∨ s'.length ≤ s.length ∧ ahead.rank n < bound → ahead.Settles g n s'

omit [DecidableEq γ] fits in
theorem Known.mono {bound : Nat} (known : ahead.Known g bound s) (shorter : m.length ≤ s.length) :
    ahead.Known g bound m := by
  intro n s' whole order
  exact known n s' whole (by omega)

omit [DecidableEq γ] fits in
theorem Known.lift {bound : Nat} (known : ahead.Known g bound s) (shorter : m.length < s.length)
    (bound' : Nat) : ahead.Known g bound' m := by
  intro n s' whole order
  exact known n s' whole (by omega)

theorem Fits.known_behind {bound : Nat} (known : ahead.Known g bound s)
    (h : Reads g [.nonterminal n] s m ts) : ahead.Known g (ahead.behind bound n) m := by
  rw [behind]
  split
  · exact known.mono h.length_le
  next solid =>
    rcases fits.phrase_cases h with ⟨t, s', rfl, -, length⟩ | ⟨-, null⟩
    · exact known.lift (Nat.lt_succ_of_le length) _
    · exact (solid null).elim

variable {bound : Nat}

/-- A whole phrase that passes is read in one way, with the same rest. -/
theorem Fits.passes_unique (known : ahead.Known g bound s) {m' : List τ} {us : List (Tree τ)}
    (px : ahead.passes after bound n x) (py : ahead.passes after bound n y)
    (hx : Reads g [.nonterminal n] s m ts) (tx : Spans ahead g after x m)
    (hy : Reads g [.nonterminal n] s m' us) (ty : Spans ahead g after y m') : ts = us ∧ m = m' := by
  simp only [passes, and_eq_true, decide_eq_true_eq, all_eq_true, contains_iff_mem] at px py
  obtain ⟨t, rfl⟩ := hx.single
  obtain ⟨u, rfl⟩ := hy.single
  obtain rfl := known n s px.1.1 (.inr ⟨Nat.le_refl _, px.1.2⟩) hx hy
    (px.2 _ (fits.peek_mem tx)) (py.2 _ (fits.peek_mem ty))
  exact ⟨rfl, hx.rest_eq hy⟩

theorem Fits.passed (known : ahead.Known g bound s) {bound' : Nat}
    {x' y' : List (Piece ν κ)} (h : ahead.passed? after bound x y = some (bound', x', y'))
    (hx : Spans ahead g after x s) (hy : Spans ahead g after y s) :
    ∃ m, ahead.Known g bound' m ∧ Spans ahead g after x' m ∧ Spans ahead g after y' m := by
  unfold passed? at h
  split at h
  · cases h
    cases hx with
    | part first tail =>
      cases hy with
      | part first' tail' =>
        obtain ⟨t, m, us, rfl, -, -, stop⟩ := reads_terminal.1 first
        obtain ⟨_, _, us', same, -, -, stop'⟩ := reads_terminal.1 first'
        cases same
        obtain ⟨rfl, -⟩ := reads_nil.1 stop
        obtain ⟨rfl, -⟩ := reads_nil.1 stop'
        exact ⟨m, known.lift (Nat.lt_succ_self _) _, tail, tail'⟩
  · split at h
    next passes =>
      simp only [and_eq_true, decide_eq_true_eq] at passes
      obtain ⟨⟨rfl, px⟩, py⟩ := passes
      cases h
      cases hx with
      | part first tail =>
        cases hy with
        | part first' tail' =>
          obtain ⟨-, rfl⟩ := fits.passes_unique known px py first tail first' tail'
          exact ⟨_, fits.known_behind known first, tail, tail'⟩
    · cases h
  · cases h

/-- Sequences that are apart do not both read a text. -/
theorem Fits.not_both {fuel : Nat} (h : ahead.apart after fuel bound x y)
    (known : ahead.Known g bound s) (hx : Spans ahead g after x s) (hy : Spans ahead g after y s) : False := by
  induction fuel generalizing bound x y s with
  | zero => cases h
  | succ fuel ih =>
    rw [apart, or_eq_true] at h
    rcases h with differ | h
    · have := all_eq_true.1 differ _ (fits.peek_mem hx)
      simp [fits.peek_mem hy] at this
    · split at h
      next passed =>
        obtain ⟨m, known', hx', hy'⟩ := fits.passed known passed hx hy
        exact ih h known' hx' hy'
      · split at h <;> split at h
        next choices opened =>
          obtain ⟨choice, mem, hx'⟩ := fits.opened opened hx
          exact ih (all_eq_true.1 h choice mem) known hx' hy
        · cases h
        next choices opened =>
          obtain ⟨choice, mem, hy'⟩ := fits.opened opened hy
          exact ih (all_eq_true.1 h choice mem) known hx hy'
        · cases h

end Lookahead
end Meaning

section Unique

variable {ν κ τ γ : Type} [DecidableEq ν] [Ord ν] [DecidableEq γ] {ahead : Lookahead ν κ τ γ}
  {g : Grammar ν τ} {s m m' r r' : List τ} {ts us : List (Tree τ)} {n : ν}
  {parts : List (Part ν κ)} {x : List (Piece ν κ)} {after : List (Option γ)} {bound fuel : Nat}

/-- A relation between all entries of a list that is made of another one. -/
theorem rel_of_filterMap {α β : Type} {f : α → Option β} {R : β → β → Prop} {l : List α}
    (h : (l.filterMap f).Pairwise R) {i j : Nat} (lt : i < j) {a b : α} {a' b' : β}
    (ha : l[i]? = some a) (hb : l[j]? = some b) (fa : f a = some a') (fb : f b = some b') : R a' b' := by
  obtain ⟨hi, rfl⟩ := List.getElem?_eq_some_iff.1 ha
  obtain ⟨hj, rfl⟩ := List.getElem?_eq_some_iff.1 hb
  exact pairwise_iff_getElem.1 (pairwise_filterMap.1 h) i j hi hj lt a' fa b' fb

namespace Lookahead

variable (fits : ahead.Fits g)
include fits

/-- Alternatives that are pairwise apart do not both read a text. -/
theorem Fits.same_rule {f : ν × List (Part ν κ) → Option (List (Part ν κ))}
    (pairs : (ahead.rules.filterMap f).Pairwise fun p q =>
      ahead.apart after fuel bound (p.map .part ++ x) (q.map .part ++ x))
    (known : ahead.Known g bound s) {i j : Nat} {a b : ν × List (Part ν κ)}
    {p q : List (Part ν κ)} (ha : ahead.rules[i]? = some a) (hb : ahead.rules[j]? = some b)
    (fa : f a = some p) (fb : f b = some q) (hx : Spans ahead g after (p.map .part ++ x) s)
    (hy : Spans ahead g after (q.map .part ++ x) s) : i = j := by
  rcases Nat.lt_trichotomy i j with lt | same | gt
  · exact (fits.not_both (rel_of_filterMap pairs lt ha hb fa fb) known hx hy).elim
  · exact same
  · exact (fits.not_both (rel_of_filterMap pairs gt hb ha fb fa) known hy hx).elim

/-- A phrase that has no continuations is one of the rules for it. -/
theorem Fits.opened_phrase (none : ahead.continuations n = [])
    (h : Reads g (ahead.symbols (.phrase n :: parts)) s r ts) :
    ∃ i body kids us, ts = .node i kids :: us ∧ ahead.rules[i]? = some (n, body) ∧
      base? n (n, body) = some body ∧ kids.length = body.length ∧
      Reads g (ahead.symbols (body ++ parts)) s r (kids ++ us) := by
  obtain ⟨m, t, us, rfl, first, others⟩ := reads_nonterminal.1 h
  obtain ⟨i, rhs, kids, rfl, found, inner⟩ := first.node
  obtain ⟨body, listed, rfl⟩ := fits.rule found
  have base : base? n (n, body) = some body := base?_eq fun rest same => by
    subst same
    have := mem_continuations listed
    rw [none] at this
    cases this
  refine ⟨i, body, kids, us, rfl, listed, base, by simpa using inner.length_trees, ?_⟩
  rw [symbols, map_append]
  exact inner.append others

theorem Fits.single_unique (h : ahead.single after fuel bound parts x) (known : ahead.Known g bound s)
    (hx : Reads g (ahead.symbols parts) s m ts) (tx : Spans ahead g after x m)
    (hy : Reads g (ahead.symbols parts) s m' us) (ty : Spans ahead g after x m') : ts = us := by
  induction fuel generalizing parts bound s ts us with
  | zero =>
    cases parts with
    | nil => rw [(reads_nil.1 hx).2, (reads_nil.1 hy).2]
    | cons => cases h
  | succ fuel ih =>
    cases parts with
    | nil => rw [(reads_nil.1 hx).2, (reads_nil.1 hy).2]
    | cons p rest =>
      cases p with
      | token k =>
        obtain ⟨t, s', ts, rfl, rfl, -, hx⟩ := reads_terminal.1 hx
        obtain ⟨_, _, us, same, rfl, -, hy⟩ := reads_terminal.1 hy
        cases same
        rw [ih h (known.lift (Nat.lt_succ_self _) _) hx hy]
      | phrase n =>
        rw [single] at h
        split at h
        next passes =>
          obtain ⟨m₁, t, ts, rfl, first, hx'⟩ := reads_nonterminal.1 hx
          obtain ⟨m₂, u, us, rfl, first', hy'⟩ := reads_nonterminal.1 hy
          obtain ⟨same, rfl⟩ := fits.passes_unique known passes passes first (spans_parts hx' tx)
            first' (spans_parts hy' ty)
          cases same
          rw [ih h (fits.known_behind known first) hx' hy']
        · simp only [and_eq_true, List.isEmpty_iff, decide_eq_true_eq, all_eq_true] at h
          obtain ⟨⟨none, pairs⟩, each⟩ := h
          obtain ⟨i, body, kids, vs, rfl, listed, base, count, reads⟩ := fits.opened_phrase none hx
          obtain ⟨j, body', kids', vs', rfl, listed', base', count', reads'⟩ :=
            fits.opened_phrase none hy
          have spans := spans_parts reads tx
          have spans' := spans_parts reads' ty
          rw [map_append, append_assoc] at spans spans'
          obtain rfl := fits.same_rule pairs known listed listed' base base' spans spans'
          cases listed.symm.trans listed'
          have same := ih (each body (mem_bases listed base)) known reads reads'
          obtain ⟨rfl, rfl⟩ := append_inj same (count.trans count'.symm)
          rfl

/-- Continuations of the same phrase lead to the same phrase. -/
theorem Fits.grows_unique (h : ahead.settled fuel n)
    (known : ahead.Known g (ahead.rank n) s) {t u v : Tree τ} (hu : Grows ahead g n t s u r)
    (hv : Grows ahead g n t s v r') (lu : ahead.peek r ∈ ahead.follows n)
    (lv : ahead.peek r' ∈ ahead.follows n) : u = v := by
  simp only [settled, and_eq_true, decide_eq_true_eq, all_eq_true] at h
  obtain ⟨⟨⟨-, pairs⟩, single⟩, stops⟩ := h
  induction hu generalizing v with
  | refl =>
    cases hv with
    | refl => rfl
    | step listed first tail =>
      refine (fits.not_both (stops _ (mem_continuations listed)) known (.nil lu) ?_).elim
      exact spans_parts first (tail.spans (.nil lv))
  | step listed first tail ih =>
    cases hv with
    | refl =>
      refine (fits.not_both (stops _ (mem_continuations listed)) known (.nil lv) ?_).elim
      exact spans_parts first (tail.spans (.nil lu))
    | step listed' first' tail' =>
      have spans := tail.spans (.nil lu)
      have spans' := tail'.spans (.nil lv)
      obtain rfl := fits.same_rule pairs known listed listed' continuation?_eq continuation?_eq
        (spans_parts first spans) (spans_parts first' spans')
      cases listed.symm.trans listed'
      obtain rfl := fits.single_unique (single _ (mem_continuations listed)) known first spans first' spans'
      obtain rfl := first.rest_eq first'
      exact ih (known.mono first.length_le) tail' lu

/-- If the checks succeed for all whole phrases, they are read in one way only. -/
theorem Fits.settles (h : ∀ n, ahead.whole n → ahead.settled fuel n) (whole : ahead.whole n)
    (s : List τ) : ahead.Settles g n s := by
  induction length : s.length using Nat.strongRecOn generalizing n s with
  | ind k shorter =>
    induction rank : ahead.rank n using Nat.strongRecOn generalizing n s with
    | ind l lower =>
      have known : ahead.Known g (ahead.rank n) s := by
        intro n' s' whole' order
        by_cases short : s'.length < k
        · exact shorter _ short whole' s' rfl
        · exact lower _ (by omega) whole' s' (by omega) rfl
      intro r r' t t' hx hy lx ly
      obtain ⟨i, parts, ts, m, listed, base, reads, grows⟩ := grows_of_reads fits hx
      obtain ⟨j, parts', us, m', listed', base', reads', grows'⟩ := grows_of_reads fits hy
      have checked := h n whole
      simp only [settled, and_eq_true, decide_eq_true_eq, all_eq_true] at checked
      obtain ⟨⟨⟨⟨pairs, single⟩, -⟩, -⟩, -⟩ := checked
      have spans := grows.spans (.nil lx)
      have spans' := grows'.spans (.nil ly)
      obtain rfl := fits.same_rule pairs known listed listed' base base' (spans_parts reads spans)
        (spans_parts reads' spans')
      cases listed.symm.trans listed'
      obtain rfl := fits.single_unique (single _ (mem_bases listed base)) known reads spans reads' spans'
      obtain rfl := reads.rest_eq reads'
      exact fits.grows_unique (h n whole) (known.mono reads.length_le) grows grows' lx ly

theorem Fits.unambiguous (h : ∀ n, ahead.whole n → ahead.settled fuel n) (whole : ahead.whole n)
    (last : none ∈ ahead.follows n) {tokens : List τ} {t u : Tree τ} (ht : Derives g n tokens t)
    (hu : Derives g n tokens u) : t = u :=
  fits.settles h whole tokens ht hu last last

theorem Fits.vanish_of_nullable (h : (ahead.symbols parts).all (Symbol.vanishes g.nullable)) :
    ahead.vanish parts := by
  induction parts with
  | nil => rfl
  | cons p parts ih =>
    rw [symbols, map_cons, all_cons, and_eq_true] at h
    cases p with
    | token k => cases h.1
    | phrase n =>
      obtain ⟨t, reads⟩ := vanishing_of_isNullable (g := g) h.1
      rw [Lookahead.vanish, ih h.2, Bool.and_true]
      rcases fits.phrase_cases (reads []) with ⟨_, _, empty, -⟩ | ⟨-, null⟩
      · cases empty
      · exact null

theorem Fits.leftRanked (h : ∀ r ∈ ahead.rules, ahead.descends r.1 r.2) : LeftRanked g ahead.rank := by
  intro r hr α m β split vanish
  rw [fits.rules] at hr
  obtain ⟨⟨n, parts⟩, listed, rfl⟩ := mem_map.1 hr
  have descends := h _ listed
  clear hr listed
  induction parts generalizing α with
  | nil => cases α <;> cases split
  | cons p parts ih =>
    cases α with
    | nil =>
      cases p with
      | token k => cases split
      | phrase k =>
        cases split
        simp only [Lookahead.descends, and_eq_true, or_eq_true, decide_eq_true_eq] at descends
        refine descends.1.imp_right fun ⟨same, solid⟩ => ⟨same, ?_⟩
        by_contra all
        rw [fits.vanish_of_nullable (by simpa using all)] at solid
        cases solid
    | cons a α =>
      rw [all_cons, and_eq_true] at vanish
      obtain ⟨rfl, rest⟩ := cons.inj split
      cases p with
      | token k => cases vanish.1
      | phrase k =>
        have null : ahead.vanish [.phrase k] := fits.vanish_of_nullable (by
          simpa using vanish.1)
        simp only [Lookahead.descends, and_eq_true, or_eq_true] at descends
        refine ih α vanish.2 rest (descends.2.resolve_left ?_)
        simpa [Lookahead.vanish] using null

end Lookahead
end Unique
end Peano.Grammar
