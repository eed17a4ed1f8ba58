import Peano.Program.Evaluate
namespace Peano

namespace Run

variable {α β : Type}

section Bind

variable {m : Run α} (k : α → Run β) {l l' : Limit}

theorem bind_stuck (h : m l = none) : (m >>= k) l = none := by
  show Option.bind (m l) _ = none
  rw [h, Option.bind_none]

theorem bind_ok {a : α} (h : m l = some (.ok (a, l'))) : (m >>= k) l = k a l' := by
  show Option.bind (m l) _ = _
  rw [h]
  rfl

theorem bind_error {e : RunError} (h : m l = some (.error e)) : (m >>= k) l = some (.error e) := by
  show Option.bind (m l) _ = _
  rw [h]
  rfl

end Bind

/-- Whatever the first run comes to, the second one comes to as well. -/
def Extends (m m' : Run α) : Prop := ∀ l o, m l = some o → m' l = some o

theorem Extends.refl (m : Run α) : Extends m m := fun _ _ h => h

theorem Extends.trans {m m' m'' : Run α} (h : Extends m m') (h' : Extends m' m'') : Extends m m'' :=
  fun l o run => h' l o (h l o run)

theorem Extends.bind {m m' : Run α} {k k' : α → Run β} (h : Extends m m')
    (hk : ∀ a, Extends (k a) (k' a)) : Extends (m >>= k) (m' >>= k') := by
  intro l o run
  match first : m l with
  | none => cases (bind_stuck k first).symm.trans run
  | some (.ok (a, l')) =>
    rw [bind_ok k first] at run
    rw [bind_ok k' (h l _ first)]
    exact hk a l' o run
  | some (.error e) =>
    rw [bind_error k first] at run
    rwa [bind_error k' (h l _ first)]

/-- A relation between runs that is kept when they are put together. -/
structure Congruence (R : {α : Type} → Run α → Run α → Prop) : Prop where
  pure : ∀ {α : Type} (a : α), R (Pure.pure a) (Pure.pure a)
  fail : ∀ {α : Type} (why : Failure), R (Run.fail why : Run α) (Run.fail why)
  round : R Run.round Run.round
  bind : ∀ {α β : Type} {m m' : Run α} {k k' : α → Run β}, R m m' → (∀ a, R (k a) (k' a)) →
    R (m >>= k) (m' >>= k')

theorem extends_congruence : Congruence Extends :=
  ⟨fun _ => .refl _, fun _ => .refl _, .refl _, Extends.bind⟩

end Run

section Congruence

variable {R : {α : Type} → Run α → Run α → Prop} (c : Run.Congruence R)
include c

theorem iterate_related {step step' : Nat → Value → Run Value} (h : ∀ k v, R (step k v) (step' k v))
    (n i : Nat) (v : Value) : R (iterate step n i v) (iterate step' n i v) := by
  induction n generalizing i v with
  | zero => exact c.pure v
  | succ n ih => exact c.bind c.round fun _ => c.bind (h i v) fun w => ih (i + 1) w

variable {ev ev' : Env → Realizer → Run Value} (h : ∀ env r, R (ev env r) (ev' env r))
include h

theorem Value.call_related (f v : Value) : R (f.call ev v) (f.call ev' v) := by
  cases f with
  | closure x body env => exact h _ _
  | partialApp p args =>
    simp only [call]
    cases p.feed args v with
    | ok w => exact c.pure w
    | error why => exact c.fail why
  | _ => exact c.fail _

/-- What a realizer comes to depends on its parts as the relation says. -/
theorem Realizer.enter_related (env : Env) (r : Realizer) : R (r.enter ev env) (r.enter ev' env) := by
  induction r generalizing env with
  | lookup x =>
    unfold enter
    split
    · exact c.pure _
    · exact c.fail _
  | number | witness | primitive | lambda => exact c.pure _
  | fail why => exact c.fail why
  | add l r | mul l r =>
    refine c.bind (h env l) fun v => c.bind (h env r) fun w => ?_
    split
    · exact c.pure _
    · exact c.fail _
  | pair l r => exact c.bind (h env l) fun _ => c.bind (h env r) fun _ => c.pure _
  | injectLeft r | injectRight r => exact c.bind (h env r) fun _ => c.pure _
  | succ r | left r | right r =>
    refine c.bind (h env r) fun v => ?_
    split
    · exact c.pure _
    · exact c.fail _
  | apply f a => exact c.bind (h env f) fun fv => c.bind (h env a) fun av => Value.call_related c h fv av
  | exist n p =>
    refine c.bind (h env n) fun v => ?_
    split
    · refine c.bind (h env p) fun w => ?_
      split
      · exact c.fail _
      · exact c.pure _
    · exact c.fail _
  | switch s x l y r =>
    refine c.bind (h env s) fun v => ?_
    split
    · exact h _ _
    · exact h _ _
    · exact c.fail _
  | loop bound base i p body =>
    refine c.bind (h env bound) fun v => ?_
    split
    · exact c.bind (h env base) fun v => iterate_related c (fun _ _ => h _ body) _ 0 v
    · exact c.fail _
  | define x v rest _ ih => exact c.bind (h env v) fun _ => ih _
  | unpack n p v rest _ ih =>
    refine c.bind (h env v) fun w => ?_
    split
    · exact ih _
    · exact c.fail _

end Congruence

namespace Realizer

theorem eval_extends_succ (fuel : Nat) (env : Env) (r : Realizer) :
    Run.Extends (r.eval fuel env) (r.eval (fuel + 1) env) := by
  induction fuel generalizing env r with
  | zero => exact fun _ _ h => nomatch h
  | succ fuel ih => exact enter_related Run.extends_congruence ih env r

/-- More fuel does not change what a realizer comes to. -/
theorem eval_extends {fuel fuel' : Nat} (h : fuel ≤ fuel') (env : Env) (r : Realizer) :
    Run.Extends (r.eval fuel env) (r.eval fuel' env) := by
  induction h with
  | refl => exact .refl _
  | step _ ih => exact ih.trans (eval_extends_succ _ env r)

end Realizer

section Steady

variable {ev : Env → Realizer → Run Value}

/-- Rounds do not use up the limit: there are none, or as many as wanted. -/
def Limit.Steady (l : Limit) : Prop := ∀ l', l.spend = .ok l' → l' = l

theorem Limit.steady_iff (l : Limit) : l.Steady ↔ l.rounds = none ∨ l.rounds = some 0 := by
  obtain ⟨rounds, stop⟩ := l
  constructor
  · intro steady
    match rounds with
    | none => exact .inl rfl
    | some 0 => exact .inr rfl
    | some (n + 1) =>
      have fewer := steady ⟨some n, stop⟩ rfl
      simp at fewer
  · rintro (rfl | rfl) l' spent
    · cases spent
      rfl
    · cases spent

namespace Run

variable {α β : Type} {l : Limit}

/-- Where the run comes to something, the limit that is left is the one it started with. -/
def Keeps (l : Limit) (m : Run α) : Prop := ∀ a l', m l = some (.ok (a, l')) → l' = l

theorem Keeps.pure (a : α) : Keeps l (Pure.pure a) := by
  rintro _ _ ⟨⟩
  rfl

theorem Keeps.fail (why : Failure) : Keeps l (Run.fail why : Run α) := nofun

theorem Keeps.bind {m : Run α} {k : α → Run β} (h : Keeps l m) (hk : ∀ a, Keeps l (k a)) :
    Keeps l (m >>= k) := by
  intro b l' run
  match first : m l with
  | none => cases (bind_stuck k first).symm.trans run
  | some (.error e) => cases (bind_error k first).symm.trans run
  | some (.ok (a, l₁)) =>
    rw [bind_ok k first, h a l₁ first] at run
    exact hk a b l' run

theorem Keeps.round (steady : l.Steady) : Keeps l Run.round := by
  intro _ l' run
  unfold Run.round at run
  split at run
  next l₁ spent =>
    cases run
    exact steady _ spent
  · cases run

theorem keeps_congruence (steady : l.Steady) : Congruence fun m _ => Keeps l m :=
  ⟨.pure, .fail, .round steady, .bind⟩

end Run

open Run (Keeps)

variable {l : Limit}

theorem Realizer.eval_keeps (steady : l.Steady) (fuel : Nat) (env : Env) (r : Realizer) :
    Keeps l (r.eval fuel env) := by
  induction fuel generalizing env r with
  | zero => exact nofun
  | succ fuel ih => exact @enter_related _ (Run.keeps_congruence steady) _ (eval fuel) ih env r

theorem Binding.bind_keeps (h : ∀ env r, Keeps l (ev env r)) (env : Env) (b : Binding) :
    Keeps l (b.bind ev env) := by
  cases b with
  | define x v => exact (h env v).bind fun _ => .pure _
  | unpack n p v =>
    refine (h env v).bind fun w => ?_
    split
    · exact .pure _
    · exact .fail _

namespace Program

variable {α β : Type} {m : Run α}

theorem finish_stuck (h : m l = none) : finish l m = .error (.stopped l.stop) := by
  have run : (m.run l).run = none := h
  rw [finish, run]

theorem finish_ok {a : α} {l' : Limit} (h : m l = some (.ok (a, l'))) : finish l m = .ok a := by
  have run : (m.run l).run = some (.ok (a, l')) := h
  rw [finish, run]

theorem finish_error {e : RunError} (h : m l = some (.error e)) : finish l m = .error e := by
  have run : (m.run l).run = some (.error e) := h
  rw [finish, run]

/-- One run after the other comes to what both together come to. -/
theorem finish_bind (h : Keeps l m) (k : α → Run β) :
    finish l (m >>= k) = (finish l m).bind fun a => finish l (k a) := by
  match first : m l with
  | none =>
    rw [finish_stuck (Run.bind_stuck k first), finish_stuck first]
    rfl
  | some (.error e) =>
    rw [finish_error (Run.bind_error k first), finish_error first]
    rfl
  | some (.ok (a, l₁)) =>
    obtain rfl := h a l₁ first
    have run : ((m >>= k).run l₁).run = ((k a).run l₁).run := Run.bind_ok k first
    rw [finish_ok first, finish, run]
    rfl

end Program
end Steady

/-- The failures of proofs that are not constructive. -/
def Failure.nonconstructive : List Failure :=
  [.succNotZero, .neverElim, .neverElimInstance, .excludedMiddle]

namespace Run

variable {α β : Type}
variable {out : Except Failure α}

/-- The run without a limit gives this result, or fails with this. -/
def Comes (m : Run α) : Except Failure α → Prop
  | .ok a => m .unlimited = some (.ok (a, .unlimited))
  | .error why => m .unlimited = some (.error (.failed why))

theorem Comes.bind {m : Run α} {k : α → Run β} {a : α} {out : Except Failure β}
    (first : m.Comes (.ok a)) (second : (k a).Comes out) : (m >>= k).Comes out := by
  cases out with
  | ok b | error why => exact (bind_ok k first).trans second

theorem Comes.finish {m : Run α} (h : m.Comes out) : Program.finish .unlimited m = out.mapError .failed := by
  cases out with
  | ok a => exact Program.finish_ok h
  | error why => exact Program.finish_error h

theorem finish_of_extends {m m' : Run α} (h : Extends m m') (known : m'.Comes out) :
    Program.finish .unlimited m = out.mapError .failed ∨
      Program.finish .unlimited m = .error (.stopped .killed) := by
  cases run : m .unlimited with
  | none => exact .inr (Program.finish_stuck run)
  | some o =>
    have same : m .unlimited = m' .unlimited := run.trans (h _ _ run).symm
    refine .inl (Comes.finish ?_)
    cases out <;> exact same.trans known

/-- With enough fuel there is a result that satisfies `P`, or a failure that has to be expected. -/
def Ends (P : α → Prop) (m : Nat → Run α) : Prop :=
  ∃ out, (∀ a, out = .ok a → P a) ∧ (∀ why, out = .error why → why ∈ Failure.nonconstructive) ∧
    ∃ n, ∀ fuel ≥ n, (m fuel).Comes out

section Ends

variable {P Q : α → Prop} {R : β → Prop}
variable {m : Nat → Run α}

theorem Ends.pure {a : α} (h : P a) : Ends P fun _ => Pure.pure a := by
  refine ⟨.ok a, ?_, nofun, 0, fun _ _ => rfl⟩
  rintro _ ⟨⟩
  exact h

theorem Ends.fail {why : Failure} (h : why ∈ Failure.nonconstructive) : Ends P fun _ => Run.fail why := by
  refine ⟨.error why, nofun, ?_, 0, fun _ _ => rfl⟩
  rintro _ ⟨⟩
  exact h

theorem Ends.mono (h : Ends P m) (weaker : ∀ a, P a → Q a) : Ends Q m := by
  obtain ⟨out, good, excused, ends⟩ := h
  exact ⟨out, fun a h => weaker a (good a h), excused, ends⟩

/-- One level of depth costs one unit of fuel. -/
theorem Ends.deeper {m m' : Nat → Run α} (h : Ends P m) (deeper : ∀ fuel, m' (fuel + 1) = m fuel) :
    Ends P m' := by
  obtain ⟨out, good, excused, n, ends⟩ := h
  refine ⟨out, good, excused, n + 1, fun fuel enough => ?_⟩
  obtain ⟨fuel, rfl⟩ := Nat.exists_eq_add_of_le' (Nat.le_of_add_left_le enough)
  rw [deeper]
  exact ends fuel (Nat.le_of_succ_le_succ enough)

theorem Ends.sooner (h : Ends P m) : Ends P fun fuel => m (fuel + 1) := by
  obtain ⟨out, good, excused, n, ends⟩ := h
  exact ⟨out, good, excused, n, fun fuel enough => ends (fuel + 1) (Nat.le_succ_of_le enough)⟩

theorem Ends.bind {k : Nat → α → Run β} (h : Ends P m) (hk : ∀ a, P a → Ends R fun fuel => k fuel a) :
    Ends R fun fuel => m fuel >>= k fuel := by
  obtain ⟨out, good, excused, n, ends⟩ := h
  cases out with
  | error why =>
    refine ⟨.error why, nofun, ?_, n, fun fuel enough => ?_⟩
    · rintro _ ⟨⟩
      exact excused why rfl
    · exact bind_error (k fuel) (ends fuel enough)
  | ok a =>
    obtain ⟨out', good', excused', n', ends'⟩ := hk a (good a rfl)
    refine ⟨out', good', excused', max n n', fun fuel enough => ?_⟩
    exact (ends fuel (by omega)).bind (ends' fuel (by omega))

theorem Ends.iterate {P : Value → Prop} {step : Nat → Nat → Value → Run Value}
    (h : ∀ k v, P v → Ends P fun fuel => step fuel k v) (n i : Nat) {v : Value} (start : P v) :
    Ends P fun fuel => Peano.iterate (step fuel) n i v := by
  induction n generalizing i v with
  | zero => exact Ends.pure start
  | succ n ih =>
    have round : Ends (fun _ => True) fun _ => Run.round :=
      ⟨.ok (), fun _ _ => trivial, nofun, 0, fun _ _ => rfl⟩
    exact round.bind fun _ _ => (h i v start).bind fun w good => ih (i + 1) good

end Ends
end Run

end Peano
