import Peano.Proofs.Checking.Accepted
import Peano.Proofs.Number.Limbs
import Peano.Proofs.Realizer.Evaluation
namespace Peano
open List (range')

/-- The numbers that a counter goes through from `i` on while it is below `limit`. -/
inductive Limbs.Counts (limit : Limbs) : Limbs → List Limbs → Prop
  | done {i} (stop : i.cmp limit ≠ .lt) : Counts limit i []
  | more {i is} (go : i.cmp limit = .lt) (rest : Counts limit (i.addSmall 1) is) : Counts limit i (i :: is)

theorem Limbs.counts_range' (limit : Limbs) (n : Nat) (i : Limbs) (left : i.value + n = limit.value) :
    ∃ is, limit.Counts i is ∧ is.map value = range' i.value n := by
  induction n generalizing i with
  | zero =>
    have stop : i.cmp limit ≠ .lt := by
      rw [cmp_eq, ← left]
      simp
    exact ⟨[], .done stop, rfl⟩
  | succ n ih =>
    have next : (i.addSmall 1).value = i.value + 1 := by
      rw [addSmall, add, value_trim, value_addCarry (by decide)]
      rfl
    have go : i.cmp limit = .lt := by
      rw [cmp_eq, Nat.compare_eq_lt]
      omega
    obtain ⟨is, counts, values⟩ := ih (i.addSmall 1) (by omega)
    refine ⟨i :: is, .more go counts, ?_⟩
    rw [List.map_cons, values, next, List.range'_succ]

/-- With enough fuel the run comes to `out`. -/
def Run.Settles {α : Type} (m : Nat → Run α) (out : Except Failure α) : Prop :=
  ∃ n, ∀ fuel ≥ n, (m fuel).Comes out

def rounds {m : Type → Type} [Monad m] (step : Nat → Value → m Value) (ks : List Nat) (v : Value) : m Value :=
  ks.foldlM (fun acc k => step k acc) v

theorem iterate_eq_rounds (step : Nat → Value → Run Value) (n i : Nat) (v : Value) :
    iterate step n i v = rounds (fun k acc => do Run.round; step k acc) (range' i n) v := by
  induction n generalizing i v with
  | zero => rfl
  | succ n ih =>
    rw [iterate, rounds, List.range'_succ, List.foldlM_cons, bind_assoc]
    simp only [ih]
    rfl

/-- Rounds that settle one after the other settle together: on the last value, or on the first failure. -/
theorem iterate_settles {step : Nat → Nat → Value → Run Value} {f : Nat → Value → Except Failure Value}
    (n i : Nat) (v : Value) (settles : ∀ k < n, ∀ acc, rounds f (range' i k) v = .ok acc →
      Run.Settles (fun fuel => step fuel (i + k) acc) (f (i + k) acc)) :
    Run.Settles (fun fuel => iterate (step fuel) n i v) (rounds f (range' i n) v) := by
  induction n generalizing i v with
  | zero => exact ⟨0, fun _ _ => rfl⟩
  | succ n ih =>
    have round : Run.round.Comes (.ok ()) := rfl
    obtain ⟨d, first⟩ := settles 0 n.succ_pos v rfl
    have unfolds (k : Nat) : rounds f (range' i (k + 1)) v = f i v >>= rounds f (range' (i + 1) k) := by
      rw [rounds, List.range'_succ, List.foldlM_cons]
      rfl
    cases out : f i v with
    | error why =>
      rw [Nat.add_zero, out] at first
      rw [unfolds, out]
      exact ⟨d, fun fuel enough => round.bind (Run.bind_error _ (first fuel enough))⟩
    | ok w =>
      rw [Nat.add_zero, out] at first
      obtain ⟨d', rest⟩ := ih (i + 1) w fun k hk acc reached => by
        have later := settles (k + 1) (Nat.succ_lt_succ hk) acc (by rwa [unfolds, out])
        rwa [← Nat.add_assoc, Nat.add_right_comm] at later
      rw [unfolds, out]
      exact ⟨max d d', fun fuel enough => round.bind ((first fuel (by omega)).bind (rest fuel (by omega)))⟩

namespace Realizer

variable {bound base body : Realizer} {i p : String} {env : Env} {n : Nat} {v : Value}

def Gives (env : Env) (r : Realizer) (out : Except Failure Value) : Prop :=
  Run.Settles (fun fuel => r.eval fuel env) out

theorem Gives.intro {r : Realizer} {out : Except Failure Value} (depth : Nat)
    (comes : ∀ fuel, (r.eval (fuel + depth) env).Comes out) : r.Gives env out := by
  refine ⟨depth, fun fuel enough => ?_⟩
  obtain ⟨fuel, rfl⟩ := Nat.exists_eq_add_of_le' enough
  exact comes fuel

theorem eval_loop {fuel : Nat} {l l₁ l₂ : Limit} (bounded : bound.eval fuel env l = some (.ok (.number n, l₁)))
    (starts : base.eval fuel env l₁ = some (.ok (v, l₂))) : (loop bound base i p body).eval (fuel + 1) env l =
      rounds (m := Run) (fun k acc => do Run.round; body.eval fuel ((p, acc) :: (i, .number k) :: env))
        (List.range n) v l₂ := by
  rw [List.range_eq_range', ← iterate_eq_rounds]
  exact (Run.bind_ok _ bounded).trans (Run.bind_ok _ starts)

theorem loop_gives {f : Nat → Value → Except Failure Value} (bounded : bound.Gives env (.ok (.number n)))
    (starts : base.Gives env (.ok v)) (goes : ∀ k < n, ∀ acc, rounds f (List.range k) v = .ok acc →
      body.Gives ((p, acc) :: (i, .number k) :: env) (f k acc)) :
    (loop bound base i p body).Gives env (rounds f (List.range n) v) := by
  obtain ⟨d, bounded⟩ := bounded
  obtain ⟨d', starts⟩ := starts
  simp only [List.range_eq_range'] at goes ⊢
  obtain ⟨d'', all⟩ := iterate_settles n 0 v fun k hk acc reached => by
    rw [Nat.zero_add]
    exact goes k hk acc reached
  refine ⟨max d (max d' d'') + 1, fun fuel enough => ?_⟩
  obtain ⟨fuel, rfl⟩ := Nat.exists_eq_add_of_le' (Nat.le_of_add_left_le enough)
  exact (bounded fuel (by omega)).bind ((starts fuel (by omega)).bind (all fuel (by omega)))

end Realizer

namespace Judgement

variable {cfg : Settings} {scope : Scope} {l : Syntax.Loop} {require : Option Formula} {t : Typed}
variable {notes notes' : Notes}

/-- A loop without errors runs its body for each number below its bound, from what its base comes to, and
comes to the last value or to the first failure. If it may not go on, it stops before the first round. With
shortcuts a loop whose type has a primitive is that primitive, and nothing of it is run. -/
theorem loop_iterates (checked : (check cfg scope (.loop l) require).run notes = .ok (t, notes'))
    (clean : ∀ r ∈ notes'.records, r.isError = false) :
    ∃ bound base body : Typed, Passes cfg (Allowed false) (.term scope l.bound none bound) ∧
      (∃ required, Passes cfg (Allowed false) (.term scope l.proof.value required base)) ∧
      (∃ entry required seen, Passes cfg (Allowed false) (.block
        ((scope.insert l.counter.name.text (.arithmetic (.var l.counter.name.text))).insert l.proof.name.text entry)
        false l.body required seen body)) ∧
      (∀ p, replacement? cfg false t.type = some p → t.realizer = .primitive p ∧
        ∀ fuel env limit, t.realizer.eval (fuel + 1) env limit = some (.ok (.partialApp p [], limit))) ∧
      (replacement? cfg false t.type = none →
        t.realizer = .loop bound.realizer base.realizer l.counter.name.text l.proof.name.text body.realizer ∧
        ∀ (env : Env) (n : Nat) (v₀ : Value),
          let inside (k : Nat) (acc : Value) : Env :=
            (l.proof.name.text, acc) :: (l.counter.name.text, .number k) :: env
          -- counting
          (∀ limit : Limbs, limit.value = n → ∃ is, limit.Counts [] is ∧ is.map Limbs.value = List.range n) ∧
          (∀ fuel limit limit₁ limit₂, bound.realizer.eval fuel env limit = some (.ok (.number n, limit₁)) →
            base.realizer.eval fuel env limit₁ = some (.ok (v₀, limit₂)) →
            t.realizer.eval (fuel + 1) env limit =
              rounds (m := Run) (fun k acc => do Run.round; body.realizer.eval fuel (inside k acc))
                (List.range n) v₀ limit₂) ∧
          -- without a limit
          (∀ f, bound.realizer.Gives env (.ok (.number n)) → base.realizer.Gives env (.ok v₀) →
            (∀ k < n, ∀ acc, rounds f (List.range k) v₀ = .ok acc →
              body.realizer.Gives (inside k acc) (f k acc)) →
            t.realizer.Gives env (rounds f (List.range n) v₀)) ∧
          -- stopped before it begins
          ∀ fuel stop, bound.realizer.eval fuel env (.exhausted stop) = some (.ok (.number n, .exhausted stop)) →
            base.realizer.eval fuel env (.exhausted stop) = some (.ok (v₀, .exhausted stop)) →
            t.realizer.eval (fuel + 1) env (.exhausted stop) =
              some (if n = 0 then .ok (v₀, .exhausted stop) else .error (.stopped stop))) := by
  have sound : Sound false cfg (.loop l) := (check_sound (.loop l)).1
  obtain ⟨-, -, passes⟩ := sound scope require _ _ _ checked ⟨clean, (absurd · Bool.false_ne_true)⟩
  cases passes with
  | judged rule recovers _ =>
    have realizer : t.realizer = (replacement? cfg false t.type).elim _ .primitive := recovers.realizer
    cases rule with
    | mapSucc maps | map maps => cases maps
    | loop _ bounded _ _ zero _ next _ _ _ _ _ =>
      refine ⟨_, _, _, bounded, ⟨_, zero⟩, ⟨_, _, _, next⟩, fun p replaced => ?_, fun kept => ?_⟩
      · rw [realizer, replaced]
        exact ⟨rfl, fun _ _ _ => rfl⟩
      rw [realizer, kept, Option.elim_none]
      refine ⟨rfl, fun env n v₀ => ⟨fun limit same => ?_, fun _ _ _ _ => Realizer.eval_loop,
        fun _ => Realizer.loop_gives, ?_⟩⟩
      · rw [List.range_eq_range']
        exact limit.counts_range' n [] (by rw [same]; exact Nat.zero_add n)
      · intro fuel stop bounded starts
        rw [Realizer.eval_loop bounded starts]
        cases n with
        | zero => rfl
        | succ n =>
          rw [List.range_eq_range', List.range'_succ]
          rfl

def realizer? (cfg : Settings) (scope : Scope) (e : Syntax.Expr) : Option Realizer :=
  match (check cfg scope e none).run {} with
  | .ok (t, notes) => if notes.records.toList.all (!·.isError) then some t.realizer else none
  | .error _ => none

theorem exists_of_realizer? {e : Syntax.Expr} {r : Realizer} (found : realizer? cfg scope e = some r) :
    ∃ t notes, (check cfg scope e none).run {} = .ok (t, notes) ∧
      (∀ r ∈ notes.records, r.isError = false) ∧ t.realizer = r := by
  unfold realizer? at found
  split at found
  next t notes run =>
    split at found
    case isTrue clean =>
      cases found
      refine ⟨t, notes, run, fun r mem => ?_, rfl⟩
      simpa using List.all_eq_true.1 clean r (Array.mem_toList_iff.2 mem)
    case isFalse => cases found
  · cases found

/-- The loop `for (let i = 0; let p: (x: N) => x == x = (x: N) => eqRefl(x); i < 1; i++)
{ const e = excludedMiddle<0 == 0>; continue p; }`. -/
def doubting : Syntax.Loop :=
  let x := .name (written "x")
  let number := .name (written "N")
  let trivial := .binary .equal (.numeral "0" none) (.numeral "0" none) none
  ⟨⟨written "i", none, .numeral "0" none, none⟩,
    ⟨written "p", some (.arrow (written "x") number (.binary .equal x x none) none),
      .lambda (written "x") (some number) none (.call (.name (written "eqRefl")) (.name (written "x")) none) none,
      none⟩,
    written "i", .numeral "1" none, none, written "i", none,
    ⟨[.define ⟨written "e", none, .generic (written "excludedMiddle") trivial none, none⟩,
      .leave .next none (.name (written "p")) none], none⟩, none⟩

theorem doubting_iterates : ∃ t notes, (check {} Axiom.scope (.loop doubting) none).run {} = .ok (t, notes) ∧
    (∀ r ∈ notes.records, r.isError = false) ∧ ∀ env, t.realizer.Gives env (.error .excludedMiddle) ∧
      ∀ stop, t.realizer.eval 2 env (.exhausted stop) = some (.error (.stopped stop)) := by
  obtain ⟨t, notes, run, clean, known⟩ : ∃ t notes, (check {} Axiom.scope (.loop doubting) none).run {} =
      .ok (t, notes) ∧ (∀ r ∈ notes.records, r.isError = false) ∧ t.realizer = .loop (.number 1)
        (.lambda "x" (.apply (.lookup "eqRefl") (.lookup "x"))) "i" "p"
        (.define "e" (.fail .excludedMiddle) (.lookup "p")) :=
    exists_of_realizer? (by rw [Axiom.scope_eq]; decide +kernel)
  refine ⟨t, notes, run, clean, fun env => ?_⟩
  obtain ⟨bound, base, body, -, -, -, -, kept⟩ := loop_iterates run clean
  obtain ⟨same, all⟩ := kept (by simp [replacement?])
  obtain ⟨one, reflexive, -, -, doubt⟩ := Realizer.loop.inj (known.symm.trans same)
  obtain ⟨-, -, live, stopped⟩ := all env 1 (.closure "x" (.apply (.lookup "eqRefl") (.lookup "x")) env)
  rw [← one, ← reflexive, ← doubt] at live
  rw [← one, ← reflexive] at stopped
  refine ⟨live (fun _ _ => .error .excludedMiddle) (.intro 1 fun _ => rfl) (.intro 1 fun _ => rfl) ?_, fun stop => ?_⟩
  · exact fun _ _ _ _ => .intro 2 fun _ => rfl
  · exact stopped 1 stop rfl rfl

/-- With shortcuts the function is taken for what its type says, and nothing is run. -/
theorem doubting_replaced : ∃ t notes,
    (check { shortcuts := true } Axiom.scope (.loop doubting) none).run {} = .ok (t, notes) ∧
    (∀ r ∈ notes.records, r.isError = false) ∧
      ∀ env, t.realizer.Gives env (.ok (.partialApp (.equality 1) [])) := by
  obtain ⟨t, notes, run, clean, known⟩ : ∃ t notes,
      (check { shortcuts := true } Axiom.scope (.loop doubting) none).run {} = .ok (t, notes) ∧
      (∀ r ∈ notes.records, r.isError = false) ∧ t.realizer = .primitive (.equality 1) :=
    exists_of_realizer? (by rw [Axiom.scope_eq]; decide +kernel)
  refine ⟨t, notes, run, clean, fun env => ?_⟩
  rw [known]
  exact .intro 1 fun _ => rfl

end Judgement
end Peano
