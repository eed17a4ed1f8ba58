import Peano.Proofs.Soundness
namespace Peano

namespace Formula

/-- Whether this is an equation that is meant exactly, not up to the laws of rings. -/
def isExact : Formula → Bool
  | .eq .. => true
  | _ => false

/-- Whether the sides of an equation can be computed with as polynomials. -/
def reckonableSides (t : Formula) : Bool :=
  match sides? t with
  | some (l, r) => l.reckonable && r.reckonable
  | none => true

end Formula

namespace Judgement
open Formula (sides?)
open Syntax (Expr Name Place)

variable {cfg : Settings} {scope : Scope} {require : Option Formula}

/-- Some check of the term comes to `t`, without an error. -/
def ChecksTo (cfg : Settings) (scope : Scope) (e : Expr) (require : Option Formula) (t : Typed) : Prop :=
  ∃ n m, (check cfg scope e require).run n = .ok (t, m) ∧ m.Clean false

theorem check_yields (e : Expr) (require : Option Formula) : Yields false (check cfg scope e require) fun t =>
      ChecksTo cfg scope e require t ∧ require.getD t.type = t.type := by
  intro n t m run clean
  obtain ⟨before, same, passes⟩ := (check_sound e).1 scope require n t m run clean
  exact ⟨before, same, ⟨n, m, run, clean⟩, passes.type_eq⟩

/-- A chain that is checked without an error has been made in one of the two ways, and meets what is
required of it. -/
theorem exists_chained {x a : Expr} {field : Name} {q p : Place} {e : Elaborated}
    (named : field.text = "trans")
    (run : elaborateTerm cfg scope (.call (.member x field q) a p) require = .ok e)
    (clean : e.hasErrors = false) : ∃ inferred, Recovers cfg false require inferred e.typed ∧
      Chained require (ChecksTo cfg scope x none)
        (fun expected t => ChecksTo cfg scope a expected t ∧ expected.getD t.type = t.type) inferred := by
  have rule : Checking.Yields false (transRule require (check cfg scope x none) (some (check cfg scope a)))
      (Chained require (ChecksTo cfg scope x none)
        fun expected t => ChecksTo cfg scope a expected t ∧ expected.getD t.type = t.type) :=
    transRule_yields ((check_yields x none).mono fun _ found => found.1) fun expected => check_yields a expected
  unfold elaborateTerm at run
  cases checked : (check cfg scope (.call (.member x field q) a p) require).run {} with
  | error why => rw [checked] at run; cases run
  | ok found =>
    rw [checked] at run
    cases run
    have noErrors : found.2.Clean false := by
      refine ⟨fun record mem => ?_, by simp⟩
      simpa using List.any_eq_false.1 clean record (Array.mem_toList_iff.2 mem)
    rw [check] at checked
    simp only [named] at checked
    obtain ⟨-, inferred, ⟨-, chained⟩, recovers⟩ :=
      recover_leads (note_then rule) {} found.1 found.2 checked noErrors
    exact ⟨inferred, recovers, chained⟩

/-- From `l == r` and `second` comes `t`, which relates `b` to `c`. -/
structure Chains (l r second t b c : Formula) : Prop where
  argument : (sides? second).isSome = true
  sides : sides? t = some (b, c)
  /-- Exact equations make a chain that starts where the first of them does. -/
  start : second.isExact = true → t.isExact = true → b = l ∨ Fits l b
  /-- A chain up to the laws of rings is made only if it starts somewhere else. -/
  unstarted : second.isExact = false → t.isExact = true ∧ Formula.equal b l = .ok false
  /-- Its end is what follows from the two equations, so all depends on its start. -/
  holds : l.anyFree = true → r.anyFree = true → second.anyFree = true →
    second.isExact = true ∧ t.isExact = true ∨
      (∀ s ∈ [.eq l r, second, t], s.reckonableSides = true) →
    ∀ ρ, l.value ρ = r.value ρ → second.Holds ρ →
      if second.isExact then t.Holds ρ else (t.Holds ρ ↔ b.value ρ = l.value ρ)

/-- What an equation may stand for: another one with the same sides, or one up to the laws of rings. -/
theorem fits_equation {l r t : Formula} (fits : Fits (.eq l r) t) (known : t.anyFree) :
    (∃ b c, t = .eq b c ∧ Fits l b ∧ Fits r c) ∨ ∃ b c, t = .rung b c := by
  cases t with
  | eq b c =>
    have both : Formula.bothEqual (Formula.equal l b) (fun _ => Formula.equal r c) = .ok true := fits
    exact .inl ⟨b, c, rfl, Formula.bothEqual_ok both⟩
  | rung b c => exact .inr ⟨b, c, rfl⟩
  | any => cases known
  | _ => cases fits

/-- An equation that may stand for one up to the laws of rings says the same. -/
theorem fits_rung {l r b c : Formula} (fits : Fits (.eq l r) (.rung b c))
    (free : (Formula.eq l r).anyFree) (free' : (Formula.rung b c).anyFree)
    (left : l.reckonable ∧ r.reckonable) (right : b.reckonable ∧ c.reckonable)
    (ρ : String → Nat) : l.value ρ = r.value ρ ↔ b.value ρ = c.value ρ := by
  have aligned : (Formula.eq l r).aligned (.rung b c) := by
    simp only [Formula.aligned, Formula.comparable, left, right, Bool.and_self]
  exact (Formula.alike_of_equal fits free free').holds_iff aligned ρ

section Ways

variable {l r l' r' : Formula}

theorem chains_of_equation {w : Realizer} {final : Typed} (known : ∀ t, require = some t → t.anyFree)
    (meets : Fits r l') (recovers : Recovers cfg false require ⟨.eq l r', w⟩ final) :
    ∃ b c, Chains l r (.eq l' r') final.type b c := by
  -- the two equations make `l == r'`, whatever is required
  have chain (hr : r.anyFree) (hs : (Formula.eq l' r').anyFree) {ρ : String → Nat}
      (first : l.value ρ = r.value ρ) (second : (Formula.eq l' r').Holds ρ) : l.value ρ = r'.value ρ :=
    first.trans ((meets.value_eq hr (both_anyFree hs).1 ρ).trans second)
  rw [recovers.type]
  cases require with
  | none =>
    exact ⟨l, r', rfl, rfl, fun _ _ => .inl rfl, nofun, fun _ hr hs _ _ first second => chain hr hs first second⟩
  | some t =>
    obtain ⟨b, c, rfl, left, right⟩ | ⟨b, c, rfl⟩ := fits_equation (recovers.fits t rfl) (known t rfl)
    · refine ⟨b, c, rfl, rfl, fun _ _ => .inr left, nofun, fun hl hr hs _ ρ first second => ?_⟩
      have known := both_anyFree (known _ rfl)
      calc b.value ρ
        _ = l.value ρ := (left.value_eq hl known.1 ρ).symm
        _ = r'.value ρ := chain hr hs first second
        _ = c.value ρ := right.value_eq (both_anyFree hs).2 known.2 ρ
    · refine ⟨b, c, rfl, rfl, nofun, nofun, fun hl hr hs exact ρ first second => ?_⟩
      obtain ⟨-, ⟨⟩⟩ | reckonable := exact
      simp only [List.forall_mem_cons, Formula.reckonableSides, Option.getD_some, sides?,
        Bool.and_eq_true] at reckonable
      obtain ⟨first', second', required, -⟩ := reckonable
      have free : (Formula.eq l r').anyFree := Bool.and_eq_true_iff.2 ⟨hl, (both_anyFree hs).2⟩
      exact (fits_rung (recovers.fits _ rfl) free (known _ rfl) ⟨first'.1, second'.2⟩ required ρ).1
        (chain hr hs first second)

theorem chains_of_rung {b c : Formula} {expected : Option Formula} (known : (Formula.eq b c).anyFree)
    (expects : TransExpects (some (.eq b c)) l r expected)
    (unexpected : expected.getD (.rung l' r') = .rung l' r') (meets : Fits (.eq r c) (.rung l' r')) :
    Chains l r (.rung l' r') (.eq b c) b c := by
  refine ⟨rfl, rfl, nofun, fun _ => ⟨rfl, ?_⟩, fun hl hr hs exact ρ first second => ?_⟩
  · -- what is expected of the argument becomes its type, and that would be an exact equation
    obtain ⟨-, rfl⟩ | ⟨other, -⟩ := expects
    · cases unexpected
    · exact other
  · obtain ⟨⟨⟩, -⟩ | reckonable := exact
    simp only [List.forall_mem_cons, Formula.reckonableSides, sides?, Bool.and_eq_true] at reckonable
    obtain ⟨first', second', required, -⟩ := reckonable
    have free : (Formula.eq r c).anyFree := Bool.and_eq_true_iff.2 ⟨hr, (both_anyFree known).2⟩
    have ending : l.value ρ = c.value ρ :=
      first.trans ((fits_rung meets free hs ⟨first'.2, required.2⟩ second' ρ).2 second)
    show b.value ρ = c.value ρ ↔ b.value ρ = l.value ρ
    rw [ending]

end Ways

/-- A chain that is checked without an error relates what its parts do. With an exact equation as its
argument it is true where both parts are; with one up to the laws of rings it is if it starts with the
number the first one starts with, and this is not checked. -/
theorem trans_sound {x a : Expr} {field : Name} {q p : Place} {e : Elaborated} (named : field.text = "trans")
    (run : elaborateTerm cfg scope (.call (.member x field q) a p) require = .ok e)
    (clean : e.hasErrors = false) (known : ∀ t, require = some t → t.anyFree = true) :
    ∃ u v expected l r b c, ChecksTo cfg scope x none u ∧ u.type = .eq l r ∧
      TransExpects require l r expected ∧ ChecksTo cfg scope a expected v ∧
      Chains l r v.type e.typed.type b c := by
  obtain ⟨inferred, recovers, chained⟩ := exists_chained named run clean
  cases chained with
  | @equation u v expected l r l' r' first equation expects second equation' meets =>
    obtain ⟨b, c, chains⟩ := chains_of_equation known meets recovers
    exact ⟨u, v, expected, l, r, b, c, first, equation, expects, second.1, by rwa [equation']⟩
  | @rung u v expected l r l' r' b c first equation expects second rung required meets =>
    subst required
    have chains := chains_of_rung (known _ rfl) expects (by rw [← rung]; exact second.2) meets
    exact ⟨u, v, expected, l, r, b, c, first, equation, expects, second.1, by rwa [rung, recovers.type]⟩

def checkedType? (scope : Scope) (e : Expr) (require : Option Formula) : Option Formula :=
  match elaborateTerm {} scope e require with
  | .ok found => if found.hasErrors then none else some found.typed.type
  | .error _ => none

theorem exists_of_checkedType? {e : Expr} {t : Formula} (h : checkedType? scope e require = some t) :
    ∃ found, elaborateTerm {} scope e require = .ok found ∧ found.hasErrors = false ∧ found.typed.type = t := by
  unfold checkedType? at h
  split at h
  next found run =>
    split at h
    case isTrue => cases h
    case isFalse clean =>
      cases h
      exact ⟨found, run, by simpa using clean, rfl⟩
  · cases h

/-- `h` proves that `n` is zero. -/
def zeroKnown : Scope := [("h", .proof (.eq (.var "n") .zero)), ("n", .arithmetic (.var "n"))]

def byRing : Expr := .emptyCall (.name (written "ring")) none

def ringChain (e : Expr) : Expr := .call (.member e (written "trans") none) byRing none

/-- From `n == 0`, by the laws of rings, `n == 0 * n`. -/
theorem ringChain_sound : (written "trans").text = "trans" ∧
    ∃ e, elaborateTerm {} zeroKnown (ringChain (.name (written "h")))
        (some (.eq (.var "n") (.mul .zero (.var "n")))) = .ok e ∧
      e.hasErrors = false ∧ (Formula.eq (.var "n") (.mul .zero (.var "n"))).anyFree = true ∧
      ∃ u v expected l r b c, ChecksTo {} zeroKnown (.name (written "h")) none u ∧ u.type = .eq l r ∧
        TransExpects (some (.eq (.var "n") (.mul .zero (.var "n")))) l r expected ∧
        ChecksTo {} zeroKnown byRing expected v ∧ Chains l r v.type e.typed.type b c := by
  obtain ⟨e, run, clean, -⟩ : ∃ e, elaborateTerm {} zeroKnown (ringChain (.name (written "h")))
      (some (.eq (.var "n") (.mul .zero (.var "n")))) = .ok e ∧ e.hasErrors = false ∧
        e.typed.type = .eq (.var "n") (.mul .zero (.var "n")) :=
    exists_of_checkedType? (by decide +kernel)
  exact ⟨rfl, e, run, clean, rfl, trans_sound rfl run clean (by rintro t ⟨⟩; rfl)⟩

def oneIsOne : Expr := .call (.name (written "eqRefl")) (.numeral "1" none) none

/-- From the truths `1 == 1` and, up to the laws of rings, `0 == 0`, the falsehood `0 == 1`. -/
theorem ringChain_false : ∃ e first second,
    elaborateTerm {} Axiom.scope (ringChain oneIsOne) (some (.eq .zero (.succ .zero))) = .ok e ∧
    elaborateTerm {} Axiom.scope oneIsOne none = .ok first ∧
    elaborateTerm {} Axiom.scope byRing none = .ok second ∧
    e.hasErrors = false ∧ first.hasErrors = false ∧ second.hasErrors = false ∧
    first.typed.type = .eq (.succ .zero) (.succ .zero) ∧ second.typed.type = .rung .zero .zero ∧
    ∀ ρ, first.typed.type.Holds ρ ∧ second.typed.type.Holds ρ ∧ ¬ e.typed.type.Holds ρ := by
  have chain : checkedType? Axiom.scope (ringChain oneIsOne) (some (.eq .zero (.succ .zero))) =
      some (.eq .zero (.succ .zero)) := by rw [Axiom.scope_eq]; decide +kernel
  have receiver : checkedType? Axiom.scope oneIsOne none = some (.eq (.succ .zero) (.succ .zero)) := by
    rw [Axiom.scope_eq]; decide +kernel
  have argument : checkedType? Axiom.scope byRing none = some (.rung .zero .zero) := by
    rw [Axiom.scope_eq]; decide +kernel
  obtain ⟨e, run, clean, type⟩ := exists_of_checkedType? chain
  obtain ⟨first, run₁, clean₁, type₁⟩ := exists_of_checkedType? receiver
  obtain ⟨second, run₂, clean₂, type₂⟩ := exists_of_checkedType? argument
  refine ⟨e, first, second, run, run₁, run₂, clean, clean₁, clean₂, type₁, type₂, fun ρ => ?_⟩
  rw [type, type₁, type₂]
  exact ⟨rfl, rfl, nofun⟩

end Judgement
end Peano
