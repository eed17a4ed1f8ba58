import Peano.Proofs.Checking.Coupling
namespace Peano.Judgement
open List
open Syntax (Place Jump)

/-- A record without what a logged value is computed by. -/
def Record.outline : Record → Record
  | .log place (.pending ready _ type) => .log place (.pending ready (.fail .noRealizer) type)
  | r => r

/-- Records with the same outlines, but for stretches that are known to belong together. -/
inductive Parallel (Own : List Record → List Record → Prop) : List Record → List Record → Prop
  | nil : Parallel Own [] []
  | record {r r' : Record} {rs rs' : List Record} (same : r.outline = r'.outline)
    (rest : Parallel Own rs rs') : Parallel Own (r :: rs) (r' :: rs')
  | own {s s' rs rs' : List Record} (known : Own s s') (rest : Parallel Own rs rs') :
    Parallel Own (s ++ rs) (s' ++ rs')

namespace Parallel

variable {Own : List Record → List Record → Prop} {rs rs' ss ss' : List Record}

theorem append (h : Parallel Own rs rs') (h' : Parallel Own ss ss') :
    Parallel Own (rs ++ ss) (rs' ++ ss') := by
  induction h with
  | nil => exact h'
  | record same _ ih => exact .record same ih
  | own known _ ih =>
    rw [append_assoc, append_assoc]
    exact .own known ih

theorem outlines (h : Parallel Own rs rs') (none : ∀ s s', ¬ Own s s') :
    rs.map Record.outline = rs'.map Record.outline := by
  induction h with
  | nil => rfl
  | record same _ ih => rw [map_cons, map_cons, same, ih]
  | own known => exact (none _ _ known).elim

end Parallel

section Monad

variable {α β : Type} {Own : List Record → List Record → Prop} {loud : Bool}

/-- What two runs have added to their notes. Only loud ones add definitions of the program. -/
structure Adds (Own : List Record → List Record → Prop) (loud : Bool) (n n' m m' : Notes) : Prop where
  records : ∃ s s', m.records.toList = n.records.toList ++ s ∧
    m'.records.toList = n'.records.toList ++ s' ∧ Parallel Own s s'
  setup : loud = false → m.setup = n.setup ∧ m'.setup = n'.setup

namespace Adds

variable {n n' m m' k k' : Notes}

theorem refl : Adds Own loud n n' n n' :=
  ⟨⟨[], [], (append_nil _).symm, (append_nil _).symm, .nil⟩, fun _ => ⟨rfl, rfl⟩⟩

theorem trans (h : Adds Own loud n n' m m') (h' : Adds Own loud m m' k k') : Adds Own loud n n' k k' := by
  obtain ⟨⟨s, s', first, first', parallel⟩, setup⟩ := h
  obtain ⟨⟨t, t', second, second', parallel'⟩, setup'⟩ := h'
  refine ⟨⟨s ++ t, s' ++ t', ?_, ?_, parallel.append parallel'⟩, fun quiet => ?_⟩
  · rw [second, first, append_assoc]
  · rw [second', first', append_assoc]
  · obtain ⟨same, same'⟩ := setup quiet
    obtain ⟨again, again'⟩ := setup' quiet
    exact ⟨again.trans same, again'.trans same'⟩

end Adds

/-- Where both runs come to something, `R` relates it. -/
def Agree (Own : List Record → List Record → Prop) (loud : Bool) (R : α → α → Prop) (x y : Noting α) : Prop :=
  ∀ n n' a a' m m', x.run n = .ok (a, m) → y.run n' = .ok (a', m') → R a a' ∧ Adds Own loud n n' m m'

theorem run_bind_eq_ok {x : Noting α} {f : α → Noting β} {n m : Notes} {b : β} :
    (x >>= f).run n = .ok (b, m) ↔ ∃ a k, x.run n = .ok (a, k) ∧ (f a).run k = .ok (b, m) := by
  rw [StateT.run_bind]
  cases x.run n with
  | error why => exact ⟨nofun, nofun⟩
  | ok r =>
    constructor
    · intro run
      exact ⟨r.1, r.2, rfl, run⟩
    · rintro ⟨a, k, ⟨⟩, run⟩
      exact run

namespace Agree

theorem louder {R : α → α → Prop} {x y : Noting α} (h : Agree Own false R x y) : Agree Own loud R x y := by
  intro n n' a a' m m' run run'
  obtain ⟨hR, records, setup⟩ := h n n' a a' m m' run run'
  exact ⟨hR, records, fun _ => setup rfl⟩

theorem pure {R : α → α → Prop} {a a' : α} (h : R a a') : Agree Own loud R (pure a) (pure a') := by
  rintro n n' _ _ _ _ ⟨⟩ ⟨⟩
  exact ⟨h, .refl⟩

theorem bind {R : α → α → Prop} {S : β → β → Prop} {x y : Noting α} {f g : α → Noting β}
    (hx : Agree Own loud R x y) (hf : ∀ a a', R a a' → Agree Own loud S (f a) (g a')) :
    Agree Own loud S (x >>= f) (y >>= g) := by
  intro n n' b b' m m' run run'
  obtain ⟨a, k, first, second⟩ := run_bind_eq_ok.1 run
  obtain ⟨a', k', first', second'⟩ := run_bind_eq_ok.1 run'
  obtain ⟨hR, adds⟩ := hx n n' a a' k k' first first'
  obtain ⟨hS, adds'⟩ := hf a a' hR k k' b b' m m' second second'
  exact ⟨hS, adds.trans adds'⟩

theorem compared (outcome : Except Formula.Incomparable α) :
    Agree Own loud Eq (compared outcome) (compared outcome) := by
  intro n n' a a' m m' run run'
  cases outcome with
  | error why => cases run
  | ok b =>
    cases run
    cases run'
    exact ⟨rfl, .refl⟩

theorem note {r r' : Record} (same : r.outline = r'.outline) : Agree Own loud Eq (note r) (note r') := by
  rintro n n' a a' m m' ⟨⟩ ⟨⟩
  refine ⟨rfl, ⟨[r], [r'], Array.toList_push, Array.toList_push, .record same .nil⟩, fun _ => ⟨rfl, rfl⟩⟩

theorem modify {f : Notes → Notes} (records : ∀ n, (f n).records = n.records)
    (setup : ∀ n, (f n).setup = n.setup) : Agree Own loud Eq (modify f) (modify f) := by
  rintro n n' a a' m m' ⟨⟩ ⟨⟩
  refine ⟨rfl, ⟨[], [], ?_, ?_, .nil⟩, fun _ => ⟨setup n, setup n'⟩⟩
  · rw [records n, append_nil]
  · rw [records n', append_nil]

theorem define {b b' : Binding} : Agree Own true Eq
    (StateT.modifyGet fun n => ((), { n with setup := n.setup.push b }))
    (StateT.modifyGet fun n => ((), { n with setup := n.setup.push b' })) := by
  rintro n n' a a' m m' ⟨⟩ ⟨⟩
  exact ⟨rfl, ⟨[], [], (append_nil _).symm, (append_nil _).symm, .nil⟩, nofun⟩

end Agree

/-- The second check is of the same tree, but for parts that are exchanged. -/
def agreement (Own : List Record → List Record → Prop) : Coupling where
  blurs := false
  Exact := False
  Turns _ _ jump jump' := jump' = jump
  Rel loud _ R x y := Agree Own loud R x y
  more := id
  louder := Agree.louder
  given := Agree.pure
  chain := Agree.bind
  compares := Agree.compared
  notes paired := by cases paired <;> exact .note rfl
  modifies setup apart := .modify (fun n => (congrArg Notes.records (apart n n.records) :)) setup
  defines _ := .define
  leaves := by
    rintro α loud L R k k' place ending jump _ rfl hk
    split
    · exact (Agree.note rfl).bind fun _ _ _ => hk
    · exact hk

end Monad

end Peano.Judgement
