import Peano.Proofs.Checking.Coupling
namespace Peano.Judgement
open Syntax (Place Jump Correction)

namespace Record

variable {place : Place}
def repair? : Record → Option Repair
  | .error place (.wrongEnding wanted _) fix => some (place, wanted, fix)
  | _ => none

/-- The same for every record that proposes a text, whatever is wanted there. -/
def proposal? : Record → Option Repair
  | .error place (.wrongEnding wanted _) fix => some (place, wanted, fix)
  | .error place _ (some text) => some (place, .value, some text)
  | _ => none

/-- A record without its place. Complaints about statements that a correction changes are gone. -/
def blurred? (κ : Correction) : Record → Option Record
  | .error place e fix =>
    if e.isEnding && (κ place).isSome then none else some (.error none e fix)
  | .defined _ name type => some (.defined none name type)
  | .hover _ type => some (.hover none type)
  | .required _ type ending => some (.required none type ending)
  | .log _ l => some (.log none l)

theorem blurred?_error {κ : Correction} {e : Error} {fix : Option String} (h : e.isEnding = false) :
    blurred? κ (.error place e fix) = some (.error none e fix) := by
  rw [blurred?, h]
  rfl

theorem repair?_error {e : Error} {fix : Option String} (h : e.isEnding = false) :
    repair? (.error place e fix) = none := by
  cases e <;> first | rfl | cases h

theorem proposal?_error {e : Error} (h : e.isEnding = false) : proposal? (.error place e none) = none := by
  cases e <;> first | rfl | cases h

end Record

namespace Notes
open Record (Repair)

def proposals (n : Notes) : Multiset Repair := n.records.toList.filterMap Record.proposal?

def blurred (κ : Correction) (n : Notes) : Notes :=
  { n with records := (n.records.toList.filterMap (Record.blurred? κ)).toArray }

def add (n : Notes) (r : Record) : Notes := { n with records := n.records.push r }

variable {κ : Correction} {n : Notes} {r r' : Record}

theorem blurred_add (kept : r.blurred? κ = some r') : (n.add r).blurred κ = (n.blurred κ).add r' := by
  simp [blurred, add, kept]

theorem blurred_add_none (gone : r.blurred? κ = none) : (n.add r).blurred κ = n.blurred κ := by
  simp [blurred, add, gone]

theorem proposals_add (fine : r.proposal? = none) : (n.add r).proposals = n.proposals := by
  simp [proposals, add, fine]

theorem proposals_add_some {p : Repair} (wrong : r.proposal? = some p) :
    (n.add r).proposals = n.proposals + {p} := by
  simp [proposals, add, wrong, ← Multiset.coe_add]

end Notes

open Record (Repair)

section Monad

variable {α β : Type} {κ : Correction} {L M : Multiset Repair} {R : α → α → Prop} {S : β → β → Prop}

/-- `y` does with blurred notes what `x` does with the notes themselves. `R` relates what they come
to, and what `x` adds proposes only repairs of the budget. -/
def Tracks (κ : Correction) (budget : Multiset Repair) (R : α → α → Prop) (x y : Noting α) : Prop :=
  ∀ n, match x.run n with
    | .error why => y.run (n.blurred κ) = .error why
    | .ok (a, m) => ∃ a', R a a' ∧ y.run (n.blurred κ) = .ok (a', m.blurred κ) ∧
      ∃ spent ≤ budget, m.proposals = n.proposals + spent

namespace Tracks

variable {x k k' : Noting α}

theorem more {x y : Noting α} (h : Tracks κ L R x y) : Tracks κ (L + M) R x y := by
  intro n
  have hn := h n
  split at hn
  · exact hn
  · obtain ⟨a', hR, run, spent, within, repairs⟩ := hn
    exact ⟨a', hR, run, spent, within.trans (Multiset.le_add_right L M), repairs⟩

theorem pure {a a' : α} (h : R a a') : Tracks κ L R (pure a) (pure a') := by
  intro n
  exact ⟨a', h, rfl, 0, Multiset.zero_le L, (add_zero _).symm⟩

theorem bind {y : Noting α} {f g : α → Noting β} (hx : Tracks κ L R x y)
    (hf : ∀ a a', R a a' → Tracks κ M S (f a) (g a')) : Tracks κ (L + M) S (x >>= f) (y >>= g) := by
  intro n
  have first := hx n
  rw [StateT.run_bind, StateT.run_bind]
  cases run : x.run n with
  | error why =>
    rw [run] at first
    rw [first]
    rfl
  | ok r =>
    obtain ⟨a, m⟩ := r
    rw [run] at first
    obtain ⟨a', hR, tracked, spent, within, repairs⟩ := first
    have second := hf a a' hR m
    rw [tracked]
    dsimp only [Bind.bind, Except.bind]
    cases run' : (f a).run m with
    | error why =>
      rw [run'] at second
      exact second
    | ok r =>
      rw [run'] at second
      obtain ⟨b', hS, tracked', spent', within', repairs'⟩ := second
      refine ⟨b', hS, tracked', spent + spent', add_le_add within within', ?_⟩
      rw [repairs', repairs, add_assoc]

theorem compared (outcome : Except Formula.Incomparable α) :
    Tracks κ 0 Eq (compared outcome) (compared outcome) := by
  intro n
  cases outcome with
  | error why => rfl
  | ok a => exact ⟨a, rfl, rfl, 0, le_rfl, (add_zero _).symm⟩

theorem note {r r' : Record} (kept : r.blurred? κ = some r') (fine : r.proposal? = none) :
    Tracks κ 0 Eq (note r) (note r') := by
  intro n
  refine ⟨(), rfl, ?_, 0, le_rfl, ?_⟩
  · exact congrArg (fun m => Except.ok ((), m)) (Notes.blurred_add kept).symm
  · exact (Notes.proposals_add fine).trans (add_zero _).symm

theorem modify {f : Notes → Notes} (apart : ∀ n records, f { n with records } = { f n with records }) :
    Tracks κ 0 Eq (modify f) (modify f) := by
  intro n
  have same := congrArg Notes.records (apart n n.records)
  dsimp only at same
  refine ⟨(), rfl, ?_, 0, le_rfl, ?_⟩
  · refine congrArg (fun m => Except.ok ((), m)) ((apart n _).trans ?_)
    rw [Notes.blurred, same]
  · rw [add_zero, Notes.proposals, same, ← Notes.proposals]

/-- A complaint about a statement, which may be there without its place or not at all. -/
theorem repair {r : Record} {p : Repair} (wrong : r.proposal? = some p)
    (same : ∀ n : Notes, x.run (n.blurred κ) = k'.run ((n.add r).blurred κ)) (hk : Tracks κ L R k k') :
    Tracks κ ({p} + L) R (do Judgement.note r; k) x := by
  intro n
  have rest := hk (n.add r)
  rw [← same] at rest
  have first : (do Judgement.note r; k : Noting α).run n = k.run (n.add r) := rfl
  rw [first]
  cases run : k.run (n.add r) with
  | error why =>
    rw [run] at rest
    exact rest
  | ok result =>
    rw [run] at rest
    obtain ⟨a', hR, run, spent, within, repairs⟩ := rest
    refine ⟨a', hR, run, {p} + spent, add_le_add le_rfl within, ?_⟩
    rw [repairs, Notes.proposals_add_some wrong, add_assoc]

/-- A statement is complained about unless it has been corrected. -/
theorem leave {ending jump : Jump} {place : Place} (suits : ∀ j, κ place = some j → j = ending)
    (hk : Tracks κ L R k k') : Tracks κ ({(place, .jump ending, some ending.text)} + L) R (do
        if jump ≠ ending then
          Judgement.note (.error place (.wrongEnding (.jump ending) (.jump jump)) (some ending.text))
        k) (do
        if (κ place).getD jump ≠ ending then
          Judgement.note (.error none (.wrongEnding (.jump ending) (.jump ((κ place).getD jump)))
            (some ending.text))
        k') := by
  have idle : Tracks κ ({(place, .jump ending, some ending.text)} + L) R k k' := by
    rw [add_comm]
    exact hk.more
  cases h : κ place with
  | none =>
    rw [Option.getD_none]
    split
    · refine repair rfl (fun n => ?_) hk
      have kept : Record.blurred? κ (.error place (.wrongEnding (.jump ending) (.jump jump))
          (some ending.text)) = some (.error none (.wrongEnding (.jump ending) (.jump jump))
            (some ending.text)) := by
        rw [Record.blurred?, h]
        rfl
      rw [Notes.blurred_add kept]
      rfl
    · exact idle
  | some j =>
    rw [Option.getD_some, if_neg (not_not_intro (suits j h))]
    split
    · refine repair rfl (fun n => ?_) hk
      have gone : Record.blurred? κ (.error place (.wrongEnding (.jump ending) (.jump jump))
          (some ending.text)) = none := by
        rw [Record.blurred?, h]
        rfl
      rw [Notes.blurred_add_none gone]
    · exact idle

end Tracks

/-- The second check is of the tree without places and corrected. -/
def tracking (κ : Correction) : Coupling where
  blurs := true
  Exact := True
  Turns place ending jump jump' := jump' = (κ place).getD jump ∧ ∀ j, κ place = some j → j = ending
  Rel _ budget R x y := Tracks κ budget R x y
  more := Tracks.more
  louder := id
  given := Tracks.pure
  chain := Tracks.bind
  compares := Tracks.compared
  notes paired := by
    cases paired with
    | error place fair => exact .note (Record.blurred?_error fair) (Record.proposal?_error fair)
    | pending place ready t like =>
      cases like trivial
      exact .note rfl rfl
    | _ => exact .note rfl rfl
  modifies _ apart := .modify apart
  defines same := by
    cases same trivial
    exact .modify fun _ _ => rfl
  leaves := by
    rintro α loud L R k k' place ending jump _ ⟨rfl, suits⟩ hk
    exact .leave suits hk

end Monad

end Peano.Judgement
