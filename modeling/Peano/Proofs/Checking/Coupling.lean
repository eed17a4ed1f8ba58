import Mathlib.Algebra.Order.Group.Multiset
import Peano.Judgement.Elaboration
import Peano.Proofs.Syntax.Corrected
namespace Peano.Judgement
open Syntax (Name Place TypeExpr Jump)

def Error.isEnding : Error → Bool
  | .wrongEnding .. => true
  | _ => false

/-- A statement of the wrong kind: where its keyword is, what is wanted there, and the proposed text. -/
abbrev Record.Repair := Place × Ending × Option String

open Record (Repair)

/-- What the second check sees of something, if it has no places. -/
def seen {α : Type} (blurs : Bool) (bare : α → α) (a : α) : α := bif blurs then bare a else a

/-- Two records that say the same. -/
inductive Record.Paired (blurs : Bool) (Exact : Prop) : Record → Record → Prop
  | error {e : Error} (place : Place) (fair : e.isEnding = false) :
    Paired blurs Exact (.error place e none) (.error (seen blurs (fun _ => none) place) e none)
  | defined (place : Place) (x : String) (t : Formula) :
    Paired blurs Exact (.defined place x t) (.defined (seen blurs (fun _ => none) place) x t)
  | hover (place : Place) (t : Formula) :
    Paired blurs Exact (.hover place t) (.hover (seen blurs (fun _ => none) place) t)
  | required (place : Place) (t : Option Formula) (ending : Ending) :
    Paired blurs Exact (.required place t ending) (.required (seen blurs (fun _ => none) place) t ending)
  | misplaced (place : Place) :
    Paired blurs Exact (.log place .misplaced) (.log (seen blurs (fun _ => none) place) .misplaced)
  | pending (place : Place) (ready : Nat) (t : Formula) {r r' : Realizer} (like : Exact → r = r') :
    Paired blurs Exact (.log place (.pending ready r t))
      (.log (seen blurs (fun _ => none) place) (.pending ready r' t))

structure Coupling where
  /-- The second check has no places. -/
  blurs : Bool
  Exact : Prop
  /-- A statement that hands over a value, by its place, what is wanted there, and its kinds. -/
  Turns (place : Place) (ending jump jump' : Jump) : Prop
  /-- The runs go together, and `R` relates what they come to. Only loud ones add definitions of the
  program, and what is proposed is in the budget. -/
  Rel {α : Type} (loud : Bool) (budget : Multiset Repair) (R : α → α → Prop) (x y : Noting α) : Prop
  more {α : Type} {loud : Bool} {L M : Multiset Repair} {R : α → α → Prop} {x y : Noting α} :
    Rel loud L R x y → Rel loud (L + M) R x y
  louder {α : Type} {loud : Bool} {L : Multiset Repair} {R : α → α → Prop} {x y : Noting α} :
    Rel false L R x y → Rel loud L R x y
  given {α : Type} {loud : Bool} {L : Multiset Repair} {R : α → α → Prop} {a a' : α} :
    R a a' → Rel loud L R (pure a) (pure a')
  chain {α β : Type} {loud : Bool} {L M : Multiset Repair} {R : α → α → Prop} {S : β → β → Prop}
    {x y : Noting α} {f g : α → Noting β} : Rel loud L R x y →
    (∀ a a', R a a' → Rel loud M S (f a) (g a')) → Rel loud (L + M) S (x >>= f) (y >>= g)
  compares {α : Type} (outcome : Except Formula.Incomparable α) :
    Rel false 0 Eq (compared outcome) (compared outcome)
  notes {r r' : Record} : r.Paired blurs Exact r' → Rel false 0 Eq (note r) (note r')
  /-- What is not records and not definitions may change. -/
  modifies {f : Notes → Notes} : (∀ n, (f n).setup = n.setup) →
    (∀ n records, f { n with records } = { f n with records }) → Rel false 0 Eq (modify f) (modify f)
  defines {b b' : Binding} : (Exact → b = b') → Rel true 0 Eq
    (StateT.modifyGet fun n => ((), { n with setup := n.setup.push b }))
    (StateT.modifyGet fun n => ((), { n with setup := n.setup.push b' }))
  leaves {α : Type} {loud : Bool} {L : Multiset Repair} {R : α → α → Prop} {k k' : Noting α}
    {place : Place} {ending jump jump' : Jump} : Turns place ending jump jump' → Rel loud L R k k' →
    Rel loud ({(place, .jump ending, some ending.text)} + L) R (do
        if jump ≠ ending then
          note (.error place (.wrongEnding (.jump ending) (.jump jump)) (some ending.text))
        k) (do
        if jump' ≠ ending then
          note (.error (seen blurs (fun _ => none) place) (.wrongEnding (.jump ending) (.jump jump'))
            (some ending.text))
        k')

namespace Coupling

variable {C : Coupling} {α β : Type} {loud : Bool} {L M : Multiset Repair}

abbrev place (C : Coupling) : Place → Place := seen C.blurs fun _ => none

abbrev name (C : Coupling) : Name → Name := seen C.blurs Name.bare

abbrev type (C : Coupling) : TypeExpr → TypeExpr := seen C.blurs TypeExpr.bare

abbrev type? (C : Coupling) : Option TypeExpr → Option TypeExpr := seen C.blurs (Option.map TypeExpr.bare)

theorem name_text (x : Name) : (C.name x).text = x.text := by
  unfold name seen
  cases C.blurs <;> rfl

theorem name_place (x : Name) : (C.name x).place = C.place x.place := by
  unfold name place seen
  cases C.blurs <;> rfl

/-- Terms of the same type, which compute the same if they have to. -/
def Same (C : Coupling) (t t' : Typed) : Prop := t.type = t'.type ∧ (C.Exact → t.realizer = t'.realizer)

/-- A term that both check, and one that they check with whatever is required of it. -/
abbrev Premise (C : Coupling) (L : Multiset Repair) : Noting Typed → Noting Typed → Prop :=
  C.Rel false L C.Same

abbrev Premises (C : Coupling) (L : Multiset Repair) (x y : Option Formula → Noting Typed) : Prop :=
  ∀ require, C.Premise L (x require) (y require)

namespace Rel

variable {R : α → α → Prop} {S : β → β → Prop} {x y : Noting α} {f g : α → Noting β}

theorem pure {a a' : α} (h : R a a') : C.Rel loud L R (pure a) (pure a') := C.given h

theorem bind (hx : C.Rel loud L R x y) (hf : ∀ a a', R a a' → C.Rel loud M S (f a) (g a')) :
    C.Rel loud (L + M) S (x >>= f) (y >>= g) :=
  C.chain hx hf

/-- What comes last proposes nothing. -/
theorem before (hx : C.Rel loud L R x y) (hf : ∀ a a', R a a' → C.Rel loud 0 S (f a) (g a')) :
    C.Rel loud L S (x >>= f) (y >>= g) := by
  have whole := hx.bind hf
  rwa [add_zero] at whole

/-- The first part comes to the same, and proposes nothing. -/
theorem after (hx : C.Rel false 0 Eq x y) (hf : ∀ a, C.Rel loud M S (f a) (g a)) :
    C.Rel loud M S (x >>= f) (y >>= g) := by
  have whole : C.Rel loud (0 + M) S (x >>= f) (y >>= g) := by
    refine (C.louder hx).bind ?_
    rintro a _ rfl
    exact hf a
  rwa [zero_add] at whole

theorem map {h : α → β} (hx : C.Rel loud L R x y) (hRS : ∀ a a', R a a' → S (h a) (h a')) :
    C.Rel loud L S (h <$> x) (h <$> y) := by
  exact hx.before fun a a' ha => pure (hRS a a' ha)

theorem report {e : Error} (place : Place) (fair : e.isEnding = false) :
    C.Rel false 0 Eq (report place e) (report (C.place place) e) :=
  C.notes (.error place fair)

end Rel

/-- The same error, which is not about the kind of a statement, or results that `R` relates. -/
def Outcome (R : α → α → Prop) : Except Error α → Except Error α → Prop
  | .error e, .error e' => e = e' ∧ e.isEnding = false
  | .ok a, .ok a' => R a a'
  | _, _ => False

/-- The same for checks that may fail. -/
def Checks (C : Coupling) (L : Multiset Repair) (R : α → α → Prop) (x y : Checking α) : Prop :=
  C.Rel false L (Outcome R) x.run y.run

namespace Checks

variable {R : α → α → Prop} {S : β → β → Prop} {f g : α → Checking β}
variable {k k' : Unit → Checking β}

theorem pure {a a' : α} (h : R a a') : C.Checks L R (pure a : Checking α) (pure a') :=
  Rel.pure h

theorem equal {t : Typed} : C.Checks L C.Same (Pure.pure t) (Pure.pure t) := pure ⟨rfl, fun _ => rfl⟩

theorem throw {e : Error} (fair : e.isEnding = false) : C.Checks L R (throw e : Checking α) (throw e) := by
  have same : Outcome R (.error e) (.error e) := ⟨rfl, fair⟩
  exact Rel.pure same

theorem lift {x y : Noting α} (h : C.Rel false L R x y) : C.Checks L R (liftM x : Checking α) (liftM y) :=
  Rel.map (h := Except.ok) h fun _ _ => id

theorem bind {x y : Checking α} (hx : C.Checks L R x y)
    (hf : ∀ a a', R a a' → C.Checks M S (f a) (g a')) : C.Checks (L + M) S (x >>= f) (y >>= g) := by
  refine Rel.bind (f := ExceptT.bindCont f) (g := ExceptT.bindCont g) hx ?_
  rintro (e | a) (e' | a') same
  · obtain ⟨rfl, fair⟩ := same
    exact throw fair
  · exact same.elim
  · exact same.elim
  · exact hf a a' same

theorem after {x y : Checking α} (hx : C.Checks 0 Eq x y) (hf : ∀ a, C.Checks M S (f a) (g a)) :
    C.Checks M S (x >>= f) (y >>= g) := by
  have whole : C.Checks (0 + M) S (x >>= f) (y >>= g) := by
    refine hx.bind ?_
    rintro a _ rfl
    exact hf a
  rwa [zero_add] at whole

theorem premise {x y : Noting Typed} {f g : Typed → Checking β} (hx : C.Premise L x y)
    (hf : ∀ t r r', (C.Exact → r = r') → C.Checks M S (f ⟨t, r⟩) (g ⟨t, r'⟩)) :
    C.Checks (L + M) S (liftM x >>= f) (liftM y >>= g) := by
  refine (lift hx).bind ?_
  rintro ⟨t, r⟩ ⟨_, r'⟩ ⟨rfl, like⟩
  exact hf t r r' like

theorem conclude {x y : Noting Typed} {f g : Typed → Checking β} (hx : C.Premise L x y)
    (hf : ∀ t r r', (C.Exact → r = r') → C.Checks 0 S (f ⟨t, r⟩) (g ⟨t, r'⟩)) :
    C.Checks L S (liftM x >>= f) (liftM y >>= g) := by
  have whole := premise hx hf
  rwa [add_zero] at whole

theorem thrown {e : Error} (fair : e.isEnding = false) :
    C.Checks L S (MonadExcept.throw e >>= f) (MonadExcept.throw e >>= g) :=
  throw fair

theorem guarded {c : Prop} [Decidable c] {e : Error} (fair : e.isEnding = false)
    (hk : C.Checks L S (k ()) (k' ())) : C.Checks L S (if c then k () else MonadExcept.throw e >>= k)
      (if c then k' () else MonadExcept.throw e >>= k') := by
  split
  · exact hk
  · exact thrown fair

theorem comparing {a b : Formula} {e : Error} (fair : e.isEnding = false) (hk : C.Checks L S (k ()) (k' ())) :
    C.Checks L S (do
        let r ← liftM (same a b)
        if r then k () else MonadExcept.throw e >>= k) (do
        let r ← liftM (same a b)
        if r then k' () else MonadExcept.throw e >>= k') :=
  (lift (C.compares _)).after fun _ => guarded fair hk

theorem noting {r r' : Record} (paired : r.Paired C.blurs C.Exact r') (hk : C.Checks L S (k ()) (k' ())) :
    C.Checks L S (liftM (note r) >>= k) (liftM (note r') >>= k') :=
  (lift (C.notes paired)).after fun _ => hk

end Checks
end Coupling

end Peano.Judgement
