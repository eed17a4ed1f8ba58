import Peano.Judgement.Elaboration
namespace Peano.Judgement

/-- No error has been recorded; a strict check has not used `sorry` either. -/
def Notes.Clean (strict : Bool) (n : Notes) : Prop :=
  (∀ r ∈ n.records, r.isError = false) ∧ (strict = true → n.progress.sorryUsed = false)

/-- Whether the exercise was found proved when it was last looked at. -/
def Notes.solves (n : Notes) : Bool := n.progress.isTyped

variable {α β : Type} {strict : Bool}

/-- Where `m` comes out clean it has started clean, and `Q` holds of its result and of the exercise
before and after. -/
def Leads (strict : Bool) (m : Noting α) (Q : Bool → α → Bool → Prop) : Prop :=
  ∀ n a n', m.run n = .ok (a, n') → n'.Clean strict → n.Clean strict ∧ Q n.solves a n'.solves

/-- `m` leads to `Q` and does not touch the exercise. -/
def Yields (strict : Bool) (m : Noting α) (Q : α → Prop) : Prop :=
  Leads strict m fun v a v' => v' = v ∧ Q a

namespace Leads

variable {m : Noting α} {Q : Bool → β → Bool → Prop}

theorem mono {P Q : Bool → α → Bool → Prop} (h : Leads strict m P) (hPQ : ∀ v a v', P v a v' → Q v a v') :
    Leads strict m Q := by
  intro n a n' run clean
  obtain ⟨before, hP⟩ := h n a n' run clean
  exact ⟨before, hPQ _ _ _ hP⟩

/-- Cleanness is known from the end, so the second part cannot rely on what the first one found. -/
theorem compose {f : α → Noting β} {P : Bool → α → Bool → Prop} {R : α → Bool → β → Bool → Prop}
    (hm : Leads strict m P) (hf : ∀ a, Leads strict (f a) (R a))
    (hQ : ∀ v a v₁ b v₂, P v a v₁ → R a v₁ b v₂ → Q v b v₂) : Leads strict (m >>= f) Q := by
  intro n b n' run clean
  rw [StateT.run_bind] at run
  cases first : m.run n with
  | error e => rw [first] at run; cases run
  | ok r =>
    obtain ⟨a, n₁⟩ := r
    rw [first] at run
    obtain ⟨clean₁, hR⟩ := hf a n₁ b n' run clean
    obtain ⟨clean₀, hP⟩ := hm n a n₁ first clean₁
    exact ⟨clean₀, hQ _ _ _ _ _ hP hR⟩

/-- The second part passes on to its result what the first one found. -/
theorem bind {f : α → Noting β} {P : α → Prop} (hm : Yields strict m P)
    (hf : ∀ a, Leads strict (f a) fun v b v' => P a → Q v b v') : Leads strict (m >>= f) Q := by
  refine compose hm hf ?_
  rintro v a v₁ b v₂ ⟨rfl, hP⟩ hQ
  exact hQ hP

end Leads

namespace Yields

variable {m : Noting α} {P Q : α → Prop}

theorem mono (h : Yields strict m P) (hPQ : ∀ a, P a → Q a) : Yields strict m Q :=
  Leads.mono h fun _ a _ hP => ⟨hP.1, hPQ a hP.2⟩

theorem pure {a : α} (h : Q a) : Yields strict (pure a : Noting α) Q := by
  intro n b n' run clean
  cases run
  exact ⟨clean, rfl, h⟩

theorem bind {f : α → Noting β} {Q : β → Prop} (hm : Yields strict m P)
    (hf : ∀ a, Yields strict (f a) fun b => P a → Q b) : Yields strict (m >>= f) Q :=
  Leads.bind hm fun a => Leads.mono (hf a) fun _ _ _ h hP => ⟨h.1, h.2 hP⟩

theorem map {g : α → β} {Q : β → Prop} (hm : Yields strict m fun a => Q (g a)) :
    Yields strict (g <$> m) Q := by
  exact bind hm fun a => Yields.pure id

theorem compared {outcome : Except Formula.Incomparable α} (h : ∀ a, outcome = .ok a → Q a) :
    Yields strict (compared outcome) Q := by
  intro n a n' run clean
  cases outcome with
  | error e => cases run
  | ok b =>
    cases run
    exact ⟨clean, rfl, h _ rfl⟩

theorem note {r : Record} : Yields strict (note r) fun _ => True := by
  intro n a n' run clean
  cases run
  exact ⟨⟨fun s hs => clean.1 s (Array.mem_push.2 (.inl hs)), clean.2⟩, rfl, trivial⟩

/-- What reports an error is never clean. -/
theorem error {r : Record} (h : r.isError) : Yields strict (Judgement.note r) fun _ => False := by
  intro n a n' run clean
  cases run
  have := clean.1 r (Array.mem_push.2 (.inr rfl))
  rw [h] at this
  cases this

theorem report {place : Syntax.Place} {e : Error} : Yields strict (report place e) fun _ => False :=
  error rfl

end Yields

/-- The same for checks that may fail, about those that do not. -/
def Checking.Leads (strict : Bool) (m : Checking α) (Q : Bool → α → Bool → Prop) : Prop :=
  Judgement.Leads strict m.run fun v r v' => ∀ a, r = .ok a → Q v a v'

def Checking.Yields (strict : Bool) (m : Checking α) (Q : α → Prop) : Prop :=
  Checking.Leads strict m fun v a v' => v' = v ∧ Q a

namespace Checking.Yields

variable {m : Checking α} {P Q : α → Prop}

theorem run (h : Checking.Yields strict m Q) :
    Judgement.Leads strict m.run fun v r v' => ∀ a, r = .ok a → v' = v ∧ Q a :=
  h

theorem of_leads (h : Judgement.Leads strict m.run fun v r v' => ∀ a, r = .ok a → v' = v ∧ Q a) :
    Checking.Yields strict m Q :=
  h

theorem mono (h : Checking.Yields strict m P) (hPQ : ∀ a, P a → Q a) : Checking.Yields strict m Q :=
  of_leads (h.run.mono fun _ _ _ hP a ha => ⟨(hP a ha).1, hPQ a (hP a ha).2⟩)

theorem of_run (h : Judgement.Yields strict m.run fun r => ∀ a, r = .ok a → Q a) : Checking.Yields strict m Q :=
  of_leads (Judgement.Leads.mono h fun _ _ _ h a ha => ⟨h.1, h.2 a ha⟩)

theorem pure {a : α} {Q : α → Prop} (h : Q a) : Checking.Yields strict (pure a : Checking α) Q := by
  refine of_run (Judgement.Yields.pure ?_)
  rintro _ ⟨⟩
  exact h

theorem throw {e : Error} {Q : α → Prop} : Checking.Yields strict (throw e : Checking α) Q :=
  of_run (Judgement.Yields.pure nofun)

theorem lift {m : Noting α} (hm : Judgement.Yields strict m Q) :
    Checking.Yields strict (liftM m : Checking α) Q := by
  refine of_run (Judgement.Yields.map (hm.mono fun a ha => ?_))
  rintro _ ⟨⟩
  exact ha

theorem bind {f : α → Checking β} {Q : β → Prop} (hm : Checking.Yields strict m P)
    (hf : ∀ a, Checking.Yields strict (f a) fun b => P a → Q b) : Checking.Yields strict (m >>= f) Q := by
  refine of_leads (hm.run.compose (f := ExceptT.bindCont f)
    (R := fun r v s v' => ∀ b, s = .ok b → ∃ a, r = .ok a ∧ v' = v ∧ (P a → Q b)) ?_ ?_)
  · rintro (e | a)
    · have failed : Judgement.Yields strict (ExceptT.bindCont f (.error e)) (· = .error e) :=
        Judgement.Yields.pure rfl
      refine Judgement.Leads.mono failed ?_
      rintro v _ v' ⟨-, rfl⟩ b ⟨⟩
    · exact (hf a).run.mono fun v s v' h b hb => ⟨a, rfl, h b hb⟩
  · rintro v r v₁ s v₂ hP hR b ok
    obtain ⟨a, rfl, rfl, hQ⟩ := hR b ok
    obtain ⟨same, known⟩ := hP a rfl
    exact ⟨same, hQ known⟩

theorem premise {m : Noting α} {f : α → Checking β} {Q : β → Prop} (hm : Judgement.Yields strict m P)
    (hf : ∀ a, Checking.Yields strict (f a) fun b => P a → Q b) : Checking.Yields strict (liftM m >>= f) Q :=
  bind (lift hm) hf

end Checking.Yields

end Peano.Judgement
