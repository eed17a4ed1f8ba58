import Peano.Proofs.Checking.Rules
namespace Peano.Judgement
open List
open Syntax (Name Expr Loop Block Switch Case Statement TypeExpr Rename TypeParam Place Jump)

variable {strict : Bool} {cfg : Settings}

section Recovery

variable {require : Option Formula}

theorem lemma_yields (t : Formula) (lemmas : List (Formula × Primitive)) :
    Yields strict (Shortcut.lemma? t lemmas) fun found =>
      found = (lemmas.find? fun l => (t.equal l.1).toOption.getD false).map Prod.snd := by
  induction lemmas with
  | nil => exact .pure rfl
  | cons entry rest ih =>
    obtain ⟨statement, p⟩ := entry
    refine .bind (same_yields t statement) fun r => ?_
    cases r with
    | true => exact .pure fun states => by simp [states, Except.toOption]
    | false => exact ih.mono fun _ found states => by simp [found, states, Except.toOption]

theorem shortcut_yields (t : Formula) (fallback : Realizer) :
    Yields strict (Shortcut.realizer t fallback) fun r =>
      r = (Shortcut.primitive? t).elim fallback .primitive := by
  unfold Shortcut.primitive?
  refine .bind (lemma_yields t Shortcut.lemmas) fun found => ?_
  split
  · exact .pure fun found => by rw [← found]; rfl
  · split
    next ends => exact .pure fun found => by rw [← found]; simp [ends]
    · exact .pure fun found => by rw [← found]; simp

/-- The type and the realizer that a term ends up with. -/
def finished (cfg : Settings) (isName : Bool) (type : Formula) (r : Realizer) : Noting Typed :=
  match cfg.shortcuts && !isName, type with
  | true, .arrow .. => return ⟨type, ← Shortcut.realizer type r⟩
  | _, _ => return ⟨type, r⟩

theorem finished_yields (isName : Bool) (type : Formula) (r : Realizer) :
    Yields strict (finished cfg isName type r) fun t =>
      t.type = type ∧ t.realizer = (replacement? cfg isName t.type).elim r .primitive := by
  unfold finished replacement?
  split
  next on => exact .bind (shortcut_yields _ r) fun r' => .pure fun found => ⟨rfl, by rw [on]; exact found⟩
  next other => exact .pure ⟨rfl, by split <;> simp_all⟩

/-- What a check that has come to an end is taken for. -/
def recovered (cfg : Settings) (place : Place) (isName : Bool) (require : Option Formula) :
    Except Error Typed → Noting Typed
  | .error e => do
    report place e
    finished cfg isName (require.getD .any) (.fail .noRealizer)
  | .ok t => do
    match require with
    | some required =>
      unless ← same t.type required do report place (.notAssignable t.type required)
    | none => pure ()
    finished cfg isName (require.getD t.type) t.realizer

theorem recover_leads {place : Place} {isName : Bool} {inferred : Checking Typed}
    {Q : Bool → Typed → Bool → Prop} (h : Checking.Leads strict inferred Q) :
    Leads strict (recover cfg place isName require inferred) fun v final v' =>
      ∃ t, Q v t v' ∧ Recovers cfg isName require t final := by
  have rest (r : Except Error Typed) : Yields strict (recovered cfg place isName require r) fun final =>
      ∃ t, r = .ok t ∧ Recovers cfg isName require t final := by
    cases r with
    | error e =>
      -- a check that failed has been reported, so it is not clean
      exact .bind .report fun _ => (finished_yields _ _ _).mono fun _ _ no => no.elim
    | ok t =>
      have fin : Yields strict (finished cfg isName (require.getD t.type) t.realizer) _ :=
        finished_yields isName (require.getD t.type) t.realizer
      cases require with
      | none => exact fin.mono fun final h => ⟨t, rfl, by rintro r ⟨⟩, h.1, h.2⟩
      | some required =>
        refine .bind (same_yields t.type required) fun fits => ?_
        cases fits with
        | true =>
          refine fin.mono fun final h fits => ⟨t, rfl, fun r hr => ?_, h.1, h.2⟩
          cases hr
          exact fits
        | false => exact .bind .report fun _ => fin.mono fun _ _ no => no.elim
  refine Leads.compose h rest ?_
  rintro v r v₁ final v' hQ ⟨rfl, t, rfl, recovers⟩
  exact ⟨t, hQ t rfl, recovers⟩

theorem judge_passes {scope : Scope} {e : Expr} {place : Place}
    {named : Bool} {rule : Checking Typed} (same : named = isName e) (h : Ruling strict cfg scope require e rule) :
    Yields strict (judge cfg place named require rule) fun t => Passed strict cfg (.term scope e require t) := by
  refine Leads.mono (recover_leads (note_then h)) fun v final v' found => ?_
  subst same
  obtain ⟨t, ⟨same, rule⟩, recovers⟩ := found
  exact ⟨same, .judged rule recovers (allowed nofun)⟩

end Recovery

theorem Passes.type_eq {ok : Event → Prop} {scope : Scope} {e : Expr} {require : Option Formula} {t : Typed}
    (h : Passes cfg ok (.term scope e require t)) : require.getD t.type = t.type := by
  have known {isName : Bool} {inferred final : Typed} (h : Recovers cfg isName require inferred final) :
      require.getD final.type = final.type := by
    rw [h.type]
    cases require with
    | none | some r => rfl
  cases h with
  | judged _ recovers _ => exact known recovers
  | block inside =>
    cases inside with
    | body _ recovers _ => exact known recovers

section Statements

variable {isProgram v : Bool}

theorem bind_yields (isProgram : Bool) (b : Binding) (bindings : List Binding) :
    Yields strict (Judgement.bind isProgram b bindings) fun bs => bs = bindings ++ [b] := by
  cases isProgram with
  | true =>
    intro n a n' run clean
    cases run
    exact ⟨clean, rfl, rfl⟩
  | false => exact .pure rfl

theorem reportAt_then {α : Type} {place : Place} {failed : Option Error} {k : Unit → Noting α}
    {Q : Bool → α → Bool → Prop} (hk : Leads strict (k ()) fun v a v' => failed = none → Q v a v') :
    Leads strict (reportAt place failed >>= k) Q := by
  refine Leads.bind (P := fun _ => failed = none) ?_ fun _ => hk
  cases failed with
  | none => exact .pure rfl
  | some e => exact Yields.report.mono fun _ no => no.elim

theorem defineRule_passes {visible : Place} {d : Syntax.Definition} {before : Progressed}
    {value : Option Formula → Noting Typed} (hv : Passing strict cfg before.scope d.value value) :
    Yields strict (defineRule isProgram visible d.name d.assertion value before) fun r =>
      r.2 = none → Passed strict cfg (.statement isProgram before (.define d) [] r.1) := by
  refine .bind (resolveOption_yields _ _) fun asserted => ?_
  refine .bind (hv asserted) fun t => .bind .note fun _ => ?_
  cases enters : Scope.tag (asserted.getD t.type) with
  | error why => exact .pure nofun
  | ok entry =>
    have enters (value : Passed strict cfg (.term before.scope d.value asserted t)) :
        Scope.tag t.type = .ok entry := by
      rwa [value.type_eq] at enters
    cases isProgram with
    | true =>
      refine .bind (bind_yields true _ _) fun bindings => .pure ?_
      rintro rfl - value asserts -
      exact .define asserts value (enters value)
    | false =>
      refine .bind .note fun _ => .bind (bind_yields false _ _) fun bindings => .pure ?_
      rintro rfl - - value asserts -
      exact .define asserts value (enters value)

theorem takeField_yields (visible : Place) (number property : String) (statement : Formula)
    (r : Rename) (t : Taken) :
    Yields strict (takeField visible number property statement r t) fun taken => taken.2 = none →
      r.field.text = number ∧ taken.1 = { t with
        scope := t.scope.insert r.target.text (.arithmetic (.var r.target.text))
        number := some r.target.text
        renamed := t.renamed ++ [(number, r.target.text)] } ∨
      r.field.text = property ∧ ∃ entry,
        Scope.tag (t.renamed.foldl (fun s (x, y) => s.rewrite x (.var y)) statement) = .ok entry ∧
        taken.1 = { t with
          scope := t.scope.insert r.target.text entry
          property := some r.target.text } := by
  unfold takeField
  dsimp only
  by_cases isNumber : r.field.text = number
  · subst isNumber
    rw [if_pos BEq.rfl]
    refine .bind .note fun _ => .bind .note fun _ => .pure ?_
    exact fun _ _ _ => .inl ⟨rfl, rfl⟩
  rw [if_neg (by simpa using isNumber)]
  by_cases isProperty : r.field.text = property
  · subst isProperty
    rw [if_pos BEq.rfl]
    refine .bind .note fun _ => .bind .note fun _ => ?_
    cases enters : Scope.tag (t.renamed.foldl (fun s (x, y) => s.rewrite x (.var y)) statement) with
    | error why => exact .pure nofun
    | ok entry => exact .pure fun _ _ _ => .inr ⟨rfl, entry, rfl, rfl⟩
  · rw [if_neg (by simpa using isProperty)]
    exact .pure nofun

theorem destructureRule_passes {visible p : Place}
    {first second : Rename} {v : Expr} {before : Progressed} {value : Noting Typed}
    (hv : Inferring strict cfg before.scope v value) :
    Yields strict (destructureRule isProgram visible first second value before) fun r =>
      r.2 = none → ∃ numbers,
        Passed strict cfg (.statement isProgram before (.destructure first second v p) numbers r.1) := by
  refine .bind hv fun t => ?_
  split
  next number property statement struct =>
    refine .bind (takeField_yields visible number property statement first _) fun one => ?_
    obtain ⟨one, failed⟩ := one
    cases failed with
    | some e => exact .pure nofun
    | none =>
      refine .bind (takeField_yields visible number property statement second one) fun two => ?_
      obtain ⟨two, failed⟩ := two
      cases failed with
      | some e => exact .pure nofun
      | none =>
        dsimp only
        split
        next n q hn hq =>
          refine .bind (bind_yields isProgram _ _) fun bindings => .pure ?_
          rintro rfl takes₂ takes₁ value -
          -- the fields are the number and the property in one order or the other
          rcases takes₁ rfl with ⟨field₁, rfl⟩ | ⟨field₁, entry, enters, rfl⟩
          · rcases takes₂ rfl with ⟨field₂, rfl⟩ | ⟨field₂, entry, enters, rfl⟩
            · cases hq
            · cases hn
              cases hq
              exact ⟨_, .unpack value struct ⟨field₁, field₂⟩ enters (allowed nofun) (allowed nofun)
                (allowed nofun)⟩
          · rcases takes₂ rfl with ⟨field₂, rfl⟩ | ⟨field₂, entry, enters', rfl⟩
            · cases hn
              cases hq
              exact ⟨_, .unpackReversed value struct ⟨field₁, field₂⟩ enters (allowed nofun)
                (allowed nofun) (allowed nofun)⟩
            · cases hn
        · exact .pure nofun
  · exact .pure nofun

theorem genericRuleFor_yields (scope : Scope) (x : Name) (ps : List TypeParam) (t : TypeExpr) :
    Yields strict (genericRuleFor x ps t scope) fun r => r.2 = none → ∃ params inner body,
      genericParams scope ps = .ok (params, inner) ∧ Stands inner t body ∧
        r.1 = scope.insert x.text (.generic params body) := by
  unfold genericRuleFor
  cases opens : genericParams scope ps with
  | error e => exact .pure nofun
  | ok opened =>
    obtain ⟨params, inner⟩ := opened
    refine .bind (resolveType_yields inner t) fun body => .pure fun stands _ => ?_
    exact ⟨params, inner, body, rfl, stands, rfl⟩

/-- The exercise is solved only if it was so before or if its name has its statement in one of the
scopes. -/
def Earns (cfg : Settings) (seen : List Scope) (solved solved' : Bool) : Prop :=
  solved' = true → solved = true ∨ ∃ e ∈ cfg.exercise, ∃ scope ∈ seen, ∃ t,
    scope.find? e.name = some (.proof t) ∧ Fits t e.statement

theorem exerciseRule_leads (scope : Scope) :
    Leads strict (exerciseRule cfg.exercise scope) fun v _ v' => Earns cfg [scope] v v' := by
  unfold exerciseRule Earns
  cases exercise : cfg.exercise with
  | none =>
    have idle : Yields strict (pure () : Noting Unit) fun _ => True := .pure trivial
    exact Leads.mono idle fun v _ v' h solved => .inl (h.1 ▸ solved)
  | some e =>
    dsimp only
    split
    next t found =>
      refine Leads.bind (same_yields t e.statement) fun r => ?_
      intro n a n' run clean
      cases run
      refine ⟨clean, fun fits solved => .inr ⟨e, rfl, scope, mem_singleton_self _, t, found, ?_⟩⟩
      exact fits.trans (congrArg _ solved)
    · intro n a n' run clean
      cases run
      exact ⟨clean, nofun⟩

theorem Earns.refl {seen : List Scope} : Earns cfg seen v v := .inl

theorem Earns.trans {scope : Scope} {seen : List Scope} {v₁ v₂ : Bool} (first : Earns cfg [scope] v v₁)
    (rest : Earns cfg seen v₁ v₂) : Earns cfg (scope :: seen) v v₂ := by
  intro solved
  rcases rest solved with solved | ⟨e, he, s, hs, found⟩
  · rcases first solved with solved | ⟨e, he, s, hs, found⟩
    · exact .inl solved
    · exact .inr ⟨e, he, s, mem_cons.2 (.inl (mem_singleton.1 hs)), found⟩
  · exact .inr ⟨e, he, s, mem_cons_of_mem _ hs, found⟩

def Runs (strict : Bool) (cfg : Settings) (isProgram : Bool) (before : Progressed)
    (ss : List Statement) (require : Option Formula) (v : Bool) (r : Except Error Typed) (v' : Bool) : Prop :=
  ∀ t, r = .ok t → ∃ seen, Passed strict cfg (.statements isProgram before ss require seen t) ∧
    (isProgram = false → v' = v) ∧ Earns cfg seen v v'

section

variable {before after : Progressed} {s : Statement} {rest : List Statement} {require : Option Formula}
  {k : Noting (Except Error Typed)} {P : Prop}
  (hk : Leads strict k (Runs strict cfg isProgram after rest require))
include hk

theorem next_runs (h : P → ∃ numbers, Passed strict cfg (.statement isProgram before s numbers after)) :
    Leads strict (do
      if isProgram then exerciseRule cfg.exercise after.scope
      k) fun v r v' => P → Runs strict cfg isProgram before (s :: rest) require v r v' := by
  have next {v₁ v₂ v₃ : Bool} {r : Except Error Typed} (idle : isProgram = false → v₂ = v₁)
      (earns : Earns cfg [after.scope] v₁ v₂) (runs : Runs strict cfg isProgram after rest require v₂ r v₃)
      (known : P) : Runs strict cfg isProgram before (s :: rest) require v₁ r v₃ := by
    intro t ht
    obtain ⟨numbers, statement⟩ := h known
    obtain ⟨seen, remaining, same, earned⟩ := runs t ht
    refine ⟨_, .next statement (allowed nofun) remaining (allowed nofun), ?_, earns.trans earned⟩
    exact fun h => (same h).trans (idle h)
  -- only a program looks at its exercise between two statements
  cases isProgram with
  | true =>
    refine Leads.compose (exerciseRule_leads after.scope) (fun _ => hk) ?_
    exact fun v _ v₁ r v₂ earns runs => next nofun earns runs
  | false => exact Leads.mono hk fun v r v' runs => next (fun _ => rfl) Earns.refl runs

theorem reported_runs {place : Place} {failed : Option Error}
    (h : failed = none → P → ∃ numbers, Passed strict cfg (.statement isProgram before s numbers after)) :
    Leads strict (do
      reportAt place failed if isProgram then exerciseRule cfg.exercise after.scope
      k) fun v r v' => P → Runs strict cfg isProgram before (s :: rest) require v r v' :=
  reportAt_then ((next_runs hk fun both : failed = none ∧ P => h both.1 both.2).mono
    fun _ _ _ runs none known => runs ⟨none, known⟩)

end

/-- A block that is not the program does not touch the exercise. -/
theorem inner_yields {m : Noting Typed} {P : List Scope → Typed → Prop} (h : Leads strict m fun v t v' =>
      ∃ seen, P seen t ∧ (false = false → v' = v) ∧ Earns cfg seen v v') :
    Yields strict m fun t => ∃ seen, P seen t := by
  refine Leads.mono h fun v t v' found => ?_
  obtain ⟨seen, inside, same, -⟩ := found
  exact ⟨same rfl, seen, inside⟩

theorem arms_eq_map (ending : Jump) (cases : List Case) : arms cfg ending cases =
    cases.map (armOf fun b inner require => checkBlock cfg inner false ending b require) := by
  induction cases with
  | nil => rw [arms, map_nil]
  | cons c rest ih =>
    obtain ⟨tag, x, guardPlace, body, place⟩ := c
    rw [arms, ih]
    rfl

end Statements

section Terms

def Sound (strict : Bool) (cfg : Settings) (e : Expr) : Prop :=
  ∀ scope require, Yields strict (check cfg scope e require) fun t =>
    Passed strict cfg (.term scope e require t)

/-- The parts of a term that a call or a pair looks at. -/
def Parts (P : Expr → Prop) : Expr → Prop
  | .member x _ _ => P x
  | .call _ b _ => P b
  | .ascribe x _ _ => P x
  | _ => True

variable {f a : Expr} {p : Place}

theorem transRule_none {require : Option Formula} {subject : Noting Typed} {P : Typed → Prop}
    {Q : Typed → Prop} (hx : Yields strict subject P) :
    Checking.Yields strict (transRule require subject none) Q := by
  refine .premise hx fun t => ?_
  split
  · exact .throw
  · exact .throw

theorem emptyCall_sound (parts : Parts (Sound strict cfg) f) :
    Sound strict cfg (.emptyCall f p) := by
  intro scope require
  unfold check
  split
  · refine judge_passes rfl ?_
    split
    case isTrue symm => exact symmRule_passes (by simpa using symm) (parts scope)
    split
    case isTrue => exact transRule_none (parts scope none)
    split
    · exact .throw
    · exact .throw
  · refine judge_passes rfl ?_
    split
    case isTrue ring => exact .pure (.ringAlone (by simpa using ring))
    case isFalse => exact .throw
  · exact judge_passes rfl .throw

theorem call_sound (hf : Sound strict cfg f)
    (parts : Parts (Sound strict cfg) f) (ha : Sound strict cfg a) :
    Sound strict cfg (.call f a p) := by
  intro scope require
  have plain (h : isBuiltin f = false) : Ruling strict cfg scope require (.call f a p)
      (applicationRule (check cfg scope f none) (check cfg scope a)) :=
    applicationRule_passes h (hf scope none) (ha scope)
  unfold check
  split
  · refine judge_passes rfl ?_
    split
    case isTrue => exact .throw
    split
    case isTrue trans =>
      exact transRule_passes (by simpa using trans) (parts scope none) (ha scope)
    split
    case isTrue map =>
      exact mapRule_passes (.method (by simpa using map)) (ha scope none) (parts scope none)
    case isFalse symm trans map => exact plain (by simp_all [isBuiltin])
  · refine judge_passes rfl ?_
    split
    · exact succRule_passes ‹_› (ha scope none)
    · exact injectionRule_passes (.inl ‹_›) (ha scope)
    · exact injectionRule_passes (.inr ‹_›) (ha scope)
    · exact ringRule_passes ‹_› (ha scope none)
    · exact neverElimRule_passes ‹_› (ha scope)
    · exact plain (by simp_all [isBuiltin])
  · refine judge_passes rfl ?_
    split
    case isTrue map =>
      exact mapRule_passes (.function (by simpa using map)) (parts scope none) (ha scope none)
    split
    case isTrue replace =>
      exact replaceAllRule_passes (by simpa using replace) (parts scope none) (ha scope none)
    case isFalse map replace => exact plain (by simp_all [isBuiltin])
  · refine judge_passes rfl (plain ?_)
    unfold isBuiltin
    split <;> simp_all

theorem record_sound {x y : Name} {v w : Expr}
    (hv : Sound strict cfg v) (hw : Sound strict cfg w) (parts : Parts (Sound strict cfg) w) :
    Sound strict cfg (.record x v y w p) := by
  intro scope require
  unfold check
  split
  next proof t q =>
    exact judge_passes rfl (witnessRule_passes (w := .ascribe proof t q) (hv scope) (parts scope))
  next plain =>
    have whole : proofPart w = (w, none) := by
      unfold proofPart
      split
      · exact (plain _ _ _ rfl).elim
      · rfl
    have rule : Ruling strict cfg scope require (.record x v y w p)
        (witnessRule scope require x.text y.text (proofPart w).2 (check cfg scope v) (check cfg scope w)) :=
      witnessRule_passes (hv scope) (by rw [whole]; exact hw scope)
    rw [whole] at rule
    exact judge_passes rfl rule

end Terms

mutual

theorem check_sound :
    (e : Expr) → Sound strict cfg e ∧ Parts (Sound strict cfg) e
  | .name x => by
    refine ⟨fun scope require => ?_, trivial⟩
    exact judge_passes rfl (nameRule_passes x)
  | .numeral digits p => by
    refine ⟨fun scope require => ?_, trivial⟩
    exact judge_passes rfl (.pure .numeral)
  | .generic f t p => by
    refine ⟨fun scope require => ?_, trivial⟩
    exact judge_passes rfl (genericRule_passes t)
  | .block b => by
    refine ⟨fun scope require => ?_, trivial⟩
    refine (inner_yields (checkBlock_leads b scope false .ret require)).mono ?_
    rintro t ⟨seen, inside⟩
    exact .block inside
  | .lambda x d r b p => by
    refine ⟨fun scope require => ?_, trivial⟩
    exact judge_passes rfl (lambdaRule_passes (check_sound b).1)
  | .emptyCall f p => ⟨emptyCall_sound (check_sound f).2, trivial⟩
  | .call f a p =>
    ⟨call_sound (check_sound f).1 (check_sound f).2 (check_sound a).1, (check_sound a).1⟩
  | .record x v y w p =>
    ⟨record_sound (check_sound v).1 (check_sound w).1 (check_sound w).2, trivial⟩
  | .pair l r p => by
    refine ⟨fun scope require => ?_, trivial⟩
    exact judge_passes rfl (pairRule_passes ((check_sound l).1 scope) ((check_sound r).1 scope))
  | .ascribe x t p => by
    refine ⟨fun scope require => ?_, (check_sound x).1⟩
    exact judge_passes rfl (ascriptionRule_passes ((check_sound x).1 scope))
  | .member x field p => by
    refine ⟨fun scope require => ?_, (check_sound x).1⟩
    exact judge_passes rfl (memberRule_passes ((check_sound x).1 scope none))
  | .loop ⟨⟨i, iType, iValue, iPlace⟩, ⟨q, qType, qValue, qPlace⟩, compared, bound, cPlace, stepped,
      sPlace, body, p⟩ => by
    refine ⟨fun scope require => ?_, trivial⟩
    refine judge_passes rfl (loopRule_passes ⟨⟨i, iType, iValue, iPlace⟩,
      ⟨q, qType, qValue, qPlace⟩, compared, bound, cPlace, stepped, sPlace, body, p⟩
      ((check_sound iValue).1 scope) ((check_sound bound).1 scope) ((check_sound qValue).1 scope) ?_)
    exact fun inner required => inner_yields (checkBlock_leads body inner false .next required)
  | .switch s => by
    refine ⟨fun scope require => ?_, trivial⟩
    refine judge_passes rfl ((inferSwitch_passes s scope .stop require).mono fun t cases => ?_)
    exact .switch cases
  | .arith op l r p => by
    refine ⟨fun scope require => ?_, trivial⟩
    exact judge_passes rfl
      (arithRule_passes op ((check_sound l).1 scope none) ((check_sound r).1 scope none))

theorem checkBlock_leads : (b : Block) → ∀ scope isProgram ending require,
    Leads strict (checkBlock cfg scope isProgram ending b require) fun v t v' =>
      ∃ seen, Passed strict cfg (.block scope isProgram b require seen t) ∧
        (isProgram = false → v' = v) ∧ Earns cfg seen v v'
  | ⟨statements, place⟩ => by
    intro scope isProgram ending require
    have inside : Checking.Leads strict (note (.required place require (.jump ending)) >>= fun _ =>
        ExceptT.mk (inferStatements cfg isProgram place ending require ⟨scope, []⟩ statements)) _ :=
      Leads.bind .note fun _ => Leads.mono
        (statements_run statements isProgram place ending require ⟨scope, []⟩) fun _ _ _ h _ => h
    refine Leads.mono (recover_leads inside) fun v final v' found => ?_
    obtain ⟨t, ⟨seen, inside, idle, earns⟩, recovers⟩ := found
    exact ⟨seen, .body inside recovers fun _ => allowed nofun, idle, earns⟩

theorem inferSwitch_passes : (s : Switch) → ∀ scope ending require,
    Checking.Yields strict (inferSwitch cfg scope ending s require) fun t =>
      Passed strict cfg (.switch scope s require t)
  | ⟨subject, cases, place⟩ => by
    intro scope ending require
    rw [inferSwitch, arms_eq_map]
    exact switchRule_passes ⟨subject, cases, place⟩ ((check_sound subject).1 scope none)
      (cases_pass cases ending)

theorem cases_pass : (cases : List Case) → ∀ ending, ∀ c ∈ cases,
    Bodied strict cfg c.body fun inner require => checkBlock cfg inner false ending c.body require
  | [] => fun _ _ h => absurd h not_mem_nil
  | ⟨tag, x, guardPlace, body, place⟩ :: rest => by
    intro ending c hc inner require
    rcases mem_cons.1 hc with rfl | hc
    · exact inner_yields (checkBlock_leads body inner false ending require)
    · exact cases_pass rest ending c hc inner require

theorem statements_run : (ss : List Statement) → ∀ isProgram block ending require before,
    Leads strict (inferStatements cfg isProgram block ending require before ss)
      (Runs strict cfg isProgram before ss require)
  | [] => by
    intro isProgram block ending require before n r n' run clean
    cases run
    refine ⟨clean, fun t ht => ?_⟩
    cases isProgram with
    | true =>
      cases ht
      exact ⟨[], .fallOff, fun _ => rfl, Earns.refl⟩
    | false => cases ht
  | .empty p :: rest => by
    intro isProgram block ending require before
    refine Leads.mono (statements_run rest isProgram block ending require before) ?_
    intro v r v' runs t ht
    obtain ⟨seen, remaining, found⟩ := runs t ht
    exact ⟨seen, .skip remaining, found⟩
  | .define ⟨x, t, v, place⟩ :: rest => by
    intro isProgram block ending require before
    have value := (check_sound v).1 before.scope
    refine Leads.bind (defineRule_passes (d := ⟨x, t, v, place⟩) value) fun r => ?_
    obtain ⟨after, failed⟩ := r
    exact reported_runs (statements_run rest isProgram block ending require after)
      fun none statement => ⟨_, statement none⟩
  | .destructure x y v place :: rest => by
    intro isProgram block ending require before
    have value := (check_sound v).1 before.scope none
    refine Leads.bind (destructureRule_passes (p := place) value) fun r => ?_
    obtain ⟨after, failed⟩ := r
    exact reported_runs (statements_run rest isProgram block ending require after)
      fun none statement => statement none
  | .leave jump q v p :: rest => by
    intro isProgram block ending require before
    rw [inferStatements]
    have value : Leads strict (check cfg before.scope v require >>= fun r =>
        pure (.ok ⟨r.type, r.realizer.after before.bindings⟩))
        (Runs strict cfg isProgram before (.leave jump q v p :: rest) require) := by
      refine Leads.bind ((check_sound v).1 before.scope require) fun t => ?_
      intro n r n' run clean
      cases run
      refine ⟨clean, fun value u hu => ?_⟩
      cases hu
      exact ⟨[], .leave value, fun _ => rfl, Earns.refl⟩
    split
    · exact Leads.bind (.error rfl) fun _ => Leads.mono value fun _ _ _ _ no => no.elim
    · exact value
  | .switch s :: rest => by
    intro isProgram block ending require before
    have cases := (inferSwitch_passes s before.scope ending require).run
    refine Leads.compose cases (fun r => ?_) (R := fun r v₁ r' v₂ => ∃ t, r = .ok t ∧ v₂ = v₁ ∧
      r' = .ok ⟨t.type, t.realizer.after before.bindings⟩) ?_
    · cases r with
      | ok t =>
        intro n r' n' run clean
        cases run
        exact ⟨clean, t, rfl, rfl, rfl⟩
      | error e =>
        refine Leads.bind .report fun _ => ?_
        have nothing (no : False) : ∃ numbers,
            Passed strict cfg (.statement isProgram before (.switch s) numbers before) :=
          no.elim
        refine Leads.mono (next_runs (statements_run rest isProgram block ending require before) nothing) ?_
        exact fun _ _ _ _ no => no.elim
    · rintro v r v₁ r' v₂ found ⟨t, rfl, rfl, rfl⟩ u hu
      obtain ⟨rfl, cases⟩ := found t rfl
      cases hu
      exact ⟨[], .leaveBy cases, fun _ => rfl, Earns.refl⟩
  | .typedef x t p :: rest => by
    intro isProgram block ending require before
    refine Leads.bind (resolveType_yields before.scope t) fun type => ?_
    exact next_runs (statements_run rest isProgram block ending require _)
      fun stands => ⟨_, .typedef stands⟩
  | .generic x ps t place :: rest => by
    intro isProgram block ending require before
    refine Leads.bind (genericRuleFor_yields before.scope x ps t) fun r => ?_
    obtain ⟨scope, failed⟩ := r
    refine reported_runs (statements_run rest isProgram block ending require _) fun none opened => ?_
    obtain ⟨params, inner, body, opens, stands, rfl⟩ := opened none
    exact ⟨_, .generic opens stands⟩
  | .log args p :: rest => by
    intro isProgram block ending require before
    refine Leads.bind (logs_pass args isProgram before) fun _ => ?_
    refine next_runs (statements_run rest isProgram block ending require before) fun arguments => ?_
    cases isProgram with
    | true => exact ⟨_, .log (arguments rfl)⟩
    | false => exact ⟨_, .misplacedLog⟩

theorem logs_pass : (args : List Expr) → ∀ isProgram before,
    Yields strict (logArguments cfg isProgram before args) fun _ =>
      isProgram → Passed strict cfg (.logs before.scope args)
  | [] => by
    intro isProgram before
    exact .pure fun _ => .logged
  | e :: rest => by
    intro isProgram before
    have remaining := logs_pass rest isProgram before
    cases isProgram with
    | true =>
      refine .bind ((check_sound e).1 before.scope none) fun t => .bind .note fun _ => ?_
      exact remaining.mono fun _ remaining _ value _ => .logging value (remaining rfl)
    | false => exact .bind .note fun _ => remaining.mono fun _ _ _ => nofun

end

/-- A program without errors passes by the rules. If it solves its exercise, the name of that has its
statement in a scope on the way. -/
theorem elaborateProgram_passes {scope : Scope} {program : Block} {e : Elaborated}
    (accepted : elaborateProgram cfg scope program = .ok e) (clean : e.hasErrors = false)
    (honest : strict → e.notes.progress.sorryUsed = false) :
    ∃ seen, Passed strict cfg (.block scope true program none seen e.typed) ∧
      Earns cfg seen false e.notes.solves := by
  unfold elaborateProgram at accepted
  cases run : (checkBlock cfg scope true .ret program none).run {} with
  | error why => rw [run] at accepted; cases accepted
  | ok r =>
    rw [run] at accepted
    cases accepted
    have cleanAtEnd : r.2.Clean strict := by
      refine ⟨fun record hr => ?_, honest⟩
      have := any_eq_false.1 clean record (Array.mem_toList_iff.2 hr)
      simpa using this
    obtain ⟨-, seen, inside, -, earns⟩ :=
      checkBlock_leads program scope true .ret none {} r.1 r.2 run cleanAtEnd
    exact ⟨seen, inside, earns⟩

end Peano.Judgement
