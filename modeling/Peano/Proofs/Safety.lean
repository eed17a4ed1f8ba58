import Peano.Proofs.Realizer.Shape
import Peano.Proofs.Soundness
namespace Peano
open Formula (shape_of_isArithmetic shape_rewrite)

namespace Scope

theorem not_number_of_tag {t : Formula} (tagged : tag t = .ok (.proof t)) (free : t.anyFree)
    (n : Nat) : ¬ t.shape.Has (.number n) := by
  cases t with
  | var | zero | succ | add | mul | nat | typeVar | hole => cases tagged
  | any => cases free
  | eq | rung => exact nofun
  | never => exact id
  | and | struct => rintro ⟨_, _, ⟨⟩, _⟩
  | or => rintro (⟨_, ⟨⟩, _⟩ | ⟨_, ⟨⟩, _⟩)
  | arrow => rintro ⟨⟨⟩, _⟩

end Scope

namespace Judgement
open Realizer (Computes)

/-- What the rules leave unchecked, and evaluation depends on. -/
def Event.Kinded : Event → Prop
  | .iterated bound => bound.isArithmetic = true
  | .witnessed value statement =>
    value.isArithmetic = true ∧ Scope.tag statement = .ok (.proof statement)
  | .replaced r => r.isArithmetic = true
  -- the number is bound last, so it must not hide the property
  | .reversed _ target property _ => target ≠ property
  | _ => True

/-- The definitions so far lead to an environment that fits the scope. -/
def Progressed.Leads (before : Progressed) (env : Env) : Prop :=
  ∀ s rest, (∀ inner : Env, inner.Fits before.scope → Computes s inner rest) →
    Computes s env (rest.after before.bindings)

def Finding.Runs : Finding → Prop
  | .term scope _ _ t | .rule scope _ _ t | .switch scope _ _ t =>
    ∀ env : Env, env.Fits scope → Computes t.type.shape env t.realizer
  | .block scope isProgram _ require _ t => (isProgram = true → require = none) →
    ∀ env : Env, env.Fits scope → Computes t.type.shape env t.realizer
  | .statements _ before _ _ _ t => ∀ env, before.Leads env → Computes t.type.shape env t.realizer
  | .statement _ before _ _ after => ∀ env, before.Leads env → after.Leads env
  | .logs .. => True

section Steps

variable {cfg : Settings} {ok : Event → Prop} {scope : Scope} {require : Option Formula}
variable {inferred final t : Typed} {env : Env}

theorem Recovers.shape_eq {isName : Bool} (recovers : Recovers cfg isName require inferred final)
    (free : (Event.checked scope require inferred.type).AnyFree) :
    final.type.shape = inferred.type.shape := by
  rw [recovers.type]
  cases require with
  | none => rfl
  | some r =>
    have alike := Formula.alike_of_equal (recovers.fits r rfl) free.2.2 (free.2.1 r rfl)
    exact alike.shape_eq.symm

theorem Recovers.computes {isName : Bool} (plain : cfg.shortcuts = false)
    (recovers : Recovers cfg isName require inferred final)
    (free : (Event.checked scope require inferred.type).AnyFree)
    (h : Computes inferred.type.shape env inferred.realizer) :
    Computes final.type.shape env final.realizer := by
  rw [recovers.shape_eq free, recovers.realizer_eq plain]
  exact h

theorem Passes.required_computes {e : Syntax.Expr} {r : Formula}
    (h : Passes cfg ok (.term scope e (some r) t)) (known : Computes t.type.shape env t.realizer) :
    Computes r.shape env t.realizer := by
  rwa [← show r = t.type from h.type_eq] at known

theorem number_computes (number : t.type.isArithmetic) (known : Computes t.type.shape env t.realizer) :
    Computes .number env t.realizer := by
  rwa [shape_of_isArithmetic number] at known

theorem leads_start (fits : env.Fits scope) : Progressed.Leads ⟨scope, []⟩ env :=
  fun _ _ ends => ends env fits

/-- One more definition, which takes environments of the old scope to some of the new one. -/
theorem Progressed.Leads.step {before : Progressed} {env : Env} (leads : before.Leads env)
    {scope : Scope} {b : Binding} (step : ∀ s rest, ∀ inner : Env, inner.Fits before.scope →
      (∀ next : Env, next.Fits scope → Computes s next rest) → Computes s inner (rest.after [b])) :
    Progressed.Leads ⟨scope, before.bindings ++ [b]⟩ env := by
  intro s rest inside
  rw [Realizer.after_append]
  exact leads s _ fun inner fits => step s rest inner fits inside

theorem leibniz_has (param : String) (property : Formula) :
    (leibniz param property).shape.Has (.partialApp (.argument 4 3) []) := by
  have law : (Shape.functions [.number, .number, .equation, property.shape] property.shape).Has
      (.partialApp (.argument 4 3) []) := Shape.has_argument (i := 3) (by simp)
  simp only [leibniz, Formula.shape, shape_rewrite _ _ (rfl : (Formula.var _).shape = _)]
  exact law

end Steps

section Groups
open Syntax (Expr Place Name TypeExpr Block Loop Switch Statement)

variable {cfg : Settings} {ok : Event → Prop} {scope : Scope} {require : Option Formula} {t : Typed}
  {isProgram : Bool} {before after : Progressed} {seen : List Scope} {p : Place}

theorem Finding.Runs.as {e : Expr} {f : Formula} {env : Env} (h : (Finding.term scope e require t).Runs)
    (type : t.type = f) (fits : env.Fits scope) : Computes f.shape env t.realizer := by
  rw [← type]
  exact h env fits

theorem lambda_runs {x : Name} {d r : Option TypeExpr} {b : Expr} :
    Conveys cfg ok Finding.Runs (.rule scope (.lambda x d r b p) require t) := by
  intro h below env fits
  cases below with
  | lambda _ _ enters _ _ _ _ ih =>
    refine Realizer.computes_lambda fun v good => ih _ (fits.insert x.text enters ?_)
    split
    next quantifier =>
      rw [Formula.isNat_iff] at quantifier
      rwa [quantifier] at good
    · exact good
  | mapSucc call | map call => cases call

theorem generic_runs {f : Name} {u : TypeExpr} :
    Conveys cfg ok Finding.Runs (.rule scope (.generic f u p) require t) := by
  intro h below env fits
  cases below with
  | makeLeftAt => exact Realizer.computes_primitive (Shape.has_injections _ _).1
  | makeRightAt => exact Realizer.computes_primitive (Shape.has_injections _ _).2
  | neverElimAt | excludedMiddleAt => exact Realizer.computes_fail (by decide)
  | replaceAt => exact Realizer.computes_primitive (leibniz_has _ _)
  | mapSucc call | map call => cases call

theorem statements_lead {ss : List Statement} :
    Conveys cfg ok Finding.Runs (.statements isProgram before ss require seen t) := by
  intro h below env leads
  cases below with
  | fallOff => exact (Realizer.computes_number 1337).mono fun _ _ => trivial
  | leave _ _ ih | leaveBy _ _ ih => exact leads _ _ ih
  | skip _ _ ih => exact ih env leads
  | next _ _ _ _ _ ihs _ ihr => exact ihr env (ihs env leads)

section
variable (kinded : ∀ ev, ok ev → ev.Kinded)
include kinded

theorem loop_runs {l : Loop} : Conveys cfg ok Finding.Runs (.rule scope (.loop l) require t) := by
  intro h below env fits
  cases below with
  | loop _ _ _ _ zero enters next _ iterated _ _ _ _ _ _ ihb _ ihz _ ihn =>
    have number := kinded _ iterated
    have base := zero.required_computes (ihz env fits)
    rw [shape_rewrite _ _ rfl] at base
    rw [shape_rewrite _ _ (shape_of_isArithmetic number)]
    refine Realizer.computes_loop (number_computes number (ihb env fits)) base fun k v good => ?_
    have step := (Passes.block next).required_computes
      (ihn (absurd · Bool.false_ne_true) _ ((fits.insert_number _ k).insert _ enters good))
    rwa [shape_rewrite _ _ rfl] at step
  | mapSucc call | map call => cases call

theorem statement_runs {s : Statement} {numbers : List String} :
    Conveys cfg ok Finding.Runs (.statement isProgram before s numbers after) := by
  intro h below env leads
  cases below with
  | define _ _ enters _ ih =>
    refine leads.step fun s rest inner fits inside => ?_
    exact Realizer.computes_define (ih inner fits) fun v good => inside _ (fits.insert _ enters good)
  | unpack _ struct _ enters _ _ _ _ ih =>
    refine leads.step fun s rest inner fits inside => ?_
    refine Realizer.computes_unpack (ih.as struct fits) fun k w good => inside _ ?_
    exact (fits.insert_number _ k).insert _ enters (by rwa [shape_rewrite _ _ rfl])
  | unpackReversed _ struct _ enters _ _ reversed _ ih =>
    -- the environment always binds the number first, whatever the order of the names in the scope
    refine leads.step fun s rest inner fits inside => ?_
    refine Realizer.computes_unpack (ih.as struct fits) fun k w good => inside _ ?_
    exact ((fits.insert _ enters good).insert_number _ k).swap (kinded _ reversed)
  | typedef | generic =>
    intro s rest inside
    refine leads s rest fun inner fits => inside inner (fits.insert_type _ fun _ => ?_)
    constructor <;> rintro ⟨⟩
  | log | misplacedLog => exact leads

end

variable (free : ∀ ev, ok ev → ev.AnyFree)
include free

theorem switch_runs {s : Switch} : Conveys cfg ok Finding.Runs (.switch scope s require t) := by
  intro h below env fits
  cases below with
  | cases _ either _ _ leftEnters left rightEnters right _ ihs _ ihl _ ihr =>
    refine Realizer.computes_switch (ihs.as either fits) (fun v good => ?_) fun v good => ?_
    · exact ihl (absurd · Bool.false_ne_true) _ (fits.insert _ leftEnters good)
    · have known := (Passes.block right).required_computes
        (ihr (absurd · Bool.false_ne_true) _ (fits.insert _ rightEnters good))
      rwa [(Passes.block left).type_eq] at known
  | casesAny part any => exact (not_any_of_passes free part any).elim

section
variable (plain : cfg.shortcuts = false)
include plain

theorem term_runs {e : Expr} : Conveys cfg ok Finding.Runs (.term scope e require t) := by
  intro h below env fits
  cases below with
  | judged _ recovers checked _ ih => exact recovers.computes plain (free _ checked) (ih env fits)
  | block _ _ ih => exact ih (absurd · Bool.false_ne_true) env fits

theorem block_runs {b : Block} : Conveys cfg ok Finding.Runs (.block scope isProgram b require seen t) := by
  intro h below alone env fits
  cases below with
  | body _ recovers checked _ ih =>
    have inside := ih env (leads_start fits)
    cases isProgram with
    | true =>
      -- nothing is required of a program, so nothing has to be compared
      rw [recovers.realizer_eq plain, recovers.type, alone rfl]
      exact inside
    | false => exact recovers.computes plain (free _ (checked rfl)) inside

end

variable (kinded : ∀ ev, ok ev → ev.Kinded)
include kinded

theorem call_runs {f a : Expr} : Conveys cfg ok Finding.Runs (.rule scope (.call f a p) require t) := by
  intro h below env fits
  cases below with
  | succ _ _ number _ ih => exact Realizer.computes_succ (number_computes number (ih env fits))
  | applyAll _ _ arrow _ number _ _ ihf _ iha =>
    rw [shape_rewrite _ _ (shape_of_isArithmetic number)]
    exact Realizer.computes_apply (ihf.as arrow fits) (number_computes number (iha env fits))
  | apply _ _ arrow implies argument _ ihf _ iha =>
    exact Realizer.computes_apply (ihf.as arrow fits) (argument.required_computes (iha env fits))
  | applyAny _ part any | ringAny _ part any => exact (not_any_of_passes free part any).elim
  | trans | transRung | mapSucc | map => exact Realizer.computes_equality
  | replaceAll _ _ _ _ replaced _ _ _ _ ihb =>
    -- the equation is not evaluated, so only the type has to be looked at
    rw [shape_rewrite _ _ (shape_of_isArithmetic (kinded _ replaced))]
    exact ihb env fits
  | ring _ _ equation _ ih =>
    have equal := ih.as equation fits
    exact equal
  | makeLeft _ argument _ ih => exact Realizer.computes_injectLeft (argument.required_computes (ih env fits))
  | makeRight _ argument _ ih => exact Realizer.computes_injectRight (argument.required_computes (ih env fits))
  | neverElim => exact Realizer.computes_fail (by decide)

theorem simple_runs {e : Expr} (simple : isSimple e) :
    Conveys cfg ok Finding.Runs (.rule scope e require t) := by
  intro h below env fits
  cases below with
  | sorried _ sorried => exact (free _ sorried).elim
  | name _ found =>
    obtain ⟨v, known, good⟩ := fits _ _ found
    exact Realizer.computes_lookup known good
  | numeral =>
    show Computes (Formula.numeral _).shape env _
    rw [Formula.shape_numeral]
    exact Realizer.computes_number _
  | add _ _ numbers _ ihl _ ihr =>
    exact (Realizer.computes_arith (number_computes numbers.1 (ihl env fits))
      (number_computes numbers.2 (ihr env fits))).1
  | mul _ _ numbers _ ihl _ ihr =>
    exact (Realizer.computes_arith (number_computes numbers.1 (ihl env fits))
      (number_computes numbers.2 (ihr env fits))).2
  | symm | ringAlone => exact Realizer.computes_equality
  | pair _ _ _ _ ihl _ ihr => exact Realizer.computes_pair (ihl env fits) (ihr env fits)
  | left _ _ both _ ih => exact (Realizer.computes_sides (ih.as both fits)).1
  | right _ _ both _ ih => exact (Realizer.computes_sides (ih.as both fits)).2
  | ascribe _ subject _ ih => exact subject.required_computes (ih env fits)
  | record _ _ proof witnessed _ _ ihv _ ihw =>
    obtain ⟨number, tagged⟩ := kinded _ witnessed
    have property := proof.required_computes (ihw env fits)
    rw [shape_rewrite _ _ (shape_of_isArithmetic number)] at property
    exact Realizer.computes_exist (Scope.not_number_of_tag tagged (free _ witnessed).2)
      (number_computes number (ihv env fits)) property
  | switch _ _ ih => exact ih env fits
  | mapSucc call | map call => cases call <;> cases simple
  | _ => cases simple

theorem Passes.runs (plain : cfg.shortcuts = false) {j : Finding} (h : Passes cfg ok j) : j.Runs := by
  refine h.conveyed fun j => ?_
  cases j with
  | term => exact term_runs free plain
  | rule scope e =>
    cases e with
    | lambda => exact lambda_runs
    | call => exact call_runs free kinded
    | generic => exact generic_runs
    | loop => exact loop_runs kinded
    | _ => exact simple_runs free kinded rfl
  | switch => exact switch_runs free
  | block => exact block_runs free plain
  | statements => exact statements_lead
  | statement => exact statement_runs kinded
  | logs => exact fun _ _ => trivial

end Groups

/-- A program with no errors that reads neither `sorry` nor `any` computes a value of the shape of its
type, or fails where a proof is not constructive, if what comes up on the way is kinded. There is
enough fuel for that, and the fuel there is leads to this or runs out. -/
theorem accepted_computes {cfg : Settings} {program : Syntax.Block} {e : Elaborated}
    (accepted : Accepted cfg program e) (plain : cfg.shortcuts = false)
    (avoids : program.avoids ["sorry", "any"] = true) (kinded : Always cfg program Event.Kinded) :
    ∃ out : Except Failure Value, (∀ v, out = .ok v → e.typed.type.shape.Has v) ∧
      (∀ why, out = .error why → why ∈ Failure.nonconstructive) ∧
      (∃ n, ∀ fuel ≥ n, Program.finish .unlimited (e.typed.realizer.eval fuel Axiom.env) =
        out.mapError .failed) ∧
      (Program.evaluate .unlimited Axiom.env e.typed.realizer = out.mapError .failed ∨
        Program.evaluate .unlimited Axiom.env e.typed.realizer = .error (.stopped .killed)) := by
  obtain ⟨seen, passes⟩ := accepted.passes
  obtain ⟨passes, -⟩ := (kinded _ _ _ passes).anyFree (by simp) (.inr (by simp)) avoids
    ⟨Scope.AnyFree.axioms, anyFree_none⟩
  have computes := passes.runs (fun _ h => h.2) (fun _ h => h.1.2) plain (fun _ => rfl) Axiom.env
    Axiom.env_fits
  obtain ⟨out, good, excused, n, ends⟩ := computes
  refine ⟨out, good, excused, ⟨n, fun fuel enough => (ends fuel enough).finish⟩, ?_⟩
  have deep := Realizer.eval_extends (Nat.le_max_left Program.depth n) Axiom.env e.typed.realizer
  exact Run.finish_of_extends deep (ends _ (Nat.le_max_right _ _))

theorem zeroAdd_computes : ∃ e, Accepted {} zeroAdd e ∧ zeroAdd.avoids ["sorry", "any"] = true ∧
    Always {} zeroAdd Event.Kinded ∧ ∃ out : Except Failure Value,
      (∀ v, out = .ok v → zeroAddType.shape.Has v) ∧
      (∀ why, out = .error why → why ∈ Failure.nonconstructive) ∧
      (∃ n, ∀ fuel ≥ n, Program.finish .unlimited (e.typed.realizer.eval fuel Axiom.env) =
        out.mapError .failed) ∧
      (Program.evaluate .unlimited Axiom.env e.typed.realizer = out.mapError .failed ∨
        Program.evaluate .unlimited Axiom.env e.typed.realizer = .error (.stopped .killed)) := by
  obtain ⟨e, accepted, type⟩ : ∃ e, Accepted {} zeroAdd e ∧ e.typed.type = zeroAddType :=
    exists_accepted (by rw [Axiom.scope_eq]; decide +kernel)
  have avoids : zeroAdd.avoids ["sorry", "any"] = true := by decide +kernel
  have kinded : Always {} zeroAdd Event.Kinded :=
    zeroAdd_always (fun _ _ => trivial) (fun _ _ _ => trivial) (fun _ _ _ _ => trivial)
      (fun _ => trivial) (fun _ _ _ => trivial) (fun _ => rfl) trivial trivial
  rw [← type]
  exact ⟨e, accepted, avoids, kinded, accepted_computes accepted rfl avoids kinded⟩

def acceptedFailure? (cfg : Settings) (scope : Scope) (env : Env) (program : Syntax.Block) :
    Option RunError :=
  match elaborateProgram cfg scope program with
  | .ok e =>
    if e.hasErrors then none
    else match Program.evaluate .unlimited env e.typed.realizer with
      | .ok _ => none
      | .error why => some why
  | .error _ => none

theorem exists_failing {cfg : Settings} {program : Syntax.Block} {why : RunError}
    (h : acceptedFailure? cfg Axiom.scope Axiom.env program = some why) : ∃ e, Accepted cfg program e ∧
      Program.evaluate .unlimited Axiom.env e.typed.realizer = .error why := by
  unfold acceptedFailure? at h
  split at h
  next e run =>
    split at h
    case isTrue => cases h
    case isFalse clean =>
      split at h
      · cases h
      next failing =>
        cases h
        exact ⟨e, ⟨run, by simpa using clean⟩, failing⟩
  · cases h

/-- The program `return {n: eqRefl(0), p: eqRefl(0) as 0 == 0};`. -/
def proofAsNumber : Syntax.Block :=
  let reflexive := .call (.name (written "eqRefl")) (.numeral "0" none) none
  let statement := .binary .equal (.numeral "0" none) (.numeral "0" none) none
  ⟨[.leave .ret none (.record (written "n") reflexive (written "p")
    (.ascribe reflexive statement none) none) none], none⟩

/-- Nothing checks that the number in a pair is a number. -/
theorem proofAsNumber_fails : ∃ e, Accepted {} proofAsNumber e ∧
    proofAsNumber.avoids ["sorry", "any"] = true ∧ Program.evaluate .unlimited Axiom.env e.typed.realizer =
        .error (.failed .numberFieldNotNumber) := by
  have fails : acceptedFailure? {} Axiom.scope Axiom.env proofAsNumber =
      some (.failed .numberFieldNotNumber) := by
    rw [Axiom.scope_eq, Axiom.env_eq]
    decide +kernel
  obtain ⟨e, accepted, failing⟩ := exists_failing fails
  exact ⟨e, accepted, by decide +kernel, failing⟩

end Judgement
end Peano
