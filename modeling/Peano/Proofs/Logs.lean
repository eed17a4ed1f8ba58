import Peano.Proofs.Checking.Accepted
import Peano.Proofs.Checking.Correction
import Peano.Proofs.Checking.Exchange
import Peano.Proofs.Realizer.Shape
namespace Peano
open List

namespace Realizer

/-- A realizer after a definition is entered with what the definition adds. -/
theorem enter_after_cons (ev : Env → Realizer → Run Value) (env : Env) (r : Realizer) (b : Binding)
    (bs : List Binding) :
    (r.after (b :: bs)).enter ev env = b.bind ev env >>= fun env' => (r.after bs).enter ev env' := by
  cases b with
  | define x v =>
    rw [after, enter, Binding.bind, bind_assoc]
    simp only [pure_bind]
  | unpack n p v =>
    rw [after, enter, Binding.bind, bind_assoc]
    congr 1
    funext w
    cases w with
    | exist k w => exact (pure_bind _ _).symm
    | _ => rfl

end Realizer

namespace Program

variable {limit : Limit}

def lastEnvironment (limit : Limit) (start : Except RunError Env) (bs : List Binding) : Except RunError Env :=
  bs.foldl (fun env b => env.bind fun env => finish limit (b.bind (Realizer.eval (depth - 1)) env)) start

theorem environments_getElem? (limit : Limit) (start : Except RunError Env) (bs : List Binding) :
    (environments limit start bs)[bs.length]? = some (lastEnvironment limit start bs) := by
  induction bs generalizing start with
  | nil => rfl
  | cons b bs ih =>
    rw [environments, length_cons, getElem?_cons_succ, ih]
    rfl

theorem lastEnvironment_error (limit : Limit) (why : RunError) (bs : List Binding) :
    lastEnvironment limit (.error why) bs = .error why := by
  induction bs with
  | nil => rfl
  | cons b bs ih => exact ih

/-- Definitions may be evaluated once and for all before the rest is. -/
theorem evaluate_after (steady : limit.Steady) (env : Env) (r : Realizer) (bs : List Binding) :
    evaluate limit env (r.after bs) = (lastEnvironment limit (.ok env) bs).bind fun env => evaluate limit env r := by
  induction bs generalizing env with
  | nil => rfl
  | cons b bs ih =>
    have entered : (r.after (b :: bs)).eval depth env =
        b.bind (Realizer.eval (depth - 1)) env >>= fun env' => (r.after bs).eval depth env' :=
      Realizer.enter_after_cons _ env r b bs
    have keeps := Binding.bind_keeps (Realizer.eval_keeps steady (depth - 1)) env b
    rw [evaluate, entered, finish_bind keeps]
    show _ = (lastEnvironment limit (finish limit (b.bind (Realizer.eval (depth - 1)) env)) bs).bind _
    cases finish limit (b.bind (Realizer.eval (depth - 1)) env) with
    | error why =>
      rw [lastEnvironment_error]
      rfl
    | ok env' => exact ih env'

theorem runLog_environments (limit : Limit) (env : Env) (bs : List Binding) (r : Realizer) (type : Formula) :
    runLog limit (environments limit (.ok env) bs).toArray (.pending bs.length r type) =
      (lastEnvironment limit (.ok env) bs).bind fun env => (evaluate limit env r).map fun v => v.text (some type) := by
  have found : (environments limit (.ok env) bs).toArray.getD bs.length (.error (.failed .noRealizer)) =
      lastEnvironment limit (.ok env) bs := by
    rw [Array.getD_eq_getD_getElem?, getElem?_toArray, environments_getElem?, Option.getD_some]
  rw [runLog, found]
  rfl

end Program

namespace Judgement
open Syntax (Expr Block Statement Place Jump)

variable {cfg : Settings} {α β : Type}

section Growing

variable {x : Noting α}

/-- The definitions of the program that are noted are those that a block has come to since `bs`. -/
def Grows (bs : List Binding) (bindings : α → List Binding) (x : Noting α) : Prop :=
  ∀ n a m, x.run n = .ok (a, m) → ∃ new, bindings a = bs ++ new ∧ m.setup.toList = n.setup.toList ++ new

variable {bs : List Binding} {bindings : α → List Binding} {bindings' : β → List Binding}

theorem setup_kept {R : α → α → Prop} (quiet : Agree Nowhere false R x x) {n m : Notes} {a : α}
    (run : x.run n = .ok (a, m)) : m.setup = n.setup :=
  ((quiet n n a a m m run run).2.setup rfl).1

theorem Grows.pure {a : α} (same : bindings a = bs) : Grows bs bindings (pure a) := by
  rintro n _ _ ⟨⟩
  exact ⟨[], same.trans (append_nil bs).symm, (append_nil _).symm⟩

theorem Grows.after {R : α → α → Prop} {f : α → Noting β} (quiet : Agree Nowhere false R x x)
    (hf : ∀ a, Grows bs bindings' (f a)) : Grows bs bindings' (x >>= f) := by
  intro n b m run
  obtain ⟨a, k, first, second⟩ := run_bind_eq_ok.1 run
  rw [← setup_kept quiet first]
  exact hf a k b m second

theorem Grows.before {f : α → Noting β} (hx : Grows bs bindings x)
    (hf : ∀ a, Grows (bindings a) bindings' (f a)) : Grows bs bindings' (x >>= f) := by
  intro n b m run
  obtain ⟨a, k, first, second⟩ := run_bind_eq_ok.1 run
  obtain ⟨new, same, noted⟩ := hx n a k first
  obtain ⟨newer, same', noted'⟩ := hf a k b m second
  refine ⟨new ++ newer, ?_, ?_⟩
  · rw [same', same, append_assoc]
  · rw [noted', noted, append_assoc]

end Growing

section Steps

variable {block : Place} {ending : Jump} {require : Option Formula}
variable {n m : Notes}

/-- The definitions that a statement leads on with. A block that has ended has no more of them. -/
def leadsOn (bs : List Binding) : Progressed ⊕ Typed → List Binding
  | .inl after => after.bindings
  | .inr _ => bs

theorem bind_grows (b : Binding) (bs : List Binding) : Grows bs id (Judgement.bind true b bs) := by
  rintro n _ _ ⟨⟩
  exact ⟨[b], rfl, Array.toList_push⟩

theorem goOn_grows {bs : List Binding} (after : Progressed) :
    Grows after.bindings (leadsOn bs) (goOn cfg true after) :=
  .after (exerciseRule_couples (C := agreement Nowhere) cfg.exercise after.scope) fun _ => .pure rfl

theorem reported_grows {bs : List Binding} (place : Place) (failed : Option Error) (after : Progressed) :
    Grows after.bindings (leadsOn bs) (do
      reportAt place failed
      goOn cfg true after) := by
  cases failed with
  | none => exact goOn_grows after
  | some e => exact .after (Agree.note rfl) fun _ => goOn_grows after

theorem check_quiet (scope : Scope) (e : Expr) (require : Option Formula) :
    Agree Nowhere false (agreement Nowhere).Same (check cfg scope e require) (check cfg scope e require) :=
  (term_agrees e).check scope require

theorem defineRule_grows {visible : Place} (x : Syntax.Name) (t : Option Syntax.TypeExpr) (v : Expr)
    (before : Progressed) : Grows before.bindings (fun r => r.1.bindings)
      (defineRule true visible x t (check cfg before.scope v) before) := by
  refine .after (resolveOption_couples (C := agreement Nowhere) _ t) fun asserted => ?_
  refine .after (check_quiet before.scope v asserted) fun r => ?_
  refine .after (Agree.note rfl) fun _ => ?_
  cases Scope.tag (asserted.getD r.type) with
  | error why => exact .pure rfl
  | ok entry => exact (bind_grows _ _).before fun _ => .pure rfl

theorem destructureRule_grows {visible : Place} (x y : Syntax.Rename) (v : Expr) (before : Progressed) :
    Grows before.bindings (fun r => r.1.bindings)
      (destructureRule true visible x y (check cfg before.scope v none) before) := by
  refine .after (check_quiet before.scope v none) fun r => ?_
  split
  · refine .after (takeField_couples (C := agreement Nowhere) _ _ _ x _) fun one => ?_
    obtain ⟨one, failed⟩ := one
    cases failed with
    | some e => exact .pure rfl
    | none =>
      refine .after (takeField_couples (C := agreement Nowhere) _ _ _ y one) fun two => ?_
      obtain ⟨two, failed⟩ := two
      cases failed with
      | some e => exact .pure rfl
      | none =>
        dsimp only
        split
        · exact (bind_grows _ _).before fun _ => .pure rfl
        · exact .pure rfl
  · exact .pure rfl

/-- A statement notes the definition that it adds to the block. -/
theorem step_grows (before : Progressed) (s : Statement) : Grows before.bindings (leadsOn before.bindings)
    (step cfg true block ending require before s) := by
  cases s with
  | empty => exact .pure rfl
  | define d =>
    obtain ⟨x, t, v, place⟩ := d
    exact (defineRule_grows x t v before).before fun r => reported_grows place r.2 r.1
  | destructure x y v place =>
    exact (destructureRule_grows x y v before).before fun r => reported_grows place r.2 r.1
  | leave jump jumpPlace v place =>
    have value : Grows before.bindings (leadsOn before.bindings) (do
        let r ← check cfg before.scope v require
        return .inr ⟨r.type, r.realizer.after before.bindings⟩) :=
      .after (check_quiet before.scope v require) fun _ => .pure rfl
    rw [step]
    split
    · exact .after (Agree.note rfl) fun _ => value
    · exact value
  | switch sw =>
    have itself : Agreeing Nowhere cfg (.switch sw) (.switch sw) := switch_agrees sw
    refine .after ((itself ending).check before.scope require) fun r => ?_
    cases r with
    | ok r => exact .pure rfl
    | error e => exact .after (Agree.note rfl) fun _ => goOn_grows before
  | typedef x t place =>
    exact .after (resolveType_couples (C := agreement Nowhere) before.scope t) fun type => goOn_grows _
  | generic x ps t place =>
    exact .after (genericRuleFor_couples (C := agreement Nowhere) before.scope x ps t)
      fun r => reported_grows place r.2 _
  | log args place =>
    have itself : Agreeing Nowhere cfg (.terms args) (.terms args) := terms_agree args
    exact .after (itself true before before ⟨rfl, rfl, fun no => no.elim⟩) fun _ => goOn_grows before

theorem walk_grows {before after : Progressed} {ss : List Statement}
    (run : (walk cfg true block ending require before ss).run n = .ok (.inl after, m)) :
    ∃ new, after.bindings = before.bindings ++ new ∧ m.setup.toList = n.setup.toList ++ new := by
  induction ss generalizing before n with
  | nil =>
    cases run
    exact ⟨[], (append_nil _).symm, (append_nil _).symm⟩
  | cons s ss ih =>
    obtain ⟨a, k, first, second⟩ := run_bind_eq_ok.1 run
    cases a with
    | inl between =>
      obtain ⟨new, same, noted⟩ := step_grows before s n _ k first
      obtain ⟨newer, same', noted'⟩ := ih second
      refine ⟨new ++ newer, ?_, ?_⟩
      · rw [same', ← append_assoc, ← same]
        rfl
      · rw [noted', noted, append_assoc]
    | inr t => cases second

theorem compared_keeps {outcome : Except Formula.Incomparable α} {a : α}
    (run : (compared outcome).run n = .ok (a, m)) : m = n := by
  cases outcome with
  | error why => cases run
  | ok b =>
    cases run
    rfl

theorem exerciseRule_keeps {exercise : Option Exercise} {scope : Scope} {u : Unit}
    (run : (exerciseRule exercise scope).run n = .ok (u, m)) : m.records = n.records ∧ m.setup = n.setup := by
  unfold exerciseRule at run
  cases exercise with
  | none =>
    cases run
    exact ⟨rfl, rfl⟩
  | some e =>
    dsimp only at run
    split at run
    next t _ =>
      obtain ⟨typed, k, first, second⟩ := run_bind_eq_ok.1 run
      cases second
      rw [compared_keeps first]
      exact ⟨rfl, rfl⟩
    · cases run
      exact ⟨rfl, rfl⟩

/-- Without shortcuts and requirements a block has the value that its statements come to. -/
theorem recover_ok {place : Place} {isName : Bool} {inferred : Checking Typed} {t : Typed}
    (off : cfg.shortcuts = false) (run : inferred.run.run n = .ok (.ok t, m)) :
    (recover cfg place isName none inferred).run n = .ok (t, m) := by
  refine run_bind_eq_ok.2 ⟨_, _, run, ?_⟩
  have plain : finished cfg isName t.type t.realizer = pure t := by
    unfold finished
    rw [off]
    rfl
  exact congrArg (fun x : Noting Typed => x.run m) plain

end Steps

section Programs

variable {scope : Scope} {ss : List Statement} {e : Expr} {place q : Place} {logged : Elaborated}
variable {before after : Progressed} {n m l : Notes} {r : Progressed ⊕ Typed}

def Unended (cfg : Settings) (scope : Scope) (place : Place) (ss : List Statement) : Prop :=
  ∀ n t m, (walk cfg true place .ret none ⟨scope, []⟩ ss).run n ≠ .ok (.inr t, m)

def mayEnd : Statement → Bool
  | .leave .. | .switch _ => true
  | _ => false

theorem step_inl {s : Statement} (plain : mayEnd s = false)
    (run : (step cfg true place .ret none before s).run n = .ok (r, m)) : ∃ after, r = .inl after := by
  have goes {after : Progressed} {k : Notes} (run : (goOn cfg true after).run k = .ok (r, m)) :
      ∃ after, r = .inl after := by
    obtain ⟨_, _, -, done⟩ := run_bind_eq_ok.1 run
    cases done
    exact ⟨after, rfl⟩
  have reports {after : Progressed} {p : Place} {failed : Option Error} {k : Notes}
      (run : (reportAt p failed >>= fun _ => goOn cfg true after).run k = .ok (r, m)) :
      ∃ after, r = .inl after := by
    obtain ⟨_, _, -, run⟩ := run_bind_eq_ok.1 run
    exact goes run
  cases s with
  | empty =>
    cases run
    exact ⟨before, rfl⟩
  | define d =>
    obtain ⟨x, t, v, p⟩ := d
    obtain ⟨_, _, -, run⟩ := run_bind_eq_ok.1 run
    exact reports run
  | destructure x y v p | generic x ps t p =>
    obtain ⟨_, _, -, run⟩ := run_bind_eq_ok.1 run
    exact reports run
  | typedef x t p | log args p =>
    obtain ⟨_, _, -, run⟩ := run_bind_eq_ok.1 run
    exact goes run
  | leave | switch => cases plain

theorem unended_of_mayEnd (plain : ∀ s ∈ ss, mayEnd s = false) : Unended cfg scope place ss := by
  have walks (before : Progressed) : ∀ n t m,
      (walk cfg true place .ret none before ss).run n ≠ .ok (.inr t, m) := by
    induction ss generalizing before with
    | nil => exact fun n t m run => nomatch run
    | cons s ss ih =>
      intro n t m run
      obtain ⟨r, k, first, rest⟩ := run_bind_eq_ok.1 run
      obtain ⟨after, rfl⟩ := step_inl (plain s mem_cons_self) first
      exact ih (fun s' mem => plain s' (mem_cons_of_mem s mem)) after k t m rest
  exact walks _

def startNotes (place : Place) : Notes := Notes.add {} (.required place none (.jump .ret))

theorem elaborate_append {rest : List Statement} {t : Typed} (off : cfg.shortcuts = false)
    (walked : (walk cfg true place .ret none ⟨scope, []⟩ ss).run (startNotes place) = .ok (.inl after, m))
    (ended : (inferStatements cfg true place .ret none after rest).run m = .ok (.ok t, l)) :
    elaborateProgram cfg scope ⟨ss ++ rest, place⟩ = .ok ⟨t, l⟩ := by
  rw [elaborateProgram_eq_ok]
  refine recover_ok off ?_
  have run : (inferStatements cfg true place .ret none ⟨scope, []⟩ (ss ++ rest)).run (startNotes place) =
      .ok (.ok t, l) := by
    rw [inferStatements_append]
    exact run_bind_eq_ok.2 ⟨_, _, walked, ended⟩
  exact run

theorem step_log {ending : Jump} {require : Option Formula}
    (run : (step cfg true place ending require before (.log [e] q)).run n = .ok (r, l)) :
    r = .inl before ∧ ∃ t k, (check cfg before.scope e none).run n = .ok (t, k) ∧ l.setup = k.setup ∧
      l.records = k.records.push (.log e.place (.pending before.bindings.length t.realizer t.type)) := by
  obtain ⟨_, k₁, logs, goes⟩ := run_bind_eq_ok.1 run
  obtain ⟨t, k, checked, noted⟩ := run_bind_eq_ok.1 logs
  cases noted
  obtain ⟨_, k₂, kept, done⟩ := run_bind_eq_ok.1 goes
  cases done
  obtain ⟨records, setup⟩ := exerciseRule_keeps kept
  exact ⟨rfl, t, k, checked, setup, records⟩

theorem elaborate_logged (off : cfg.shortcuts = false) (unended : Unended cfg scope place ss)
    (ran : elaborateProgram cfg scope ⟨ss ++ [.log [e] q], place⟩ = .ok logged) : ∃ after m t k,
      (walk cfg true place .ret none ⟨scope, []⟩ ss).run (startNotes place) = .ok (.inl after, m) ∧
      (check cfg after.scope e none).run m = .ok (t, k) ∧ logged.notes.setup.toList = after.bindings ∧
      logged.records = k.records.toList ++ [.log e.place (.pending after.bindings.length t.realizer t.type)] := by
  have run := elaborateProgram_eq_ok.1 ran
  obtain ⟨r, l, inside, -⟩ := run_bind_eq_ok.1 run
  have inside' : (inferStatements cfg true place .ret none ⟨scope, []⟩ (ss ++ [.log [e] q])).run
      (startNotes place) = .ok (r, l) := inside
  rw [inferStatements_append] at inside'
  obtain ⟨a, m, walked, rest⟩ := run_bind_eq_ok.1 inside'
  cases a with
  | inr t => exact (unended _ t m walked).elim
  | inl after =>
    have ended := rest
    rw [Sum.elim_inl, inferStatements_cons] at rest
    obtain ⟨b, l', stepped, last⟩ := run_bind_eq_ok.1 rest
    obtain ⟨rfl, t, k, checked, setup, records⟩ := step_log stepped
    cases last
    cases ran.symm.trans (elaborate_append off walked ended)
    obtain ⟨new, same, noted⟩ := walk_grows walked
    refine ⟨after, m, t, k, walked, checked, ?_, ?_⟩
    · rw [setup, setup_kept (check_quiet after.scope e none) checked, same]
      exact noted
    · rw [Elaborated.records, records, Array.toList_push]

theorem elaborate_returned {k : Notes} {t : Typed} (off : cfg.shortcuts = false)
    (walked : (walk cfg true place .ret none ⟨scope, []⟩ ss).run (startNotes place) = .ok (.inl after, m))
    (checked : (check cfg after.scope e none).run m = .ok (t, k)) (jumpPlace q : Place) :
    elaborateProgram cfg scope ⟨ss ++ [.leave .ret jumpPlace e q], place⟩ =
      .ok ⟨⟨t.type, t.realizer.after after.bindings⟩, k⟩ := by
  refine elaborate_append off walked ?_
  rw [inferStatements_cons]
  refine run_bind_eq_ok.2 ⟨.inr _, k, ?_, rfl⟩
  exact run_bind_eq_ok.2 ⟨t, k, checked, rfl⟩

theorem neededSetup_last (setup : Array Binding) (logs : List Log) (r : Realizer) (t : Formula) :
    Program.neededSetup setup (logs ++ [.pending setup.toList.length r t]) = setup.toList := by
  unfold Program.neededSetup
  dsimp only
  rw [map_append, foldl_append]
  exact take_of_length_le (Nat.le_max_right _ _)

theorem logs_append {rs : List Record} {log : Log} (records : logged.records = rs ++ [.log place log]) :
    ∃ before, logged.logs = before ++ [(place, log)] := by
  rw [Elaborated.logs, records, filterMap_append]
  exact ⟨_, rfl⟩

/-- A program without shortcuts that ends with a log. If it is checked, so is the program that returns what
is logged, wherever its parts are, and the last log comes to what that program comes to: the same text, or
the same failure. -/
theorem last_log_is_result {limit : Limit} (steady : limit.Steady) (env : Env) (off : cfg.shortcuts = false)
    (unended : Unended cfg scope place ss)
    (ran : elaborateProgram cfg scope ⟨ss ++ [.log [e] q], place⟩ = .ok logged)
    (place' jumpPlace q' : Place) : ∃ returned,
      elaborateProgram cfg scope ⟨ss ++ [.leave .ret jumpPlace e q'], place'⟩ = .ok returned ∧
      (logged.tryLogs limit env).getLast? = some (e.place, returned.result limit env) := by
  obtain ⟨after, m, t, k, walked, checked, setup, records⟩ := elaborate_logged off unended ran
  have returned := elaborate_returned off walked checked jumpPlace q'
  obtain ⟨returned', ran', typed, -⟩ := @elaborateProgram_corrected .none cfg scope _
    ⟨ss ++ [.leave .ret jumpPlace e q'], place'⟩ _ returned (Suits.none _)
    (by rw [Block.corrected_none, Block.bare, Block.bare])
  refine ⟨returned', ran', ?_⟩
  obtain ⟨before, logs⟩ := logs_append records
  have needed : Program.neededSetup logged.notes.setup (logged.logs.map (·.2)) = after.bindings := by
    rw [logs, List.map_append, List.map_singleton, ← setup, neededSetup_last]
  rw [Elaborated.tryLogs, needed]
  dsimp only
  rw [logs, List.map_append, List.map_singleton, List.getLast?_append, List.getLast?_singleton,
    Option.some_or, Program.runLog_environments, Elaborated.result, typed, Program.evaluate_after steady]
  cases Program.lastEnvironment limit (.ok env) after.bindings with
  | error why | ok env' => rfl

/-- The statements `const k = 2; const {n: m, p: q} = {n: k, p: eqRefl(k) as n == k};`. -/
def twoDefinitions : List Statement :=
  let k := .name (written "k")
  let proof := .call (.name (written "eqRefl")) k none
  let statement := .binary .equal (.name (written "n")) (.name (written "k")) none
  [.define ⟨written "k", none, .numeral "2" none, none⟩,
    .destructure ⟨written "n", some (written "m")⟩ ⟨written "p", some (written "q")⟩
      (.record (written "n") k (written "p") (.ascribe proof statement none) none) none]

/-- After these `m + k` is four, logged or returned. -/
theorem twoDefinitions_log : ∃ logged returned,
    elaborateProgram {} Axiom.scope ⟨twoDefinitions ++
      [.log [.arith .add (.name (written "m")) (.name (written "k")) none] none], none⟩ = .ok logged ∧
    elaborateProgram {} Axiom.scope ⟨twoDefinitions ++
      [.leave .ret none (.arith .add (.name (written "m")) (.name (written "k")) none) none], none⟩ = .ok returned ∧
    logged.tryLogs .unlimited Axiom.env = [(none, .ok "4")] ∧
    returned.result .unlimited Axiom.env = .ok "4" := by
  have computed : comesTo {} Axiom.scope ⟨twoDefinitions ++
      [.log [.arith .add (.name (written "m")) (.name (written "k")) none] none], none⟩
      (fun logged => logged.tryLogs .unlimited Axiom.env == [(none, .ok "4")]) = true := by
    rw [Axiom.scope_eq, Axiom.env_eq]
    decide +kernel
  obtain ⟨logged, ran, computed⟩ := exists_of_comesTo computed
  have plain : ∀ s ∈ twoDefinitions, mayEnd s = false := by decide
  have steady : Limit.unlimited.Steady := (Limit.steady_iff _).2 (.inl rfl)
  obtain ⟨returned, ran', same⟩ := last_log_is_result steady Axiom.env rfl
    (unended_of_mayEnd plain) ran none none none
  have logs := eq_of_beq computed
  rw [logs] at same
  exact ⟨logged, returned, ran, ran', logs, (congrArg Prod.snd (Option.some.inj same)).symm⟩

end Programs

end Judgement

end Peano
