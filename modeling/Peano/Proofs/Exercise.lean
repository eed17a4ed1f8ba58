import Peano.Program.Compile
import Peano.Proofs.Diagnostic.Bag
import Peano.Proofs.Soundness
import Peano.Proofs.Syntax.Plain
namespace Peano
open List
open Resolve (binderEntry ofText)
open Bytes (ofString)

namespace Scope

/-- Only numbers and proofs have names. -/
def Local (s : Scope) : Prop :=
  ∀ x e, s.find? x = some e → e = .arithmetic (.var x) ∨ ∃ t, e = .proof t

theorem Local.insert_binder {s : Scope} (hs : s.Local) (x : String) (d : Formula) :
    (s.insert x (binderEntry x d)).Local := by
  refine forall_insert (P := fun x e => e = .arithmetic (.var x) ∨ ∃ t, e = .proof t) ?_ hs
  unfold binderEntry
  split
  · exact .inl rfl
  · exact .inr ⟨d, rfl⟩

end Scope

namespace Judgement
open Syntax (TypeExpr)

/-- A written statement speaks of numbers in scope only, and nowhere of `any`. -/
theorem stands_local : (t : TypeExpr) → ∀ {scope f}, Stands scope t f → scope.Local →
    f.anyFree ∧ ∀ x, f.mentions x → scope.find? x = some (.arithmetic (.var x))
  | .name x, scope, f, h, hs => by
    rcases stands_name h with rfl | rfl | found | found
    · exact ⟨rfl, nofun⟩
    · exact ⟨rfl, nofun⟩
    · rcases hs _ _ found with same | ⟨t, same⟩ <;> cases same
      refine ⟨rfl, fun y mentioned => ?_⟩
      have same : x.text = y := by simpa [Formula.mentions] using mentioned
      rw [← same, found]
    · rcases hs _ _ found with same | ⟨t, same⟩ <;> cases same
  | .numeral digits p, scope, f, h, hs => by
    rw [stands_numeral h]
    refine ⟨Formula.anyFree_numeral _, fun x mentioned => ?_⟩
    cases (Formula.mentions_numeral _ x).symm.trans mentioned
  | .binary op l r p, scope, f, h, hs => by
    obtain ⟨a, b, left, right, result⟩ := stands_binary h
    obtain ⟨freeA, boundA⟩ := stands_local l left hs
    obtain ⟨freeB, boundB⟩ := stands_local r right hs
    refine ⟨resolveBinary_anyFree freeA freeB result, fun x mentioned => ?_⟩
    have shape := resolveBinary_mem result
    simp only [mem_cons, not_mem_nil, or_false] at shape
    have either : a.mentions x ∨ b.mentions x := by
      rcases shape with rfl | rfl | rfl | rfl | rfl | rfl <;>
        simpa [Formula.not, Formula.mentions] using mentioned
    exact either.elim (boundA x) (boundB x)
  | .arrow x d c p, scope, f, h, hs => by
    obtain ⟨a, b, left, right, rfl⟩ := stands_arrow h
    obtain ⟨freeA, boundA⟩ := stands_local d left hs
    obtain ⟨freeB, boundB⟩ := stands_local c right (hs.insert_binder x.text a)
    refine ⟨anyFree_both freeA freeB, fun y mentioned => ?_⟩
    rcases Formula.mentions_arrow mentioned with mentioned | ⟨mentioned, other⟩
    · exact boundA y mentioned
    · have found := boundB y mentioned
      rw [Scope.find?_insert] at found
      split at found
      next same =>
        -- the binder itself is a number only if the arrow quantifies
        unfold binderEntry at found
        split at found
        next nat =>
          exact (other (Formula.isNat_iff.1 nat) same.symm).elim
        · cases found
      · exact found
  | .record x t y u p, scope, f, h, hs => by
    obtain ⟨s, -, right, rfl⟩ := stands_record h
    obtain ⟨free, bound⟩ := stands_local u right (hs.insert_binder x.text .nat)
    refine ⟨free, fun z mentioned => ?_⟩
    rw [Formula.mentions, Bool.and_eq_true, bne_iff_ne] at mentioned
    have found := bound z mentioned.2
    rwa [Scope.find?_insert, if_neg mentioned.1.symm] at found
  | .not t p, scope, f, h, hs => by
    obtain ⟨a, inside, rfl⟩ := stands_not h
    obtain ⟨free, bound⟩ := stands_local t inside hs
    refine ⟨anyFree_both (b := .never) free rfl, fun z mentioned => bound z ?_⟩
    refine (Formula.mentions_arrow mentioned).resolve_right ?_
    rintro ⟨⟨⟩, -⟩
  | .call g a p, scope, f, h, hs => by
    obtain ⟨b, inside, -, rfl⟩ := stands_call h
    obtain ⟨free, bound⟩ := stands_local a inside hs
    exact ⟨free, bound⟩
  | .generic g args p, scope, f, h, hs => by
    obtain ⟨params, body, found, -, -⟩ := stands_generic h
    rcases hs _ _ found with same | ⟨t, same⟩ <;> cases same

/-- A goal that was written by itself. -/
theorem stands_closed {t : TypeExpr} {goal : Formula} (h : Stands [] t goal) :
    goal.anyFree ∧ ∀ x, goal.mentions x = false := by
  obtain ⟨free, bound⟩ := stands_local t h nofun
  refine ⟨free, fun x => ?_⟩
  rw [Bool.eq_false_iff]
  intro mentioned
  cases bound x mentioned

def Finding.Reaches (ok : Event → Prop) : Finding → Prop
  | .block _ _ _ _ seen _ | .statements _ _ _ _ seen _ => ∀ s ∈ seen, ok (.reached s)
  | _ => True

theorem Passes.reaches {cfg : Settings} {ok : Event → Prop} {j : Finding} (h : Passes cfg ok j) :
    j.Reaches ok := by
  induction h with
  | body _ _ _ ih | skip _ ih => exact ih
  | fallOff | leave | leaveBy => exact nofun
  | next _ reached _ _ _ ih => exact forall_mem_cons.2 ⟨reached, ih⟩
  | _ => trivial

/-- Tidy, and where the name of the exercise has a statement, that is compared with the goal for good
reasons. -/
def Event.TidyFor (exercise : Exercise) (ev : Event) : Prop :=
  ev.Tidy ∧ ∀ scope t, ev = .reached scope → scope.find? exercise.name = some (.proof t) →
    t.aligned exercise.statement = true

theorem exercise_holds {cfg : Settings} {ok : Event → Prop} {program : Syntax.Block}
    {seen : List Scope} {t : Typed} {exercise : Exercise}
    (passes : Passes cfg ok (.block Axiom.scope true program none seen t))
    (free : ∀ ev, ok ev → ev.AnyFree) (tidy : ∀ ev, ok ev → ev.TidyFor exercise)
    (goal : exercise.statement.anyFree) {scope : Scope} (on : scope ∈ seen) {s : Formula}
    (found : scope.find? exercise.name = some (.proof s)) (fits : Fits s exercise.statement) :
    ∃ σ, exercise.statement.Holds σ := by
  have concludes := passes.holds free (fun ev h => (tidy ev h).1) (fun _ => rfl) (fun _ => 0)
    (Axiom.scope_holds _)
  obtain ⟨σ, holds⟩ := concludes.reached scope on
  have reached := passes.reaches scope on
  have known : s.anyFree := (free _ reached _ _ found).resolve_right fun any => by cases any.2
  have straight := (tidy _ reached).2 scope s rfl found
  exact ⟨σ, ((Formula.alike_of_equal fits known goal).holds_iff straight σ).1 (holds _ _ found)⟩

end Judgement

namespace Program
open Judgement (Always Stands Event)

variable {given : Option Exercise} {exercise : Judgement.Exercise}
variable {read : Except Syntax.SyntaxError Syntax.Block} {goal : Formula}

/-- The bag of a checked program has errors if the check has. -/
theorem bag_hasErrors (fileId : UInt32) (limit : Int) (e : Judgement.Elaborated) :
    ((Diagnostic.Bag.make limit).addAll (e.records.filterMap (diagnostic? fileId))).sort.hasErrors =
      e.hasErrors := by
  have errors : ∀ d ∈ e.records.filterMap (diagnostic? fileId), d.severity = .error := by
    intro d hd
    obtain ⟨r, -, made⟩ := mem_filterMap.1 hd
    cases r with
    | error place why fix => cases made; rfl
    | _ => cases made
  have silent : e.records.filterMap (diagnostic? fileId) = [] ↔ e.hasErrors = false := by
    rw [filterMap_eq_nil_iff, Judgement.Elaborated.hasErrors, any_eq_false]
    refine forall₂_congr fun r _ => ?_
    cases r <;> simp [diagnostic?, Judgement.Record.isError]
  rw [Diagnostic.Bag.hasErrors_sort]
  cases clean : e.hasErrors with
  | false =>
    rw [silent.2 clean]
    rfl
  | true =>
    rw [← Bool.not_eq_false]
    intro none
    cases clean.symm.trans (silent.1 (Diagnostic.Bag.eq_nil_of_hasErrors errors none))

theorem verdict_solved {progress : Option Judgement.Progress} (solved : (exerciseVerdict given progress).2) :
    ∃ p, progress = some p ∧ p.isTyped ∧ p.sorryUsed = false := by
  unfold exerciseVerdict at solved
  split at solved
  · split at solved
    · cases solved
    split at solved
    · cases solved
    split at solved
    · cases solved
    · simp_all
  · cases solved

theorem compileRead_solved {fileId : UInt32} {file : Source.File} {options : Options} {c : Compiled}
    (compiled : compileRead fileId file options (some exercise) read = .ok c) (clean : c.hasErrors = false)
    (solved : (c.verdict given).2) : ∃ program e, read = .ok program ∧
      Judgement.elaborateProgram ⟨options.shortcuts, some exercise⟩ Axiom.scope program = .ok e ∧
      e.hasErrors = false ∧ e.notes.solves ∧ e.notes.progress.sorryUsed = false := by
  obtain ⟨progress, known, typed, honest⟩ := verdict_solved solved
  unfold compileRead at compiled
  split at compiled
  · cases compiled
    cases known
  next program =>
    unfold checkProgram at compiled
    split at compiled
    · cases compiled
    next e run =>
      have cleanBag : e.hasErrors = false ∧ c.exercise = some e.notes.progress := by
        split at compiled <;> cases compiled <;> exact ⟨(bag_hasErrors _ _ e).symm.trans clean, rfl⟩
      cases cleanBag.2.symm.trans known
      exact ⟨program, e, rfl, run, cleanBag.1, typed, honest⟩

def solves (cfg : Judgement.Settings) (scope : Scope) (program : Syntax.Block) : Bool :=
  match Judgement.elaborateProgram cfg scope program with
  | .ok e => !e.hasErrors && e.notes.progress == ⟨false, true, true⟩
  | .error _ => false

theorem exists_solved {program : Syntax.Block} (options : Options)
    (h : solves ⟨options.shortcuts, some exercise⟩ Axiom.scope program) (fileId : UInt32)
    (file : Source.File) (given : Exercise) :
    ∃ c, compileRead fileId file options (some exercise) (.ok program) = .ok c ∧
      c.hasErrors = false ∧ (c.verdict (some given)).2 := by
  unfold solves at h
  split at h
  next e run =>
    simp only [Bool.and_eq_true, Bool.not_eq_true', beq_iff_eq] at h
    unfold compileRead checkProgram
    simp only [run]
    split
    all_goals
      refine ⟨_, rfl, (bag_hasErrors fileId _ e).trans h.1, ?_⟩
      simp [Compiled.verdict, exerciseVerdict, h.2]
  · cases h

theorem ofText_of_toOption {content : Bytes} (h : (ofText content).toOption = some goal) :
    ofText content = .ok goal := by
  cases read : ofText content with
  | ok t =>
    rw [read] at h
    exact congrArg Except.ok (Option.some.inj h)
  | error e =>
    rw [read] at h
    cases h

theorem ofText_stands {content : Bytes} (h : ofText content = .ok goal) : ∃ t, Stands [] t goal := by
  unfold ofText at h
  split at h
  · cases h
  next t _ =>
    split at h
    next resolved =>
      cases h
      exact ⟨t, resolved⟩
    · cases h

theorem compile_eq {given : Exercise} (resolved : ofText (ofString given.type) = .ok goal)
    (fileId : UInt32) (file : Source.File) (options : Options) : compile fileId file options (some given) =
      compileRead fileId file options (some ⟨given.name, goal⟩) (Syntax.readProgram file.content) := by
  have known : resolveExercise (some given) = .ok (some ⟨given.name, goal⟩) := by
    simp only [resolveExercise, resolved]
  rw [compile, known]
  rfl

/-- A goal that a program proves under the name of the exercise, without errors, is true. The program
must not read `any`, and what comes up when it is checked must be tidy. -/
theorem solved_exercise_holds {fileId : UInt32} {file : Source.File} {options : Options}
    {given : Exercise} {c : Compiled} {goal : Formula}
    (compiled : compile fileId file options (some given) = .ok c)
    (resolved : Resolve.ofText (Bytes.ofString given.type) = .ok goal) (clean : c.hasErrors = false)
    (solved : (c.verdict (some given)).2 = true)
    (tidy : ∀ program, Syntax.readProgram file.content = .ok program → program.avoids ["any"] = true ∧
        Always ⟨options.shortcuts, some ⟨given.name, goal⟩⟩ program (Event.TidyFor ⟨given.name, goal⟩))
    (ρ : String → Nat) : goal.Holds ρ := by
  rw [compile_eq resolved] at compiled
  obtain ⟨t, stands⟩ := ofText_stands resolved
  obtain ⟨free, closed⟩ := Judgement.stands_closed stands
  obtain ⟨program, e, read, run, clean, typed, honest⟩ := compileRead_solved compiled clean solved
  obtain ⟨avoids, tidy⟩ := tidy program read
  obtain ⟨seen, passes, earns⟩ :=
    Judgement.elaborateProgram_passes run clean fun _ : true = true => honest
  obtain ⟨passes, -⟩ := (tidy _ _ _ passes).anyFree (by simp) (.inl fun h => h.1 rfl rfl) avoids
    ⟨Scope.AnyFree.axioms, Judgement.anyFree_none⟩
  rcases earns typed with unsolved | ⟨exercise, named, scope, on, s, found, fits⟩
  · cases unsolved
  · cases named
    obtain ⟨σ, holds⟩ := Judgement.exercise_holds passes (fun _ h => h.2) (fun _ h => h.1.2) free on
      found fits
    exact Formula.holds_of_closed closed holds ρ

/-- The file `const f = eqRefl(0);`. -/
def reflexiveFile : Source.File where
  path := "f"
  content := ofString "const f = eqRefl(0);"
  flags := ⟨true, false, false, false⟩

def reflexive : Syntax.Block :=
  ⟨[.define ⟨⟨"f", some ⟨6, 7⟩⟩, none, .call (.name ⟨"eqRefl", some ⟨10, 16⟩⟩)
    (.numeral "0" (some ⟨17, 18⟩)) (some ⟨10, 19⟩), some ⟨0, 20⟩⟩], some ⟨0, 20⟩⟩

theorem reflexive_read : Syntax.readProgram reflexiveFile.content = .ok reflexive :=
  Syntax.readProgram_plain (by decide +kernel)

/-- To prove `0 == 0` under the name `f`. -/
def reflexiveGoal : Exercise := ⟨"f", "0 == 0"⟩

theorem reflexiveGoal_read : ofText (ofString reflexiveGoal.type) = .ok (.eq .zero .zero) := by
  have read : (ofText (ofString reflexiveGoal.type)).toOption = some (.eq .zero .zero) := by
    decide +kernel
  exact ofText_of_toOption read

theorem reflexive_always {cfg : Judgement.Settings} {P : Event → Prop}
    (inferred : ∀ scope t, P (.checked scope none t))
    (substituted : ∀ t x u, t.captureFree x u → P (.substituted t x u))
    (reached : P (.reached (Axiom.scope.insert "f" (.proof (.eq .zero .zero)))))
    (concluded : P (.concluded true [] .any)) : Always cfg reflexive P := by
  have law : Judgement.Infers cfg P Axiom.scope (.name ⟨"eqRefl", some ⟨10, 16⟩⟩) none
      (.arrow "x" .nat (.eq (.var "x") (.var "x"))) :=
    Judgement.infers_name (by decide) (.inl (by rw [Axiom.scope_eq]; decide +kernel))
  have zero : Judgement.Infers cfg P Axiom.scope (.numeral "0" (some ⟨17, 18⟩)) none .zero :=
    Judgement.infers_numeral
  have value : Judgement.Infers cfg P Axiom.scope (.call (.name ⟨"eqRefl", some ⟨10, 16⟩⟩)
      (.numeral "0" (some ⟨17, 18⟩)) (some ⟨10, 19⟩)) none (.eq .zero .zero) :=
    Judgement.infers_instance rfl (law.settles nofun (inferred _ _)) (zero.settles nofun (inferred _ _))
      (substituted _ _ _ (by decide +kernel)) (by decide +kernel)
  exact (Judgement.settlesAll_define (value.settles nofun (inferred _ _)) rfl Judgement.settlesAll_nil
    reached concluded).always

theorem reflexive_solved : ∃ c, compile 0 reflexiveFile {} (some reflexiveGoal) = .ok c ∧
    Resolve.ofText (Bytes.ofString reflexiveGoal.type) = .ok (.eq .zero .zero) ∧ c.hasErrors = false ∧
      (c.verdict (some reflexiveGoal)).2 = true ∧ ∀ ρ, (Formula.eq .zero .zero).Holds ρ := by
  have run : solves ⟨false, some ⟨"f", .eq .zero .zero⟩⟩ Axiom.scope reflexive = true := by
    rw [Axiom.scope_eq]
    decide +kernel
  obtain ⟨c, compiled, clean, solved⟩ := exists_solved {} run 0 reflexiveFile reflexiveGoal
  have read := congrArg (compileRead 0 reflexiveFile {} (some ⟨"f", .eq .zero .zero⟩)) reflexive_read
  have compiled : compile 0 reflexiveFile {} (some reflexiveGoal) = .ok c :=
    (compile_eq reflexiveGoal_read 0 reflexiveFile {}).trans (read.trans compiled)
  refine ⟨c, compiled, reflexiveGoal_read, clean, solved, ?_⟩
  refine solved_exercise_holds compiled reflexiveGoal_read clean solved fun program read => ?_
  cases reflexive_read.symm.trans read
  refine ⟨by decide +kernel, reflexive_always (fun _ _ => ⟨nofun, nofun⟩)
    (fun _ _ _ free => ⟨free, nofun⟩) ⟨trivial, ?_⟩ ⟨nofun, nofun⟩⟩
  rintro scope t ⟨⟩ ⟨⟩
  rfl

/-- The file `const f: any = 0;`. -/
def anythingFile : Source.File where
  path := "f"
  content := ofString "const f: any = 0;"
  flags := ⟨true, false, false, false⟩

def anything : Syntax.Block :=
  ⟨[.define ⟨⟨"f", some ⟨6, 7⟩⟩, some (.name ⟨"any", some ⟨9, 12⟩⟩), .numeral "0" (some ⟨15, 16⟩),
    some ⟨0, 17⟩⟩], some ⟨0, 17⟩⟩

theorem anything_read : Syntax.readProgram anythingFile.content = .ok anything :=
  Syntax.readProgram_plain (by decide +kernel)

/-- To prove `0 == 1` under the name `f`. -/
def absurdGoal : Exercise := ⟨"f", "0 == 1"⟩

theorem absurdGoal_read : ofText (ofString absurdGoal.type) = .ok (.eq .zero (.succ .zero)) := by
  have read : (ofText (ofString absurdGoal.type)).toOption =
      some (.eq .zero (.succ .zero)) := by
    decide +kernel
  exact ofText_of_toOption read

/-- With `any` a goal is taken for solved that is false. -/
theorem anything_solves : ∃ c, compile 0 anythingFile {} (some absurdGoal) = .ok c ∧
    Resolve.ofText (Bytes.ofString absurdGoal.type) = .ok (.eq .zero (.succ .zero)) ∧
      c.hasErrors = false ∧ (c.verdict (some absurdGoal)).2 = true ∧
        ∀ ρ, ¬ (Formula.eq .zero (.succ .zero)).Holds ρ := by
  have run : solves ⟨false, some ⟨"f", .eq .zero (.succ .zero)⟩⟩ Axiom.scope anything = true := by
    rw [Axiom.scope_eq]
    decide +kernel
  obtain ⟨c, compiled, clean, solved⟩ := exists_solved {} run 0 anythingFile absurdGoal
  have read := congrArg (compileRead 0 anythingFile {} (some ⟨"f", .eq .zero (.succ .zero)⟩)) anything_read
  have compiled : compile 0 anythingFile {} (some absurdGoal) = .ok c :=
    (compile_eq absurdGoal_read 0 anythingFile {}).trans (read.trans compiled)
  exact ⟨c, compiled, absurdGoal_read, clean, solved, fun ρ => nofun⟩

end Program
end Peano
