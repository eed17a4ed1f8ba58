import Peano.Proofs.Checking.CoupledChecks
import Peano.Proofs.Checking.Tracking
namespace Peano.Judgement
open List
open Syntax (Name Expr Definition Loop Block Switch Case Statement Place Jump Correction
  correctedStatements correctedExprs correctedCases caseLeaves statementLeaves exprLeaves
  bareStatements bareExprs bareCases)

variable {κ : Correction} {cfg : Settings}

/-- A correction changes statements only to the kind that is wanted of them. -/
def Suits (κ : Correction) (leaves : List (Place × Jump)) : Prop :=
  ∀ l ∈ leaves, ∀ j, κ l.1 = some j → j = l.2

namespace Suits

variable {a b : List (Place × Jump)}

theorem left (h : Suits κ (a ++ b)) : Suits κ a := fun l hl => h l (mem_append_left _ hl)

theorem right (h : Suits κ (a ++ b)) : Suits κ b := fun l hl => h l (mem_append_right _ hl)

theorem none (leaves : List (Place × Jump)) : Suits .none leaves := fun _ _ _ => nofun

end Suits

mutual

theorem check_tracked : (e : Expr) → Suits κ e.leaves → (tracking κ).Linked cfg e (e.corrected κ).bare
  | .name x, _ => name_linked x
  | .numeral digits p, _ => numeral_linked digits p
  | .generic f t p, _ => generic_linked f t p
  | .block b, suits => blockTerm_linked (block_tracked b .ret suits)
  | .lambda x d r b _, suits => lambda_linked x d r (check_tracked b suits).toTerms
  | .emptyCall f _, suits => emptyCall_linked (check_tracked f suits).heads
  | .call f a _, suits => call_linked (check_tracked f suits.left) (check_tracked a suits.right).toTerms
  | .record x v y w _, suits =>
    record_linked x y (check_tracked v suits.left).toTerms (check_tracked w suits.right)
  | .pair l r _, suits => pair_linked (check_tracked l suits.left).toTerms (check_tracked r suits.right).toTerms
  | .ascribe x t _, suits => ascribe_linked t (check_tracked x suits).toTerms
  | .member x field _, suits => member_linked field (check_tracked x suits).toTerms
  | .loop ⟨⟨i, iType, iValue, iPlace⟩, ⟨q, qType, qValue, qPlace⟩, compared, bound, cPlace, stepped,
      sPlace, body, _⟩, suits => by
    rw [Expr.leaves, Loop.leaves, Definition.leaves, Definition.leaves] at suits
    exact loop_linked i q compared stepped iType qType iPlace qPlace cPlace sPlace
      (check_tracked iValue suits.left.left.left).toTerms (check_tracked qValue suits.left.left.right).toTerms
      (check_tracked bound suits.left.right).toTerms (block_tracked body .next suits.right)
  | .switch s, suits => switchTerm_linked (switch_tracked s .stop suits)
  | .arith op l r _, suits =>
    arith_linked op (check_tracked l suits.left).toTerms (check_tracked r suits.right).toTerms

theorem block_tracked : (b : Block) → (ending : Jump) → Suits κ (b.leaves ending) →
    (tracking κ).Blocks cfg ending b (b.corrected κ).bare
  | ⟨ss, _⟩, ending, suits => block_coupled (statements_tracked ss ending suits)

theorem switch_tracked : (s : Switch) → (ending : Jump) → Suits κ (s.leaves ending) →
    (tracking κ).Switches cfg ending s (s.corrected κ).bare
  | ⟨subject, cases, _⟩, ending, suits =>
    switch_coupled (check_tracked subject suits.left).toTerms (cases_tracked cases ending suits.right)

theorem cases_tracked : (cs : List Case) → (ending : Jump) → Suits κ (caseLeaves ending cs) →
    List.Forall₂ ((tracking κ).Cases cfg ending) cs (bareCases (correctedCases κ cs))
  | [], _, _ => .nil
  | ⟨_, _, _, body, _⟩ :: rest, ending, suits =>
    .cons ⟨rfl, rfl, block_tracked body ending suits.left⟩ (cases_tracked rest ending suits.right)

theorem statement_tracked : (s : Statement) → (ending : Jump) → Suits κ (s.leaves ending) →
    (tracking κ).Steps cfg ending s (s.corrected κ).bare
  | .empty p, _, _ => empty_steps p none
  | .define ⟨x, t, v, _⟩, _, suits =>
    define_steps x t fun scope require _ => (check_tracked v suits).check scope require
  | .destructure x y v _, _, suits => destructure_steps x y (check_tracked v suits).toTerms
  | .leave _ q v _, ending, suits =>
    leave_steps ⟨rfl, suits (q, ending) mem_cons_self⟩
      (check_tracked v fun l hl => suits l (mem_cons_of_mem _ hl)).toTerms
  | .switch s, ending, suits => switch_steps (switch_tracked s ending suits)
  | .typedef x t p, _, _ => typedef_steps x t p
  | .generic x ps t p, _, _ => generic_steps x ps t p
  | .log args p, _, suits => log_steps (logs_tracked args suits) p none

theorem statements_tracked : (ss : List Statement) → (ending : Jump) → Suits κ (statementLeaves ending ss) →
    (tracking κ).Walks cfg ending ss (bareStatements (correctedStatements κ ss))
  | [], _, _ => walks_nil
  | s :: rest, ending, suits =>
    walks_cons (statement_tracked s ending suits.left) (statements_tracked rest ending suits.right)

theorem logs_tracked : (args : List Expr) → Suits κ (exprLeaves args) →
    (tracking κ).Logs cfg args (bareExprs (correctedExprs κ args))
  | [], _ => logs_nil
  | e :: rest, suits => logs_cons (check_tracked e suits.left).toTerms (logs_tracked rest suits.right)

end

section Programs

variable {scope : Scope} {program program' : Block} {e : Elaborated}

theorem elaborateProgram_eq_ok : elaborateProgram cfg scope program = .ok e ↔
    (checkBlock cfg scope true .ret program none).run {} = .ok (e.typed, e.notes) := by
  unfold elaborateProgram
  cases (checkBlock cfg scope true .ret program none).run {} with
  | error why => exact ⟨nofun, nofun⟩
  | ok r => exact ⟨fun h => by cases h; rfl, fun h => by cases h; rfl⟩

theorem program_tracked (cfg : Settings) (scope : Scope) (suits : Suits κ (program.leaves .ret)) :
    Tracks κ (repairsOf (program.leaves .ret)) (tracking κ).Same (checkBlock cfg scope true .ret program none)
      (checkBlock cfg scope true .ret (program.corrected κ).bare none) :=
  (block_tracked program .ret suits).check scope true none

variable (accepted : elaborateProgram cfg scope program = .ok e)

include accepted

theorem proposals_within : e.notes.proposals ≤ repairsOf (program.leaves .ret) := by
  have tracked := program_tracked cfg scope (Suits.none (program.leaves .ret)) {}
  rw [elaborateProgram_eq_ok.1 accepted] at tracked
  obtain ⟨-, -, -, spent, within, repairs⟩ := tracked
  rw [repairs]
  exact (zero_add spent).trans_le within

/-- Only complaints about the kinds of statements propose texts. -/
theorem proposal?_eq_repair? {r : Record} (mem : r ∈ e.records) : r.proposal? = r.repair? := by
  cases other : r.repair? with
  | some p =>
    unfold Record.repair? at other
    split at other
    · rw [← other]
      rfl
    · cases other
  | none =>
    by_contra proposed
    obtain ⟨p, proposed⟩ := Option.ne_none_iff_exists'.1 proposed
    have among : p ∈ repairsOf (program.leaves .ret) :=
      Multiset.mem_of_le (proposals_within accepted) (mem_filterMap.2 ⟨r, mem, proposed⟩)
    obtain ⟨l, -, rfl⟩ := mem_map.1 among
    unfold Record.proposal? at proposed
    split at proposed
    · cases other
    · cases proposed
    · cases proposed

/-- Every complaint about the kind of a statement is about a statement of its own. -/
theorem repairs_within : ↑(e.records.filterMap Record.repair?) ≤ repairsOf (program.leaves .ret) := by
  rw [← filterMap_congr fun r mem => proposal?_eq_repair? accepted mem]
  exact proposals_within accepted

/-- A corrected program, wherever its parts are, is checked as the program itself. -/
theorem elaborateProgram_corrected (suits : Suits κ (program.leaves .ret))
    (same : program'.bare = (program.corrected κ).bare) :
    ∃ e', elaborateProgram cfg scope program' = .ok e' ∧ e'.typed = e.typed ∧
      e'.notes.blurred .none = e.notes.blurred κ := by
  have tracked := program_tracked cfg scope suits {}
  rw [elaborateProgram_eq_ok.1 accepted, ← same] at tracked
  obtain ⟨t, ⟨type, realizer⟩, bare, -⟩ := tracked
  have typed : e.typed = t := congrArg₂ Typed.mk type (realizer trivial)
  have tracked' := program_tracked cfg scope (Suits.none (program'.leaves .ret)) {}
  rw [Block.corrected_none] at tracked'
  cases run : (checkBlock cfg scope true .ret program' none).run {} with
  | error why =>
    rw [run] at tracked'
    cases bare.symm.trans tracked'
  | ok r =>
    rw [run] at tracked'
    obtain ⟨t', ⟨type', realizer'⟩, bare', -⟩ := tracked'
    have typed' : r.1 = t' := congrArg₂ Typed.mk type' (realizer' trivial)
    have both := Except.ok.inj (bare'.symm.trans bare)
    refine ⟨⟨r.1, r.2⟩, elaborateProgram_eq_ok.2 run, ?_, congrArg Prod.snd both⟩
    rw [typed, typed']
    exact congrArg Prod.fst both

end Programs

end Peano.Judgement
