import Peano.Proofs.Batch.Cache
import Peano.Proofs.Checking.Correction
import Peano.Proofs.Diagnostic.KeywordEdits
import Peano.Proofs.Source.Unchanged
namespace Peano
open List

namespace Judgement
open Record (Repair)
open Source (Extent)
open Syntax (Correction Jump Place)

namespace Record

/-- The kind of statement that a repair asks for at a place. -/
def wanted? (place : Place) : Repair → Option Jump
  | (p, .jump j, _) => if p = place then some j else none
  | _ => none

theorem wanted?_eq_some_iff {place : Place} {j : Jump} {r : Repair} :
    wanted? place r = some j ↔ ∃ fix, r = (place, .jump j, fix) := by
  obtain ⟨p, wanted, fix⟩ := r
  cases wanted with
  | value | jump j' => simp [wanted?]

def repairs (records : List Record) : List Repair := records.filterMap repair?

end Record

open Record (repairs)

/-- What complaints about statements ask for, by the places of their keywords. -/
def corrections (records : List Record) : Correction := fun place =>
  (repairs records).findSome? (Record.wanted? place)

section Corrections

variable {records : List Record} {leaves : List (Place × Jump)} {places : List Extent}

theorem exists_leaf_of_repair (within : ↑(repairs records) ≤ repairsOf leaves) {r : Repair}
    (mem : r ∈ repairs records) : ∃ l ∈ leaves, r = (l.1, .jump l.2, some l.2.text) := by
  have here : r ∈ repairsOf leaves := Multiset.mem_of_le within mem
  obtain ⟨l, hl, rfl⟩ := mem_map.1 here
  exact ⟨l, hl, rfl⟩

theorem leaf_unique (once : (leaves.map Prod.fst).Nodup) {l l' : Place × Jump} (hl : l ∈ leaves)
    (hl' : l' ∈ leaves) (same : l.1 = l'.1) : l = l' :=
  inj_on_of_nodup_map once hl hl' same

variable (within : ↑(repairs records) ≤ repairsOf leaves)

include within

theorem mem_of_corrections {place : Place} {j : Jump} (h : corrections records place = some j) :
    (place, .jump j, some j.text) ∈ repairs records ∧ (place, j) ∈ leaves := by
  obtain ⟨r, mem, wanted⟩ := exists_of_findSome?_eq_some h
  obtain ⟨fix, rfl⟩ := Record.wanted?_eq_some_iff.1 wanted
  obtain ⟨l, hl, same⟩ := exists_leaf_of_repair within mem
  cases same
  exact ⟨mem, hl⟩

theorem corrections_of_mem (once : (leaves.map Prod.fst).Nodup) {l : Place × Jump} (hl : l ∈ leaves)
    (mem : (l.1, .jump l.2, some l.2.text) ∈ repairs records) : corrections records l.1 = some l.2 := by
  cases found : corrections records l.1 with
  | none =>
    have nothing := findSome?_eq_none_iff.1 found _ mem
    rw [Record.wanted?_eq_some_iff.2 ⟨_, rfl⟩] at nothing
    cases nothing
  | some j =>
    have same := leaf_unique once (mem_of_corrections within found).2 hl rfl
    rw [← same]

theorem suits_corrections (once : (leaves.map Prod.fst).Nodup) : Suits (corrections records) leaves := by
  intro l hl j found
  have same := leaf_unique once (mem_of_corrections within found).2 hl rfl
  rw [← same]

theorem corrections_isSome (once : (leaves.map Prod.fst).Nodup) {place : Place} {wanted : Ending}
    {fix : Option String} (mem : (place, wanted, fix) ∈ repairs records) : (corrections records place).isSome := by
  obtain ⟨l, hl, same⟩ := exists_leaf_of_repair within mem
  cases same
  rw [corrections_of_mem within once hl mem]
  rfl

theorem repairs_perm (keywords : (leaves.map Prod.fst).Perm (places.map some)) (once : places.Nodup) :
    (repairs records).Perm (places.filterMap fun e =>
      (corrections records (some e)).map fun j => (some e, .jump j, some j.text)) := by
  have distinct : (leaves.map Prod.fst).Nodup :=
    keywords.nodup_iff.2 (once.map (Option.some_injective _))
  have left : (repairs records).Nodup := by
    have whole : (repairsOf leaves).Nodup := by
      refine List.Nodup.of_map Prod.fst ?_
      rwa [map_map]
    exact Multiset.coe_nodup.1 (Multiset.nodup_of_le within whole)
  refine (perm_ext_iff_of_nodup left (once.filterMap ?_)).2 fun r => ?_
  · intro e e' r made made'
    obtain ⟨j, -, rfl⟩ := Option.map_eq_some_iff.1 made
    obtain ⟨j', -, same⟩ := Option.map_eq_some_iff.1 made'
    exact (Option.some.inj (congrArg Prod.fst same)).symm
  · rw [mem_filterMap]
    constructor
    · intro mem
      obtain ⟨l, hl, rfl⟩ := exists_leaf_of_repair within mem
      obtain ⟨e, he, same⟩ := mem_map.1 (keywords.subset (mem_map_of_mem hl))
      refine ⟨e, he, ?_⟩
      rw [same, corrections_of_mem within distinct hl mem]
      rfl
    · rintro ⟨e, -, made⟩
      obtain ⟨j, found, rfl⟩ := Option.map_eq_some_iff.1 made
      exact (mem_of_corrections within found).1

end Corrections

section Complaints

/-- One code is for statements of the wrong kind alone. -/
theorem Error.decide_code (e : Error) : decide (e.code = .wrongReturnKind) = e.isEnding := by
  cases e with
  | type e => cases e <;> rfl
  | untaggable why => cases why <;> rfl
  | _ => rfl

def Record.complaint? : Record → Option (Diagnostic.Code × String)
  | .error _ e _ => some (e.code, e.message)
  | _ => none

theorem Record.complaint?_unplaced (r : Record) : (r.blurred? .none).bind complaint? = r.complaint? := by
  cases r with
  | error place e fix => simp [blurred?, Correction.none, complaint?]
  | _ => rfl

theorem Record.complaint?_corrected {κ : Correction} {r : Record}
    (corrected : ∀ p, r.repair? = some p → (κ p.1).isSome) :
    (r.blurred? κ).bind complaint? = r.complaint?.filter (·.1 ≠ .wrongReturnKind) := by
  cases r with
  | error place e fix =>
    have code := e.decide_code
    cases ending : e.isEnding with
    | false =>
      rw [ending] at code
      simp [blurred?_error ending, complaint?, Option.filter, of_decide_eq_false code]
    | true =>
      cases e with
      | wrongEnding wanted got =>
        simp [blurred?, Error.isEnding, corrected _ rfl, complaint?, Option.filter, Error.code]
      | _ => cases ending
  | _ => rfl

end Complaints

end Judgement

namespace Program
open Batch (twoErrors twoErrorsFile twoErrors_read)
open Diagnostic (Edit applyEdits? keywordEdit? applyEdits?_keywordEdits exitsFrom_increasing text_ne_nil)
open Judgement (Record Elaborated Settings corrections elaborateProgram elaborateProgram_corrected
  repairs_within suits_corrections)
open Judgement.Record (Repair repairs)
open Source (Extent File content_make isNormalized_reword)
open Syntax (Block Correction exits reword readProgram readProgram_eq_ok_iff
  readProgram_reword)

def diagnostics (file : UInt32) (records : List Record) : List Diagnostic :=
  records.filterMap (diagnostic? file)

def keywordEdits (file : UInt32) (records : List Record) : List Edit :=
  ((diagnostics file records).filter (·.code = .wrongReturnKind)).flatMap fun d =>
    d.fixes.flatMap (·.edits)

def complaints (file : UInt32) (records : List Record) : List (Diagnostic.Code × String) :=
  (diagnostics file records).map fun d => (d.code, d.message)

section Edits

variable {file : UInt32} {records : List Record}

def repairEdit? (file : UInt32) (r : Repair) : Option Edit := r.2.2.map fun text => ⟨spanOf file r.1, text⟩

theorem keywordEdits_eq : keywordEdits file records = (repairs records).filterMap (repairEdit? file) := by
  induction records with
  | nil => rfl
  | cons r rest ih =>
    cases r with
    | error place e fix =>
      have split : keywordEdits file (.error place e fix :: rest) =
          (if e.isEnding then (fix.map fun text => (⟨spanOf file place, text⟩ : Edit)).toList else []) ++
            keywordEdits file rest := by
        simp only [keywordEdits, diagnostics, diagnostic?, filterMap_cons, filter_cons,
          Judgement.Error.decide_code]
        cases e.isEnding with
        | false => rfl
        | true => cases fix <;> rfl
      rw [split, ih]
      unfold repairs
      rw [filterMap_cons]
      cases ending : e.isEnding with
      | false =>
        rw [Record.repair?_error ending]
        rfl
      | true =>
        cases e with
        | wrongEnding wanted got => cases fix <;> rfl
        | _ => cases ending
    | _ => exact ih

theorem exits_nodup (content : Bytes) : (exits content).Nodup := by
  apply (exitsFrom_increasing (text_ne_nil content)).imp
  rintro a b before rfl
  exact Nat.lt_irrefl _ before

theorem complaints_eq : complaints file records = records.filterMap Record.complaint? := by
  rw [complaints, diagnostics, map_filterMap]
  refine filterMap_congr fun r _ => ?_
  cases r <;> rfl

theorem complaints_corrected {file' : UInt32} {records' : List Record} {κ : Correction}
    (same : records'.filterMap (Record.blurred? .none) = records.filterMap (Record.blurred? κ))
    (corrected : ∀ p ∈ repairs records, (κ p.1).isSome) :
    complaints file' records' = (complaints file records).filter (·.1 ≠ .wrongReturnKind) := by
  calc complaints file' records'
      = (records'.filterMap (Record.blurred? .none)).filterMap Record.complaint? := by
        rw [complaints_eq, filterMap_filterMap]
        simp only [Record.complaint?_unplaced]
    _ = records.filterMap fun r => (r.blurred? κ).bind Record.complaint? := by
        rw [same, filterMap_filterMap]
    _ = records.filterMap fun r => r.complaint?.filter (·.1 ≠ .wrongReturnKind) := by
        refine filterMap_congr fun r mem => Record.complaint?_corrected fun p wrong => ?_
        exact corrected p (mem_filterMap.2 ⟨r, mem, wrong⟩)
    _ = (complaints file records).filter (·.1 ≠ .wrongReturnKind) := by
        rw [complaints_eq, filter_filterMap]

end Edits

section Programs

variable {content : Bytes} {cfg : Settings} {scope : Scope} {program : Block} {e : Elaborated}

/-- The keywords of a program that are to be changed are changed by just one edit each. -/
theorem keywordEdits_perm (file : UInt32) (read : readProgram content = .ok program)
    (accepted : elaborateProgram cfg scope program = .ok e) : (keywordEdits file e.records).Perm
      ((exits content).filterMap (keywordEdit? (corrections e.records) file)) := by
  obtain ⟨-, -, -, keywords⟩ := readProgram_reword .none read
  have within : ↑(repairs e.records) ≤ Judgement.repairsOf (program.leaves .ret) := repairs_within accepted
  have made := (Judgement.repairs_perm within (keywords .ret) (exits_nodup content)).filterMap
    (repairEdit? file)
  have same : ∀ place : Extent, ((corrections e.records (some place)).map fun j =>
      ((some place, .jump j, some j.text) : Repair)).bind (repairEdit? file) =
        keywordEdit? (corrections e.records) file place := by
    intro place
    rw [keywordEdit?]
    cases corrections e.records (some place) <;> rfl
  rw [filterMap_filterMap] at made
  simp only [same] at made
  rwa [keywordEdits_eq]

theorem applyEdits?_keywordFixes (file : UInt32) (small : content.length < 2 ^ 32)
    (read : readProgram content = .ok program) (accepted : elaborateProgram cfg scope program = .ok e) :
    applyEdits? content (keywordEdits file e.records) = some (reword (corrections e.records) content) :=
  applyEdits?_keywordEdits small (keywordEdits_perm file read accepted)

/-- A program with the fixes made is read and checked as before. -/
theorem checked_reworded (read : readProgram content = .ok program)
    (accepted : elaborateProgram cfg scope program = .ok e) : ∃ program' e',
      readProgram (reword (corrections e.records) content) = .ok program' ∧
      program'.bare = (program.corrected (corrections e.records)).bare ∧
      elaborateProgram cfg scope program' = .ok e' ∧ e'.typed = e.typed ∧
      ∀ file file', complaints file' e'.records =
        (complaints file e.records).filter (·.1 ≠ .wrongReturnKind) := by
  obtain ⟨program', read', bare, keywords⟩ := readProgram_reword (corrections e.records) read
  have within : ↑(repairs e.records) ≤ Judgement.repairsOf (program.leaves .ret) := repairs_within accepted
  have once : ((program.leaves .ret).map Prod.fst).Nodup :=
    (keywords .ret).nodup_iff.2 ((exits_nodup content).map (Option.some_injective _))
  obtain ⟨e', accepted', typed, notes⟩ :=
    elaborateProgram_corrected accepted (suits_corrections within once) bare
  refine ⟨program', e', read', bare, accepted', typed, fun file file' => ?_⟩
  refine complaints_corrected ?_ fun p mem => Judgement.corrections_isSome within once mem
  exact congrArg (fun n : Judgement.Notes => n.records.toList) notes

end Programs

section Compiling

variable {id : UInt32} {file : File} {options : Options} {exercise : Option Exercise} {c : Compiled}
  {program : Block}

theorem checked_of_compile (compiled : compile id file options exercise = .ok c)
    (parsed : c.program = some program) : ∃ goal e, resolveExercise exercise = .ok goal ∧
      readProgram file.content = .ok program ∧
      elaborateProgram ⟨options.shortcuts, goal⟩ Axiom.scope program = .ok e ∧ c.checked = some e := by
  unfold compile at compiled
  cases resolved : resolveExercise exercise with
  | error why =>
    rw [resolved] at compiled
    cases compiled
  | ok goal =>
  rw [resolved] at compiled
  replace compiled : compileRead id file options goal (readProgram file.content) = .ok c := compiled
  unfold compileRead at compiled
  split at compiled
  · cases compiled
    cases parsed
  next p read =>
    unfold checkProgram at compiled
    split at compiled
    · cases compiled
    next e accepted =>
      have same : c.program = some p ∧ c.checked = some e := by
        split at compiled <;> cases compiled <;> exact ⟨rfl, rfl⟩
      obtain rfl := Option.some.inj (same.1.symm.trans parsed)
      exact ⟨goal, e, rfl, read, accepted, same.2⟩

theorem compile_of_checked {goal : Option Judgement.Exercise} {e : Elaborated} (id : UInt32)
    (resolved : resolveExercise exercise = .ok goal) (read : readProgram file.content = .ok program)
    (accepted : elaborateProgram ⟨options.shortcuts, goal⟩ Axiom.scope program = .ok e) :
    ∃ c, compile id file options exercise = .ok c ∧ c.program = some program ∧ c.checked = some e := by
  have step : compile id file options exercise = checkProgram id file options goal program := by
    rw [compile, resolved]
    exact congrArg (compileRead id file options goal) read
  rw [step]
  unfold checkProgram
  rw [accepted]
  dsimp only
  split <;> exact ⟨_, rfl, rfl, rfl⟩

/-- Let a file that loading leaves as it is be read as a program. If all the replacements that are
proposed for statements of the wrong kind are made, the file is still left as it is, the program is the
same but for places and for the kinds of those statements, it has the same type, and the same complaints
come up in the same order, without those about the kinds of statements. -/
theorem keyword_fixes_converge {path : String} {given : Bytes} {isVirtual : Bool}
    (small : given.length < 2 ^ 32) (normal : (File.make path given isVirtual).flags.isNormalized = false)
    (compiled : compile id (File.make path given isVirtual) options exercise = .ok c)
    (parsed : c.program = some program) (id' : UInt32) : ∃ given' c' program',
      applyEdits? given (keywordEdits id c.records) = some given' ∧
      (File.make path given' isVirtual).flags.isNormalized = false ∧
      compile id' (File.make path given' isVirtual) options exercise = .ok c' ∧ c'.program = some program' ∧
      program'.bare = (program.corrected (corrections c.records)).bare ∧
      c'.checked.map (·.typed.type) = c.checked.map (·.typed.type) ∧
      complaints id' c'.records = (complaints id c.records).filter (·.1 ≠ .wrongReturnKind) := by
  obtain ⟨goal, e, resolved, read, accepted, checked⟩ := checked_of_compile compiled parsed
  rw [content_make normal] at read
  have records : c.records = e.records := by
    rw [Compiled.records, checked]
    rfl
  obtain ⟨program', e', read', bare, accepted', typed, same⟩ := checked_reworded read accepted
  have normal' : (File.make path (reword (corrections e.records) given) isVirtual).flags.isNormalized = false :=
    isNormalized_reword _ (readProgram_eq_ok_iff.1 read).1 normal
  rw [← content_make normal'] at read'
  obtain ⟨c', compiled', parsed', checked'⟩ := compile_of_checked id' resolved read' accepted'
  have records' : c'.records = e'.records := by
    rw [Compiled.records, checked']
    rfl
  rw [records]
  refine ⟨_, c', program', applyEdits?_keywordFixes id small read accepted, normal', compiled', parsed',
    bare, ?_, ?_⟩
  · rw [checked, checked', Option.map_some, Option.map_some, typed]
  · rw [records']
    exact same id id'

/-- The wrong statement of a program is put right, and the unknown variable in it stays unknown. -/
theorem twoErrors_fixed : ∃ c c', twoErrorsFile.content.length < 2 ^ 32 ∧
    (File.make "a.peano" twoErrorsFile.content false).flags.isNormalized = false ∧
    compile 0 (File.make "a.peano" twoErrorsFile.content false) {} none = .ok c ∧
    (complaints 0 c.records).map Prod.fst = [.wrongReturnKind, .unknownVariable] ∧
    applyEdits? twoErrorsFile.content (keywordEdits 0 c.records) = some (Bytes.ofString "return x;") ∧
    compile 1 (File.make "a.peano" (Bytes.ofString "return x;") false) {} none = .ok c' ∧
    (complaints 1 c'.records).map Prod.fst = [.unknownVariable] := by
  have small : twoErrorsFile.content.length < 2 ^ 32 := by decide +kernel
  have normal : (File.make "a.peano" twoErrorsFile.content false).flags.isNormalized = false := by
    decide +kernel
  have checked : Judgement.comesTo ⟨false, none⟩ Axiom.scope twoErrors (fun e =>
      (complaints 0 e.records).map Prod.fst == [.wrongReturnKind, .unknownVariable] &&
        applyEdits? twoErrorsFile.content (keywordEdits 0 e.records) ==
          some (Bytes.ofString "return x;")) = true := by
    rw [Axiom.scope_eq]
    decide +kernel
  obtain ⟨e, accepted, checked⟩ := Judgement.exists_of_comesTo checked
  rw [Bool.and_eq_true, beq_iff_eq, beq_iff_eq] at checked
  have read : readProgram (File.make "a.peano" twoErrorsFile.content false).content = .ok twoErrors := by
    rw [content_make normal, twoErrors_read]
  obtain ⟨c, compiled, parsed, same⟩ :=
    @compile_of_checked (File.make "a.peano" twoErrorsFile.content false) {} none twoErrors none e 0
      rfl read accepted
  have records : c.records = e.records := by
    rw [Compiled.records, same]
    rfl
  obtain ⟨given', c', -, edited, -, compiled', -, -, -, left⟩ :=
    keyword_fixes_converge small normal compiled parsed 1
  rw [records] at edited left
  obtain rfl := Option.some.inj (checked.2.symm.trans edited)
  refine ⟨c, c', small, normal, compiled, ?_, ?_, compiled', ?_⟩
  · rw [records, checked.1]
  · rw [records, checked.2]
  · calc (complaints 1 c'.records).map Prod.fst
        = ((complaints 0 e.records).filter (·.1 ≠ .wrongReturnKind)).map Prod.fst := by rw [left]
      _ = ((complaints 0 e.records).map Prod.fst).filter (· ≠ .wrongReturnKind) := by
        rw [List.filter_map]
        rfl
      _ = [.unknownVariable] := by
        rw [checked.1]
        rfl

end Compiling

end Program

end Peano
