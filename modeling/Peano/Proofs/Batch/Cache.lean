import Peano.Batch.Cache
import Peano.Proofs.Exercise
namespace Peano
open List
open Diagnostic (Bag Fix Note)

/-- A diagnostic that is all in one file, and whose fix, if there is one, replaces what it is about. -/
structure Diagnostic.Plain (file : UInt32) (d : Diagnostic) : Prop where
  primary : d.primary.file = file
  notes : ∀ n ∈ d.notes, n.span.file = file
  fixes : ∃ text : Option String, d.fixes = (text.map (Fix.replacement d.primary)).toList

namespace Program

theorem spanOf_file (file : UInt32) (place : Syntax.Place) : (spanOf file place).file = file := by
  cases place <;> rfl

theorem plain_of_record {file : UInt32} {r : Judgement.Record} {d : Diagnostic}
    (h : diagnostic? file r = some d) : d.Plain file := by
  cases r with
  | error place e fix =>
    cases h
    exact ⟨spanOf_file file place, nofun, fix, rfl⟩
  | _ => cases h

theorem plain_of_syntaxError (file : UInt32) (e : Syntax.SyntaxError) : (e.diagnostic file).Plain file := by
  refine ⟨rfl, ?_, none, rfl⟩
  intro n hn
  unfold Syntax.SyntaxError.diagnostic at hn
  split at hn
  · cases hn
  · rw [mem_singleton.1 hn]
    rfl

variable {fileId : UInt32} {file : Source.File} {options : Options} {exercise : Option Exercise}
  {c : Compiled}

/-- What was found in a file: why it could not be read, or the errors that its check has noted. -/
def Found (c : Compiled) (found : List Diagnostic) : Prop :=
  (∃ e : Syntax.SyntaxError, found = [e.diagnostic c.fileId]) ∨
    ∃ program e, c.program = some program ∧ c.checked = some e ∧
      found = e.records.filterMap (diagnostic? c.fileId)

theorem Found.plain {found : List Diagnostic} (h : Found c found) : ∀ d ∈ found, d.Plain c.fileId := by
  intro d hd
  rcases h with ⟨e, rfl⟩ | ⟨program, e, -, -, rfl⟩
  · rw [mem_singleton.1 hd]
    exact plain_of_syntaxError c.fileId e
  · obtain ⟨r, -, made⟩ := mem_filterMap.1 hd
    exact plain_of_record made

variable (h : compile fileId file options exercise = .ok c)

include h

/-- The bag of a compiled file has what was found, as far as there is room, in some order. -/
theorem compile_bag : (c.fileId = fileId ∧ c.file = file) ∧ ∃ found, Found c found ∧
      (c.bag = (Bag.make options.maxDiagnostics).addAll found ∨
        c.bag = ((Bag.make options.maxDiagnostics).addAll found).sort) := by
  unfold compile at h
  cases resolved : resolveExercise exercise with
  | error why =>
    rw [resolved] at h
    cases h
  | ok goal =>
  rw [resolved] at h
  replace h : compileRead fileId file options goal (Syntax.readProgram file.content) = .ok c := h
  unfold compileRead at h
  split at h
  next e failed =>
    cases h
    exact ⟨⟨rfl, rfl⟩, [e.diagnostic fileId], .inl ⟨e, rfl⟩, .inl rfl⟩
  next program read =>
    unfold checkProgram at h
    split at h
    · cases h
    next e checked =>
      split at h <;> cases h <;> exact ⟨⟨rfl, rfl⟩, _, .inr ⟨program, e, rfl, rfl, rfl⟩, .inr rfl⟩

theorem exists_found {d : Diagnostic} (mem : d ∈ c.bag.items) : ∃ found, Found c found ∧ d ∈ found := by
  obtain ⟨-, found, known, bag⟩ := compile_bag h
  have inside : d ∈ ((Bag.make options.maxDiagnostics).addAll found).items := by
    rcases bag with bag | bag
    · rwa [bag] at mem
    · rw [bag] at mem
      exact mem_mergeSort.1 mem
  rcases Bag.mem_of_addAll inside with old | new
  · cases old
  · exact ⟨found, known, new⟩

theorem compile_plain : ∀ d ∈ c.bag.items, d.Plain fileId := by
  intro d mem
  obtain ⟨found, known, mem⟩ := exists_found h mem
  rw [← (compile_bag h).1.1]
  exact known.plain d mem

/-- The limit is the one that was asked for, and there are no more diagnostics than that. -/
theorem compile_limit :
    c.bag.limit = (Bag.make options.maxDiagnostics).limit ∧ c.bag.items.length ≤ c.bag.limit := by
  obtain ⟨-, found, -, bag⟩ := compile_bag h
  have limit := Bag.limit_addAll (Bag.make options.maxDiagnostics) found
  have fits := Bag.size_addAll_le (b := Bag.make options.maxDiagnostics) (Nat.zero_le _) found
  rcases bag with bag | bag
  · rw [bag]
    exact ⟨limit, fits⟩
  · rw [bag]
    refine ⟨limit, ?_⟩
    rw [Bag.sort, length_mergeSort]
    exact fits

end Program

namespace Batch

theorem CachedDiagnostic.restore_ofDiagnostic {file : UInt32} {d : Diagnostic} (h : d.Plain file) :
    (ofDiagnostic d).restore file = d := by
  obtain ⟨rfl, inFile, text, fixes⟩ := h
  obtain ⟨severity, code, message, primary, notes, _⟩ := d
  dsimp only at inFile fixes
  subst fixes
  have sameNotes : (notes.map fun n => (⟨n.span.start, n.span.stop, n.message⟩ : CachedNote)).map
      (fun n => (⟨⟨primary.file, n.start, n.stop⟩, n.message⟩ : Note)) = notes := by
    rw [map_map]
    calc notes.map _ = notes.map id := by
          apply map_congr_left
          intro n hn
          obtain ⟨⟨noteFile, start, stop⟩, text⟩ := n
          have here : noteFile = primary.file := inFile _ hn
          rw [here]
          rfl
      _ = notes := map_id notes
  unfold restore ofDiagnostic
  rw [sameNotes]
  cases text <;> rfl

open Program

theorem restore_bag {fileId : UInt32} {file : Source.File} {options : Options}
    {exercise : Option Exercise} {c : Compiled} (compiled : compile fileId file options exercise = .ok c) :
    ((CacheEntry.ofCompiled c).restore fileId options.maxDiagnostics).bag = { c.bag with dropped := 0 } := by
  have plain := compile_plain compiled
  obtain ⟨limit, fits⟩ := compile_limit compiled
  have items : (c.bag.items.map .ofDiagnostic).map (CachedDiagnostic.restore fileId ·) =
      c.bag.items := by
    rw [map_map]
    calc c.bag.items.map _ = c.bag.items.map id :=
          map_congr_left fun d hd => CachedDiagnostic.restore_ofDiagnostic (plain d hd)
      _ = c.bag.items := map_id _
  unfold CacheEntry.restore CacheEntry.ofCompiled
  rw [items, Bag.addAll_of_le, ← limit]
  · rfl
  · rw [← limit]
    exact (Nat.zero_add _).trans_le fits

/-- The result from the cache is the one of the check, but nothing counts as dropped. So it is the
same if there was room for all diagnostics, and only then. -/
theorem restore_ofCompiled (fileId : UInt32) (file : Source.File) (options : Options)
    (exercise : Option Exercise) (c : Compiled) (compiled : compile fileId file options exercise = .ok c) :
    (CacheEntry.ofCompiled c).restore fileId options.maxDiagnostics =
      { Checked.ofCompiled c with bag := { c.bag with dropped := 0 }, records := [], cached := true } ∧
    ((CacheEntry.ofCompiled c).restore fileId options.maxDiagnostics).hasErrors = c.hasErrors ∧
    (((CacheEntry.ofCompiled c).restore fileId options.maxDiagnostics).bag = c.bag ↔
      c.bag.dropped = 0) := by
  have bag := restore_bag compiled
  refine ⟨?_, ?_, ?_⟩
  · have here : fileId = c.fileId := (compile_bag compiled).1.1.symm
    rw [← bag, Checked.ofCompiled, ← here]
    rfl
  · rw [Checked.hasErrors, bag]
    rfl
  · rw [bag]
    constructor
    · intro same
      exact (congrArg Bag.dropped same).symm
    · intro none
      rw [← none]

section Forgetting

/-- A program with a wrong last statement and an unknown variable. -/
def twoErrorsFile : Source.File where
  path := "a.peano"
  content := Bytes.ofString "break x;"
  flags := ⟨false, false, false, false⟩

def twoErrors : Syntax.Block :=
  ⟨[.leave .stop (some ⟨0, 5⟩) (.name ⟨"x", some ⟨6, 7⟩⟩) (some ⟨0, 8⟩)], some ⟨0, 8⟩⟩

theorem twoErrors_read : Syntax.readProgram twoErrorsFile.content = .ok twoErrors :=
  Syntax.readProgram_plain (by decide +kernel)

theorem twoErrors_compiled (limit : Int) :
    ∃ c d e, compile 0 twoErrorsFile { maxDiagnostics := limit } none = .ok c ∧
      c.bag = ((Bag.make limit).addAll [d, e]).sort := by
  have counted : Judgement.comesTo ⟨false, none⟩ Axiom.scope twoErrors
      (fun e => (e.records.filterMap (diagnostic? 0)).length == 2) := by
    rw [Axiom.scope_eq]
    decide +kernel
  have read : compile 0 twoErrorsFile { maxDiagnostics := limit } none =
      checkProgram 0 twoErrorsFile { maxDiagnostics := limit } none twoErrors :=
    congrArg (compileRead 0 twoErrorsFile { maxDiagnostics := limit } none) twoErrors_read
  rw [read, checkProgram]
  obtain ⟨checked, run, counted⟩ := Judgement.exists_of_comesTo counted
  obtain ⟨d, e, found⟩ := length_eq_two.1 (beq_iff_eq.1 counted)
  rw [run]
  dsimp only
  rw [found]
  exact ⟨_, d, e, rfl, rfl⟩

theorem twoErrors_restored : ∃ c, compile 0 twoErrorsFile { maxDiagnostics := 2 } none = .ok c ∧
    c.bag.items.length = 2 ∧ ((CacheEntry.ofCompiled c).restore 0 2).bag = c.bag := by
  obtain ⟨c, d, e, compiled, bag⟩ := twoErrors_compiled 2
  have dropped : c.bag.dropped = 0 := by rw [bag]; rfl
  refine ⟨c, compiled, ?_, (restore_ofCompiled _ _ _ _ c compiled).2.2.2 dropped⟩
  rw [bag, Bag.sort, List.length_mergeSort]
  rfl

/-- With room for one diagnostic the check drops the other, and its cached result does not know. -/
theorem dropped_forgotten : ∃ c, compile 0 twoErrorsFile { maxDiagnostics := 1 } none = .ok c ∧
    c.bag.dropped = 1 ∧ ((CacheEntry.ofCompiled c).restore 0 1).bag.dropped = 0 := by
  obtain ⟨c, d, e, compiled, bag⟩ := twoErrors_compiled 1
  refine ⟨c, compiled, ?_, congrArg Bag.dropped (restore_bag compiled)⟩
  rw [bag]
  rfl

end Forgetting

end Batch
end Peano
