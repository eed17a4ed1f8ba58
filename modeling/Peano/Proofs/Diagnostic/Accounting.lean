import Peano.Proofs.Diagnostic.Replacement
import Peano.Proofs.EraseDups
namespace Peano.Diagnostic
open List
open Source (File FileSet)

variable {fs : FileSet} {mode : ApplyMode} {s : Selection} {c : Candidate} {taken left : List Candidate}

abbrev Candidate.file (c : Candidate) : UInt32 := c.diagnostic.primary.file

/-- All edits of fixes for a file, in the order of the fixes. -/
def editsFor (taken : List Candidate) (file : UInt32) : List Edit :=
  (taken.filter (·.file = file)).flatMap (·.fix.edits)

/-- No edit of the one is in conflict with an edit of the other. -/
def Apart (a b : Candidate) : Prop :=
  a.file = b.file → ∀ d ∈ a.fix.edits, ∀ e ∈ b.fix.edits, conflicts d.span e.span = false

def Open (fs : FileSet) (file : UInt32) (f : File) : Prop :=
  fs.get? file = some f ∧ f.flags.isVirtual = false ∧ f.flags.isNormalized = false

def Reported (fs : FileSet) (c : Candidate) (a : Applied) : Prop :=
  ∃ f, Open fs c.file f ∧ a = ⟨c.fix.title, c.diagnostic.code, c.diagnostic.message, f.path,
    f.position c.diagnostic.primary.start⟩

def Changed (fs : FileSet) (taken : List Candidate) (file : UInt32) (change : FileChange) : Prop :=
  ∃ f, Open fs file f ∧ change.path = f.path ∧
    change.edits = ((taken.filter (·.file = file)).map (·.fix.edits.length)).sum ∧
    applyEdits? f.content (editsFor taken file) = some change.content

/-- The fixes that were taken and those that were left so far. -/
structure Tally (fs : FileSet) (mode : ApplyMode) (s : Selection) (taken left : List Candidate) : Prop where
  applied : List.Forall₂ (Reported fs) taken s.applied
  skipped : List.Forall₂ (fun c k => k.title = c.fix.title) left s.skipped
  patches : s.patches = (taken.map Candidate.file).eraseDups.map fun file => ⟨file, editsFor taken file⟩
  solid : ∀ c ∈ taken, c.fix.edits ≠ []
  once : mode = .once → (taken.map Candidate.file).Nodup
  apart : taken.Pairwise Apart

section Patches

variable {files : List UInt32} {g : UInt32 → List Edit} {file : UInt32}

theorem addEdits_map (nodup : files.Nodup) (none : file ∉ files → g file = []) (es : List Edit) :
    Selection.addEdits (files.map fun k => ⟨k, g k⟩) file es =
      (if file ∈ files then files else files ++ [file]).map fun k => ⟨k, g k ++ if file = k then es else []⟩ := by
  induction files with
  | nil => simp [Selection.addEdits, none]
  | cons k files ih =>
    obtain ⟨new, nodup⟩ := nodup_cons.1 nodup
    rw [map_cons, Selection.addEdits]
    split
    next same =>
      subst same
      have others : ∀ j ∈ files, k ≠ j := fun j hj same => new (same ▸ hj)
      simp +contextual [others]
    next other =>
      rw [ih nodup fun absent => none (by simp [Ne.symm other, absent])]
      by_cases old : file ∈ files <;> simp [old, Ne.symm other]

theorem editsOf_map (patches : s.patches = files.map fun k => ⟨k, g k⟩) (none : file ∉ files → g file = []) :
    s.editsOf file = g file := by
  unfold Selection.editsOf
  rw [patches]
  clear patches
  induction files with
  | nil => simp [none]
  | cons k files ih =>
    by_cases same : k = file
    · simp [same]
    · rw [map_cons, find?_cons_of_neg (by simpa using same)]
      exact ih fun absent => none (by simp [Ne.symm same, absent])

end Patches

theorem editsFor_concat (taken : List Candidate) (c : Candidate) (file : UInt32) :
    editsFor (taken ++ [c]) file = editsFor taken file ++ if c.file = file then c.fix.edits else [] := by
  unfold editsFor
  rw [filter_append, flatMap_append]
  by_cases same : c.file = file <;> simp [same]

theorem editsFor_eq_nil {file : UInt32} (absent : file ∉ (taken.map Candidate.file).eraseDups) :
    editsFor taken file = [] := by
  rw [mem_eraseDups, mem_map, not_exists] at absent
  simpa [editsFor] using fun c hc same => absent c ⟨hc, same⟩ |>.elim

namespace Tally

theorem editsOf (tally : Tally fs mode s taken left) (file : UInt32) : s.editsOf file = editsFor taken file :=
  editsOf_map tally.patches editsFor_eq_nil

theorem skip (tally : Tally fs mode s taken left) (path : String) (reason : SkipReason) :
    Tally fs mode (s.skip c path reason) taken (left ++ [c]) :=
  { tally with skipped := rel_append tally.skipped (.cons rfl .nil) }

theorem take {f : File} (tally : Tally fs mode s taken left) (solid : c.fix.edits ≠ [])
    (known : fs.get? c.file = some f) (free : s.fault? mode c f = none) :
    Tally fs mode (s.take c f) (taken ++ [c]) left := by
  obtain ⟨allowed, faults⟩ := Option.or_eq_none_iff.1 free
  obtain ⟨clear, single⟩ := Option.or_eq_none_iff.1 faults
  have opened : Open fs c.file f := by
    unfold refusal? at allowed
    split_ifs at allowed with isVirtual isNormalized
    exact ⟨known, eq_false_of_ne_true isVirtual, eq_false_of_ne_true isNormalized⟩
  refine ⟨rel_append tally.applied (.cons ⟨f, opened, rfl⟩ .nil), tally.skipped, ?_,
    forall_mem_append.2 ⟨tally.solid, forall_mem_singleton.2 solid⟩, fun once => ?_, ?_⟩
  · simp only [map_append, map_cons, map_nil, eraseDups_concat, editsFor_concat]
    exact (congrArg (Selection.addEdits · _ _) tally.patches).trans
      (addEdits_map (nodup_eraseDups _) editsFor_eq_nil _)
  · rw [map_append]
    refine (tally.once once).append (nodup_singleton _) (disjoint_singleton.2 fun mem => ?_)
    obtain ⟨b, hb, same⟩ := mem_map.1 mem
    have none : editsFor taken c.file = [] := by
      rw [← tally.editsOf]
      simpa [once] using single
    exact tally.solid b hb (flatMap_eq_nil_iff.1 none b (by simpa [hb] using same))
  · refine pairwise_append.2 ⟨tally.apart, pairwise_singleton _ _, fun b hb d hd same x hx e he => ?_⟩
    obtain rfl := mem_singleton.1 hd
    have earlier : x ∈ s.editsOf d.file := by
      rw [tally.editsOf]
      exact mem_flatMap.2 ⟨b, by simpa [hb] using same, hx⟩
    have fits := findSome?_eq_none_iff.1 clear e he
    unfold editFault? at fits
    split_ifs at fits with _ _ conflict
    simp only [any_eq_true, not_exists, not_and, Bool.not_eq_true] at conflict
    exact conflict x earlier

theorem step (tally : Tally fs mode s taken left) (solid : c.fix.edits ≠ []) :
    ∃ taken' left', Tally fs mode (s.step fs mode c) taken' left' ∧
      (taken' ++ left').Perm (taken ++ left ++ [c]) := by
  have skipped (path : String) (reason : SkipReason) : ∃ taken' left',
      Tally fs mode (s.skip c path reason) taken' left' ∧ (taken' ++ left').Perm (taken ++ left ++ [c]) :=
    ⟨taken, left ++ [c], tally.skip path reason, by rw [append_assoc]⟩
  unfold Selection.step
  split
  · exact skipped "" .unknownFile
  next f known =>
    split
    next reason _ => exact skipped f.path reason
    next free =>
      refine ⟨taken ++ [c], left, tally.take solid known free, ?_⟩
      rw [append_assoc, append_assoc]
      exact perm_append_comm.append_left taken

theorem run (cs : List Candidate) (solid : ∀ c ∈ cs, c.fix.edits ≠ []) (tally : Tally fs mode s taken left) :
    ∃ taken' left', Tally fs mode (cs.foldl (Selection.step fs mode) s) taken' left' ∧
      (taken' ++ left').Perm (taken ++ left ++ cs) := by
  induction cs generalizing s taken left with
  | nil => exact ⟨taken, left, tally, by rw [append_nil]⟩
  | cons c cs ih =>
    obtain ⟨first, rest⟩ := forall_mem_cons.1 solid
    obtain ⟨taken₁, left₁, tally₁, perm₁⟩ := tally.step first
    obtain ⟨taken₂, left₂, tally₂, perm₂⟩ := ih rest tally₁
    refine ⟨taken₂, left₂, tally₂, perm₂.trans ?_⟩
    simpa using perm₁.append_right cs

theorem select (fs : FileSet) (mode : ApplyMode) (ds : List Diagnostic) :
    ∃ taken left, Tally fs mode (select fs mode ds) taken left ∧ (taken ++ left).Perm (candidates ds) := by
  have perm := mergeSort_perm (candidates ds) Candidate.before
  have solid : ∀ c ∈ (candidates ds).mergeSort Candidate.before, c.fix.edits ≠ [] := fun c mem => by
    obtain ⟨d, -, mem⟩ := mem_flatMap.1 (perm.subset mem)
    obtain ⟨x, hx, rfl⟩ := mem_map.1 mem
    simpa using (mem_filter.1 hx).2
  have start : Tally fs mode {} [] [] := ⟨.nil, .nil, rfl, by simp, fun _ => nodup_nil, .nil⟩
  obtain ⟨taken, left, tally, rest⟩ := run _ solid start
  exact ⟨taken, left, tally, rest.trans perm⟩

end Tally

theorem changed {taken : List Candidate} {files : List UInt32} {changes : List FileChange}
    (opened : ∀ file ∈ files, ∃ f, Open fs file f)
    (made : (files.map fun file => ⟨file, editsFor taken file⟩).mapM (Patch.change? fs) = some changes) :
    List.Forall₂ (Changed fs taken) files changes := by
  induction files generalizing changes with
  | nil =>
    cases made
    exact .nil
  | cons file files ih =>
    obtain ⟨⟨f, known⟩, opened⟩ := forall_mem_cons.1 opened
    rw [map_cons, mapM_cons, Option.bind_eq_bind, Option.bind_eq_some_iff] at made
    obtain ⟨change, first, made⟩ := made
    obtain ⟨rest, later, same⟩ := Option.bind_eq_some_iff.1 made
    obtain rfl : change :: rest = changes := Option.some.inj same
    refine .cons ⟨f, known, ?_⟩ (ih opened later)
    rw [Patch.change?, known.1, Option.bind_eq_bind, Option.bind_some] at first
    obtain ⟨content, applied, same⟩ := Option.bind_eq_some_iff.1 first
    obtain rfl := Option.some.inj same
    exact ⟨rfl, length_flatMap, applied⟩

/-- Every fix is applied or skipped, and not both. Just the files of the fixes applied change, in the order
of their first fix, each by all edits of its fixes, and none of them is virtual or normalized. -/
theorem fixes_accounted {ds : List Diagnostic} {outcome : Outcome} (returned : outcome? fs mode ds = some outcome) :
    ∃ taken left, (taken ++ left).Perm (candidates ds) ∧
      List.Forall₂ (Reported fs) taken outcome.selection.applied ∧
      List.Forall₂ (fun c k => k.title = c.fix.title) left outcome.selection.skipped ∧
      List.Forall₂ (Changed fs taken) (taken.map Candidate.file).eraseDups outcome.changes ∧
      (mode = .once → (taken.map Candidate.file).Nodup) ∧ taken.Pairwise Apart ∧
      (outcome.complaint = some noFixes ↔ outcome.selection.applied = []) := by
  obtain ⟨changes, made, same⟩ := Option.bind_eq_some_iff.1 returned
  obtain rfl := Option.some.inj same
  obtain ⟨taken, left, tally, perm⟩ := Tally.select fs mode ds
  refine ⟨taken, left, perm, tally.applied, tally.skipped, ?_, tally.once, tally.apart, by simp⟩
  refine changed (fun file mem => ?_) (tally.patches ▸ made)
  obtain ⟨c, hc, rfl⟩ := mem_map.1 (mem_eraseDups.1 mem)
  have opened := tally.applied.imp fun c a (h : Reported fs c a) => And.intro (h.imp fun f h => h.1) h
  exact ((forall₂_and_left _ _).1 opened).1 c hc

/-- The second one of three fixes overlaps the first one. -/
def overlapping : List Diagnostic :=
  fixesOf [[⟨⟨0, 0, 8⟩, "return"⟩], [⟨⟨0, 4, 6⟩, ""⟩], [⟨⟨0, 9, 10⟩, "1"⟩]]

theorem overlapping_accounted : ∃ taken left : List Candidate, (taken ++ left).Perm (candidates overlapping) ∧
    taken.length = 2 ∧ left.length = 1 ∧ taken.Pairwise Apart ∧
    outcome? loopEnd .all overlapping = some ⟨select loopEnd .all overlapping,
      [⟨"a", 2, Bytes.ofString "return 1;"⟩], none⟩ := by
  have returned : outcome? loopEnd .all overlapping = some ⟨select loopEnd .all overlapping,
      [⟨"a", 2, Bytes.ofString "return 1;"⟩], none⟩ := by cbv
  have counts : (select loopEnd .all overlapping).applied.length = 2 ∧
      (select loopEnd .all overlapping).skipped.length = 1 := by constructor <;> cbv
  obtain ⟨taken, left, perm, applied, skipped, -, -, apart, -⟩ := fixes_accounted returned
  exact ⟨taken, left, perm, applied.length_eq.trans counts.1, skipped.length_eq.trans counts.2, apart, returned⟩

end Peano.Diagnostic
