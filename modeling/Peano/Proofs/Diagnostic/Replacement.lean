import Mathlib
import Peano.Diagnostic.Apply
namespace Peano.Diagnostic
open List
open Source (File FileSet Span)

/-- The text between two offsets with edits made in it. All spans are read in the content as it is, and
what is between them is kept. -/
def weave (content : Bytes) (start stop : Nat) : List Edit → Bytes
  | [] => (content.take stop).drop start
  | e :: rest => (content.take e.span.start.toNat).drop start ++
    (Bytes.ofString e.text ++ weave content e.span.stop.toNat stop rest)

/-- Content with all edits made at once, in the order of their places. -/
def Replaced (content : Bytes) (edits : List Edit) (new : Bytes) : Prop :=
  ∃ ordered : List Edit, ordered.Perm edits ∧
    ordered.Pairwise (fun a b => a.span.stop.toNat ≤ b.span.start.toNat) ∧
    new = weave content 0 content.length ordered

/-- The first one puts in text where the second one starts to replace some. -/
def Pushes (a b : Span) : Prop := a.start = a.stop ∧ a.start = b.start ∧ b.start ≠ b.stop

instance (a b : Span) : Decidable (Pushes a b) := inferInstanceAs (Decidable (_ ∧ _ ∧ _))

section Edits

structure Edit.Within (size : Nat) (e : Edit) : Prop where
  proper : e.span.start.toNat ≤ e.span.stop.toNat
  inside : e.span.stop.toNat ≤ size

variable {content : Bytes} {edits : List Edit}

theorem weave_concat (content : Bytes) (start stop : Nat) (es : List Edit) (e : Edit) :
    weave content start stop (es ++ [e]) = weave content start e.span.start.toNat es ++
      (Bytes.ofString e.text ++ (content.take stop).drop e.span.stop.toNat) := by
  induction es generalizing start with
  | nil => rfl
  | cons d es ih =>
    rw [cons_append, weave, weave, ih]
    simp only [append_assoc]

/-- Edits from the back to the front, when all from `stop` on is done. -/
theorem foldlM_apply? (stop : Nat) (tail : Bytes) (inside : stop ≤ content.length)
    (back : edits.Pairwise fun a b => b.span.stop.toNat ≤ a.span.start.toNat)
    (within : ∀ e ∈ edits, e.Within stop) :
    edits.foldlM Edit.apply? (content.take stop ++ tail) = some (weave content 0 stop edits.reverse ++ tail) := by
  induction edits generalizing stop tail with
  | nil => rfl
  | cons e es ih =>
    obtain ⟨before, back⟩ := pairwise_cons.1 back
    obtain ⟨here, later⟩ := forall_mem_cons.1 within
    have start := here.proper.trans here.inside
    have made : Edit.apply? (content.take stop ++ tail) e = some (content.take e.span.start.toNat ++
        (Bytes.ofString e.text ++ (content.take stop).drop e.span.stop.toNat ++ tail)) := by
      have length : (content.take stop).length = stop := length_take_of_le inside
      have fits : e.span.stop.toNat ≤ (content.take stop ++ tail).length := by
        rw [length_append, length]
        exact here.inside.trans (Nat.le_add_right _ _)
      unfold Edit.apply?
      rw [if_pos fits, take_append_of_le_length (by rwa [length]),
        drop_append_of_le_length (by rw [length]; exact here.inside), take_take, Nat.min_eq_left start]
      simp only [append_assoc]
    have rest := ih e.span.start.toNat
      (Bytes.ofString e.text ++ (content.take stop).drop e.span.stop.toNat ++ tail) (start.trans inside) back
      fun d hd => ⟨(later d hd).proper, before d hd⟩
    rw [foldlM_cons, made, reverse_cons, weave_concat, Option.bind_eq_bind, Option.bind_some, rest]
    simp only [append_assoc]

abbrev backwards (a b : Edit) : Bool := b.span.start ≤ a.span.start

theorem backwards_trans (a b c : Edit) : backwards a b → backwards b c → backwards a c := by
  simp only [decide_eq_true_eq, UInt32.le_iff_toNat_le]
  omega

theorem backwards_total (a b : Edit) : (backwards a b || backwards b a) := by
  simp only [Bool.or_eq_true, decide_eq_true_eq, UInt32.le_iff_toNat_le]
  omega

/-- Edits that start at one place keep their order. -/
theorem filter_mergeSort (edits : List Edit) (start : UInt32) :
    (edits.mergeSort backwards).filter (·.span.start = start) = edits.filter (·.span.start = start) := by
  have same : (edits.filter (·.span.start = start)).Pairwise fun a b => backwards a b := by
    rw [pairwise_filter]
    refine pairwise_of_forall fun a b ha hb => ?_
    rw [decide_eq_true_eq] at ha hb ⊢
    rw [ha, hb]
    exact UInt32.le_refl start
  have kept := (sublist_mergeSort backwards_trans backwards_total same filter_sublist).filter
    (·.span.start = start)
  rw [filter_filter] at kept
  simp only [Bool.and_self] at kept
  exact (kept.eq_of_length ((mergeSort_perm edits backwards).filter _).symm.length_eq).symm

theorem stop_le_start {a b : Span} (apart : conflicts a b = false) (proper : a.start.toNat ≤ a.stop.toNat)
    (before : b.start < a.start) : b.stop.toNat ≤ a.start.toNat := by
  unfold conflicts at apart
  rw [UInt32.lt_iff_toNat_lt] at before
  simp only [← UInt32.toNat_inj] at apart
  split_ifs at apart
  all_goals
    simp only [Bool.and_eq_false_iff, decide_eq_false_iff_not, UInt32.lt_iff_toNat_lt] at apart
    omega

/-- Of two spans that start at one place and are apart the second one is empty, or it is pushed. -/
theorem stop_le_start_of_eq {a b : Span} (apart : conflicts a b = false)
    (proper : a.start.toNat ≤ a.stop.toNat) (still : ¬Pushes a b) (same : a.start = b.start) :
    b.stop.toNat ≤ a.start.toNat := by
  unfold conflicts at apart
  simp only [Pushes, ne_eq, ← UInt32.toNat_inj] at apart still same
  split_ifs at apart
  all_goals
    simp only [Bool.and_eq_false_iff, decide_eq_false_iff_not, UInt32.lt_iff_toNat_lt] at apart
    omega

theorem conflicts_comm (a b : Span) : conflicts a b = conflicts b a := by
  unfold conflicts
  grind

/-- Edits that do not overlap and push none that is taken later are made in the order of their places. -/
theorem mergeSort_backwards (within : ∀ e ∈ edits, e.Within content.length)
    (apart : edits.Pairwise fun a b => conflicts a.span b.span = false)
    (still : edits.Pairwise fun a b => ¬Pushes a.span b.span) :
    (edits.mergeSort backwards).Pairwise fun a b => b.span.stop.toNat ≤ a.span.start.toNat := by
  have perm := mergeSort_perm edits backwards
  have apart' : (edits.mergeSort backwards).Pairwise fun a b => conflicts a.span b.span = false :=
    (perm.pairwise_iff fun h => (conflicts_comm _ _).trans h).2 apart
  have sorted := pairwise_mergeSort backwards_trans backwards_total edits
  rw [pairwise_iff_forall_sublist]
  intro a b pair
  have proper := (within a (perm.subset (pair.subset (by simp)))).proper
  have free := pairwise_iff_forall_sublist.1 apart' pair
  have order := pairwise_iff_forall_sublist.1 sorted pair
  rw [decide_eq_true_eq, UInt32.le_iff_toNat_le, Nat.le_iff_lt_or_eq, UInt32.toNat_inj] at order
  rcases order with before | same
  · exact stop_le_start free proper before
  · -- They start at one place, so that they come in the order in which they were taken.
    have taken : [a, b].Sublist (edits.filter (·.span.start = a.span.start)) := by
      rw [← filter_mergeSort]
      have both := pair.filter (·.span.start = a.span.start)
      rwa [filter_cons_of_pos (by simp), filter_cons_of_pos (by simpa using same)] at both
    have unpushed := pairwise_iff_forall_sublist.1 still (taken.trans filter_sublist)
    exact stop_le_start_of_eq free proper unpushed same.symm

theorem applyEdits?_replaces (content : Bytes) (within : ∀ e ∈ edits, e.Within content.length)
    (apart : edits.Pairwise fun a b => conflicts a.span b.span = false)
    (still : edits.Pairwise fun a b => ¬Pushes a.span b.span) :
    ∃ new, applyEdits? content edits = some new ∧ Replaced content edits new := by
  have perm := mergeSort_perm edits backwards
  have back := mergeSort_backwards within apart still
  have made := foldlM_apply? _ [] le_rfl back fun e he => within e (perm.subset he)
  rw [take_length, append_nil, append_nil] at made
  exact ⟨_, made, _, (reverse_perm _).trans perm, pairwise_reverse.2 back, rfl⟩

end Edits

section Selections

variable {fs : FileSet} {mode : ApplyMode}

/-- The edits of a patch are in their file, which may be changed, and do not overlap. -/
def Patch.Sound (fs : FileSet) (p : Patch) : Prop :=
  ∃ f, fs.get? p.file = some f ∧ refusal? f = none ∧ (∀ e ∈ p.edits, e.Within f.size) ∧
    p.edits.Pairwise fun a b => conflicts a.span b.span = false

namespace Selection

structure Sound (fs : FileSet) (s : Selection) : Prop where
  files : (s.patches.map Patch.file).Nodup
  patches : ∀ p ∈ s.patches, p.Sound fs

variable {s : Selection}

theorem map_file_addEdits (patches : List Patch) (file : UInt32) (edits : List Edit) :
    (addEdits patches file edits).map Patch.file =
      if file ∈ patches.map Patch.file then patches.map Patch.file else patches.map Patch.file ++ [file] := by
  induction patches with
  | nil => rfl
  | cons p rest ih =>
    rw [addEdits]
    split
    next same => simp [same]
    next other =>
      split <;> simp_all [eq_comm]

theorem mem_addEdits {p : Patch} {file : UInt32} {edits : List Edit} (mem : p ∈ addEdits s.patches file edits) :
    p ∈ s.patches ∨ p = ⟨file, s.editsOf file ++ edits⟩ := by
  obtain ⟨applied, skipped, patches⟩ := s
  unfold editsOf
  induction patches with
  | nil => exact .inr (mem_singleton.1 mem)
  | cons q rest ih =>
    rw [addEdits] at mem
    split at mem
    next same =>
      rw [find?_cons_of_pos (by simpa using same)]
      exact (mem_cons.1 mem).symm.imp_left (mem_cons_of_mem q)
    next other =>
      rw [find?_cons_of_neg (by simpa using other)]
      rcases mem_cons.1 mem with rfl | mem
      · exact .inl mem_cons_self
      · exact (ih mem).imp_left (mem_cons_of_mem q)

theorem editsOf_eq (s : Selection) (file : UInt32) :
    s.editsOf file = [] ∨ ⟨file, s.editsOf file⟩ ∈ s.patches := by
  unfold editsOf
  cases found : s.patches.find? (·.file == file) with
  | none => exact .inl rfl
  | some p =>
    obtain rfl : p.file = file := by simpa using find?_some found
    exact .inr (mem_of_find?_eq_some found)

theorem Sound.take {c : Candidate} {f : File} (sound : s.Sound fs)
    (known : fs.get? c.diagnostic.primary.file = some f) (free : s.fault? mode c f = none)
    (apart : c.fix.edits.Pairwise fun a b => conflicts a.span b.span = false) : (s.take c f).Sound fs := by
  obtain ⟨allowed, faults⟩ := Option.or_eq_none_iff.1 free
  have none := findSome?_eq_none_iff.1 (Option.or_eq_none_iff.1 faults).1
  have fits (e : Edit) (he : e ∈ c.fix.edits) : e.Within f.size ∧
      ∀ d ∈ s.editsOf c.diagnostic.primary.file, conflicts d.span e.span = false := by
    have clear := none e he
    unfold editFault? at clear
    split_ifs at clear with _ range conflict
    rw [not_or, UInt32.lt_iff_toNat_lt, Nat.not_lt, Nat.not_lt] at range
    simp only [any_eq_true, not_exists, not_and, Bool.not_eq_true] at conflict
    exact ⟨⟨range.1, range.2⟩, conflict⟩
  refine ⟨?_, fun p mem => ?_⟩
  · rw [Selection.take, map_file_addEdits]
    split
    · exact sound.files
    next new => exact sound.files.append (nodup_singleton _) (by simpa using new)
  · rcases mem_addEdits mem with old | rfl
    · exact sound.patches p old
    · have before : (∀ e ∈ s.editsOf c.diagnostic.primary.file, e.Within f.size) ∧
          (s.editsOf c.diagnostic.primary.file).Pairwise fun a b => conflicts a.span b.span = false := by
        rcases s.editsOf_eq c.diagnostic.primary.file with empty | patch
        · rw [empty]
          exact ⟨nofun, .nil⟩
        · obtain ⟨g, known', -, within, apart⟩ := sound.patches _ patch
          cases known.symm.trans known'
          exact ⟨within, apart⟩
      refine ⟨f, known, allowed, fun e he => ?_, ?_⟩
      · exact (mem_append.1 he).elim (before.1 e) fun he => (fits e he).1
      · exact pairwise_append.2 ⟨before.2, apart, fun d hd e he => (fits e he).2 d hd⟩

theorem Sound.step {c : Candidate} (sound : s.Sound fs)
    (apart : c.fix.edits.Pairwise fun a b => conflicts a.span b.span = false) :
    (s.step fs mode c).Sound fs := by
  unfold Selection.step
  split
  · exact ⟨sound.files, sound.patches⟩
  next f known =>
    split
    · exact ⟨sound.files, sound.patches⟩
    next free => exact sound.take known free apart

end Selection

theorem select_sound (fs : FileSet) (mode : ApplyMode) {ds : List Diagnostic}
    (apart : ∀ d ∈ ds, ∀ x ∈ d.fixes, x.edits.Pairwise fun a b => conflicts a.span b.span = false) :
    (select fs mode ds).Sound fs := by
  have run (cs : List Candidate) (s : Selection) (sound : s.Sound fs)
      (apart : ∀ c ∈ cs, c.fix.edits.Pairwise fun a b => conflicts a.span b.span = false) :
      (cs.foldl (Selection.step fs mode) s).Sound fs := by
    induction cs generalizing s with
    | nil => exact sound
    | cons c cs ih =>
      obtain ⟨first, rest⟩ := forall_mem_cons.1 apart
      exact ih _ (sound.step first) rest
  refine run _ {} ⟨.nil, nofun⟩ fun c mem => ?_
  obtain ⟨d, hd, mem⟩ := mem_flatMap.1 ((mergeSort_perm _ _).subset mem)
  obtain ⟨x, hx, rfl⟩ := mem_map.1 mem
  exact apart d hd x (mem_filter.1 hx).1

/-- The change of a file is that all edits taken for it are made at once in the content it has. -/
def Changes (fs : FileSet) (p : Patch) (c : FileChange) : Prop :=
  ∃ f, fs.get? p.file = some f ∧ refusal? f = none ∧ c.path = f.path ∧ c.edits = p.edits.length ∧
    Replaced f.content p.edits c.content

/-- No two edits of one fix overlap, and none is taken that puts in text where one taken after it starts
to replace some. Then the fixes can be applied, and every patched file changes by all its edits at once. -/
theorem changes_replace (fs : FileSet) (mode : ApplyMode) (ds : List Diagnostic)
    (apart : ∀ d ∈ ds, ∀ x ∈ d.fixes, x.edits.Pairwise fun a b => conflicts a.span b.span = false)
    (still : ∀ p ∈ (select fs mode ds).patches, p.edits.Pairwise fun a b => ¬Pushes a.span b.span) :
    ∃ changes, (select fs mode ds).changes? fs = some changes ∧
      ((select fs mode ds).patches.map Patch.file).Nodup ∧
      List.Forall₂ (Changes fs) (select fs mode ds).patches changes := by
  have sound := select_sound fs mode apart
  have all (ps : List Patch) (known : ∀ p ∈ ps, p.Sound fs ∧ p.edits.Pairwise fun a b => ¬Pushes a.span b.span) :
      ∃ changes, ps.mapM (Patch.change? fs) = some changes ∧ List.Forall₂ (Changes fs) ps changes := by
    induction ps with
    | nil => exact ⟨[], rfl, .nil⟩
    | cons p ps ih =>
      obtain ⟨⟨⟨f, found, allowed, within, apart⟩, still⟩, known⟩ := List.forall_mem_cons.1 known
      obtain ⟨new, made, replaced⟩ := applyEdits?_replaces f.content within apart still
      obtain ⟨changes, rest, related⟩ := ih known
      refine ⟨⟨f.path, p.edits.length, new⟩ :: changes, ?_, .cons ⟨f, found, allowed, rfl, rfl, replaced⟩ related⟩
      rw [List.mapM_cons, rest, Patch.change?, found]
      simp [made]
  obtain ⟨changes, made, related⟩ := all (select fs mode ds).patches fun p mem => ⟨sound.patches p mem, still p mem⟩
  exact ⟨changes, made, sound.files, related⟩

/-- A file with the text `continue x;`. -/
def loopEnd : FileSet := (FileSet.empty.add "a" (Bytes.ofString "continue x;") false).1

def fixesOf (edits : List (List Edit)) : List Diagnostic :=
  edits.map fun es => ⟨.error, ⟨0⟩, "", ⟨0, 0, 8⟩, [], [⟨"", es⟩]⟩

/-- Two words are replaced, and a letter is put in before the first one. -/
def threeEdits : List Diagnostic :=
  fixesOf [[⟨⟨0, 0, 8⟩, "return"⟩, ⟨⟨0, 9, 10⟩, "1"⟩], [⟨⟨0, 0, 0⟩, "A"⟩]]

theorem threeEdits_replaced : ∃ changes, (select loopEnd .all threeEdits).changes? loopEnd = some changes ∧
    changes = [⟨"a", 3, Bytes.ofString "Areturn 1;"⟩] ∧
    List.Forall₂ (Changes loopEnd) (select loopEnd .all threeEdits).patches changes := by
  have selected : (select loopEnd .all threeEdits).patches =
      [⟨0, [⟨⟨0, 0, 8⟩, "return"⟩, ⟨⟨0, 9, 10⟩, "1"⟩, ⟨⟨0, 0, 0⟩, "A"⟩]⟩] := by cbv
  have computed : (select loopEnd .all threeEdits).changes? loopEnd =
      some [⟨"a", 3, Bytes.ofString "Areturn 1;"⟩] := by cbv
  obtain ⟨changes, made, -, related⟩ := changes_replace loopEnd .all threeEdits (by decide)
    (by rw [selected]; decide)
  exact ⟨changes, made, Option.some.inj (made.symm.trans computed), related⟩

/-- If the letter is taken first, the keyword is put in the place of it and of all but the last letter of the
other keyword. Edits of one fix that overlap may not be possible at all. -/
theorem pushed_keyword_misplaced :
    (select loopEnd .all (fixesOf [[⟨⟨0, 0, 0⟩, "A"⟩], [⟨⟨0, 0, 8⟩, "return"⟩]])).changes? loopEnd =
      some [⟨"a", 2, Bytes.ofString "returne x;"⟩] ∧
    (select loopEnd .all (fixesOf [[⟨⟨0, 1, 11⟩, ""⟩, ⟨⟨0, 0, 11⟩, ""⟩]])).changes? loopEnd = none := by
  constructor <;> cbv

end Selections

end Peano.Diagnostic
