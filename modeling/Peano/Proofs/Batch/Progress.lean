import Mathlib.Data.List.Nodup
import Peano.Batch.Progress
namespace Peano.Batch
open List

namespace Item

variable {i : Item} {es : List Event}

def Labelled (i : Item) : Prop := i.failed = true ↔ i.settled = true ∧ i.label = "error"

theorem path_apply (i : Item) (e : Event) : (i.apply e).path = i.path := by
  unfold apply
  split
  · rfl
  · dsimp only
    split <;> rfl

theorem apply_settled (h : i.settled = true) (e : Event) : i.apply e = i := by
  rw [apply, if_pos h]

theorem foldl_apply_settled (h : i.settled = true) : es.foldl apply i = i := by
  induction es with
  | nil => rfl
  | cons e es ih => rw [foldl_cons, apply_settled h, ih]

/-- Only an error of an item that is still open makes it fail. -/
theorem failed_apply (h : i.Labelled) (e : Event) :
    (i.apply e).Labelled ∧ (i.apply e).failed = (i.failed || e.status = some .error && !i.settled) := by
  by_cases settled : i.settled = true
  · rw [apply_settled settled]
    exact ⟨h, by simp [settled]⟩
  · have failed : i.failed = false := Bool.eq_false_iff.2 fun failed => settled (h.1 failed).1
    unfold Labelled apply
    rcases e with ⟨file, stage, _ | _ | _ | _ | _, complaint, elapsed⟩ <;>
      simp [settled, failed, newLabel?, apply_ite (· = "error")]

theorem Labelled.foldl (h : i.Labelled) (es : List Event) : (es.foldl Item.apply i).Labelled := by
  induction es generalizing i with
  | nil => exact h
  | cons e es ih => exact ih (failed_apply h e).1

end Item

namespace Progress

variable {p : Progress} {items : List Item} {e : Event}

def run (p : Progress) (es : List Event) : Progress := es.foldl (fun p e => (p.update (.event e)).1) p

/-- Whether an event makes an item fail that was still open. -/
def breaks (items : List Item) (e : Event) : Bool :=
  e.status = some .error && items.any fun i => i.path = e.file && !i.settled

/-- How many of the events do that, one after the other. -/
def failures (items : List Item) : List Event → Nat
  | [] => 0
  | e :: es => failures (applyEvent items e) es + (breaks items e).toNat

theorem applyEvent_eq_map (distinct : (items.map Item.path).Nodup) (e : Event) :
    applyEvent items e = items.map fun i => if i.path = e.file then i.apply e else i := by
  induction items with
  | nil => rfl
  | cons i rest ih =>
    obtain ⟨new, distinct⟩ := nodup_cons.1 distinct
    rw [applyEvent, map_cons]
    by_cases here : i.path = e.file
    · have others : ∀ j ∈ rest, j.path ≠ e.file := fun j hj same =>
        new (mem_map.2 ⟨j, hj, same.trans here.symm⟩)
      rw [if_pos ⟨here, by simpa using others⟩, if_pos here, map_congr_left fun j hj => if_neg (others j hj), map_id']
    · rw [if_neg fun h => here h.1, if_neg here, ih distinct]

theorem map_path_applyEvent (items : List Item) (e : Event) :
    (applyEvent items e).map Item.path = items.map Item.path := by
  induction items with
  | nil => rfl
  | cons i rest ih =>
    rw [applyEvent]
    split
    · rw [map_cons, map_cons, Item.path_apply]
    · rw [map_cons, map_cons, ih]

theorem items_run (distinct : (p.items.map Item.path).Nodup) (es : List Event) :
    (p.run es).items = p.items.map fun i => (es.filter (·.file = i.path)).foldl Item.apply i := by
  induction es generalizing p with
  | nil => exact (map_id' _).symm
  | cons e es ih =>
    have step : ((p.update (.event e)).1).items = applyEvent p.items e := rfl
    rw [run, foldl_cons, ← run, ih (by rwa [step, map_path_applyEvent]), step, applyEvent_eq_map distinct, map_map]
    refine map_congr_left fun i _ => ?_
    by_cases here : i.path = e.file
    · simp [here, Item.path_apply]
    · simp [here, Ne.symm here]

theorem failed_applyEvent (distinct : (items.map Item.path).Nodup) (labelled : ∀ i ∈ items, i.Labelled) (e : Event) :
    (applyEvent items e).countP (·.failed) = items.countP (·.failed) + (breaks items e).toNat := by
  induction items with
  | nil => simp [applyEvent, breaks]
  | cons i rest ih =>
    obtain ⟨new, distinct⟩ := nodup_cons.1 distinct
    obtain ⟨first, labelled⟩ := forall_mem_cons.1 labelled
    rw [applyEvent, countP_cons]
    by_cases here : i.path = e.file
    · have others : ∀ j ∈ rest, j.path ≠ e.file := fun j hj same =>
        new (mem_map.2 ⟨j, hj, same.trans here.symm⟩)
      have quiet : rest.any (fun j => j.path = e.file && !j.settled) = false := by
        simpa using fun j hj same => (others j hj same).elim
      have only : breaks (i :: rest) e = (e.status = some .error && !i.settled) := by simp [breaks, here, quiet]
      have once : i.failed = true → (e.status = some .error && !i.settled) = false := fun failed => by
        simp [(first.1 failed).1]
      rw [if_pos ⟨here, by simpa using others⟩, countP_cons, (Item.failed_apply first e).2, only]
      generalize (e.status = some .error && !i.settled) = breaks at once ⊢
      cases failed : i.failed <;> cases breaks <;> simp_all
    · have same : breaks (i :: rest) e = breaks rest e := by simp [breaks, here]
      rw [if_neg fun h => here h.1, countP_cons, same, ih distinct labelled, Nat.add_right_comm]

theorem failedCount_run (distinct : (p.items.map Item.path).Nodup) (labelled : ∀ i ∈ p.items, i.Labelled)
    (es : List Event) : (p.run es).failedCount = p.failedCount + failures p.items es := by
  induction es generalizing p with
  | nil => rfl
  | cons e es ih =>
    have step : ((p.update (.event e)).1).items = applyEvent p.items e := rfl
    have labelled' : ∀ i ∈ applyEvent p.items e, i.Labelled := by
      rw [applyEvent_eq_map distinct]
      simp only [mem_map, forall_exists_index, and_imp, forall_apply_eq_imp_iff₂]
      intro i hi
      split
      · exact (Item.failed_apply (labelled i hi) e).1
      · exact labelled i hi
    rw [run, foldl_cons, ← run, ih (by rwa [step, map_path_applyEvent]) labelled', failures, step]
    have grown := failed_applyEvent distinct labelled e
    simp only [failedCount, step, ← countP_eq_length_filter, grown]
    omega

/-- An item that is settled stays as it is, the failures counted are those shown, and events in another
order come to the same as long as the order for each file stays. -/
theorem progress_interleaves (title : String) {files : List String} (distinct : files.Nodup) (es : List Event) :
    (∀ more (k : Nat) (i : Item), ((make title files).run es).items[k]? = some i → i.settled = true →
      ((make title files).run (es ++ more)).items[k]? = some i) ∧ ((make title files).run es).failedCount =
      (((make title files).run es).items.filter fun i => i.settled && i.label == "error").length ∧
    ((make title files).run es).failedCount = failures (make title files).items es ∧
    ∀ es', (∀ file ∈ files, es'.filter (·.file = file) = es.filter (·.file = file)) →
      ((make title files).run es').items = ((make title files).run es).items ∧
      ((make title files).run es').settledCount = ((make title files).run es).settledCount ∧
      ((make title files).run es').failedCount = ((make title files).run es).failedCount := by
  have start : (make title files).items.map Item.path = files := by simp [make, Function.comp_def]
  have known := @items_run (make title files) (by rwa [start])
  have labelled : ∀ i ∈ (make title files).items, i.Labelled := by simp [make, Item.Labelled]
  refine ⟨fun more k i here settled => ?_, ?_, ?_, fun es' same => ?_⟩
  · rw [known, getElem?_map, Option.map_eq_some_iff] at here ⊢
    obtain ⟨j, found, rfl⟩ := here
    refine ⟨j, found, ?_⟩
    rw [filter_append, foldl_append, Item.foldl_apply_settled settled]
  · have shown : ∀ i ∈ ((make title files).run es).items, i.Labelled := by
      rw [known]
      simpa using fun i hi => (labelled i hi).foldl _
    unfold failedCount
    congr 1
    refine filter_congr fun i hi => ?_
    rw [Bool.eq_iff_iff, Bool.and_eq_true, beq_iff_eq]
    exact shown i hi
  · rw [failedCount_run (by rwa [start]) labelled]
    simp [failedCount, make]
  · have items : ((make title files).run es').items = ((make title files).run es).items := by
      rw [known, known]
      refine map_congr_left fun i hi => ?_
      rw [same i.path (start ▸ mem_map_of_mem hi)]
    unfold settledCount failedCount
    rw [items]
    exact ⟨rfl, rfl, rfl⟩

/-- Reports about two files, late and of another file too. -/
def reports : List Event :=
  [⟨"a", some .parse, some .working, "", 0⟩, ⟨"b", some .load, some .error, "", 5⟩,
   ⟨"c", some .load, some .error, "", 0⟩, ⟨"a", some .check, some .done, "", 9⟩, ⟨"a", some .load, some .error, "", 0⟩]

def sortedReports : List Event := ["a", "b"].flatMap fun file => reports.filter (·.file = file)

theorem reports_interleave : ["a", "b"].Nodup ∧
    ((make "" ["a", "b"]).run sortedReports).items = ((make "" ["a", "b"]).run reports).items ∧
    ((make "" ["a", "b"]).run sortedReports).failedCount = 1 := by
  have distinct : ["a", "b"].Nodup := by decide
  obtain ⟨-, -, count, order⟩ := progress_interleaves "" distinct reports
  obtain ⟨items, -, failed⟩ := order sortedReports (by decide +kernel)
  exact ⟨distinct, items, failed.trans (count.trans (by decide +kernel))⟩

end Progress
end Peano.Batch
