import Peano.Diagnostic.Bag
namespace Peano.Diagnostic.Bag
open List

variable {b : Bag} {d : Diagnostic} {ds : List Diagnostic}

theorem limit_pos (limit : Int) : 0 < (make limit).limit := by
  unfold make greatestLimit
  dsimp only
  split <;> omega

theorem mem_add {e : Diagnostic} (h : d ∈ b.items) : d ∈ (b.add e).items := by
  unfold add
  split
  · exact h
  · exact mem_append_left _ h

theorem mem_addAll (h : d ∈ b.items) : d ∈ (b.addAll ds).items := by
  induction ds generalizing b with
  | nil => exact h
  | cons e rest ih => exact ih (mem_add h)

theorem mem_add_make (limit : Int) (d : Diagnostic) : d ∈ ((make limit).add d).items := by
  have room : ¬ (make limit).isFull := by
    intro full
    have atMost : (make limit).limit ≤ 0 := of_decide_eq_true full
    exact Nat.not_lt_of_le atMost (limit_pos limit)
  rw [add, if_neg room]
  exact mem_append_right _ (mem_singleton_self d)

theorem hasErrors_sort (b : Bag) : b.sort.hasErrors = b.hasErrors := by
  unfold hasErrors reaches sort
  rw [Bool.eq_iff_iff, any_eq_true, any_eq_true]
  simp only [mem_mergeSort]

/-- The first error finds room. -/
theorem eq_nil_of_hasErrors {limit : Int} (errors : ∀ d ∈ ds, d.severity = .error)
    (h : ((make limit).addAll ds).hasErrors = false) : ds = [] := by
  cases ds with
  | nil => rfl
  | cons d rest =>
    have inside : d ∈ (((make limit).add d).addAll rest).items := mem_addAll (mem_add_make limit d)
    have found : ((make limit).addAll (d :: rest)).hasErrors := by
      refine any_eq_true.2 ⟨d, inside, ?_⟩
      rw [errors d mem_cons_self]
      decide
    cases found.symm.trans h

theorem limit_addAll (b : Bag) (ds : List Diagnostic) : (b.addAll ds).limit = b.limit := by
  unfold addAll
  induction ds generalizing b with
  | nil => rfl
  | cons d rest ih =>
    rw [foldl_cons, ih]
    unfold add
    split <;> rfl

theorem mem_of_addAll (h : d ∈ (b.addAll ds).items) : d ∈ b.items ∨ d ∈ ds := by
  induction ds generalizing b with
  | nil => exact .inl h
  | cons e rest ih =>
    rcases ih h with inside | later
    · unfold add at inside
      split at inside
      · exact .inl inside
      · rcases mem_append.1 inside with old | new
        · exact .inl old
        · exact .inr (mem_cons.2 (.inl (mem_singleton.1 new)))
    · exact .inr (mem_cons_of_mem e later)

theorem size_addAll_le (fits : b.size ≤ b.limit) (ds : List Diagnostic) :
    (b.addAll ds).size ≤ (b.addAll ds).limit := by
  induction ds generalizing b with
  | nil => exact fits
  | cons d rest ih =>
    apply ih
    unfold add
    split
    · exact fits
    next room =>
      have below : b.size < b.limit := by simpa [isFull] using room
      rw [size, length_append]
      exact below

theorem addAll_of_le (room : b.size + ds.length ≤ b.limit) :
    b.addAll ds = { b with items := b.items ++ ds } := by
  unfold addAll
  induction ds generalizing b with
  | nil => simp
  | cons d rest ih =>
    rw [length_cons] at room
    have free : b.isFull = false := by
      rw [isFull, decide_eq_false_iff_not]
      omega
    have added : b.add d = { b with items := b.items ++ [d] } := by rw [add, free]; rfl
    rw [foldl_cons, added, ih]
    · rw [append_assoc, singleton_append]
    · rw [size, length_append, length_singleton, ← size]
      dsimp only
      omega

section Histories

/-- How a bag came to be. -/
inductive History where
  | make (limit : Int)
  | add (before : History) (d : Diagnostic)
  | merge (before other : History)
  | sort (before : History)
  | dedup (before : History)

namespace History

def bag : History → Bag
  | make limit => .make limit
  | add h d => h.bag.add d
  | merge h other => h.bag.merge other.bag
  | sort h => h.bag.sort
  | dedup h => h.bag.dedup

/-- How many diagnostics came, also by way of the bags that were merged into this one. -/
def offered : History → Nat
  | make _ => 0
  | add h _ => h.offered + 1
  | merge h other => h.offered + other.offered
  | sort h | dedup h => h.offered

/-- The bags that were merged on the way, those of the last merge first. -/
def merges : History → List (Bag × Bag)
  | make _ => []
  | add h _ | sort h | dedup h => h.merges
  | merge h other => (h.bag, other.bag) :: h.merges

def isWhole : History → Bool
  | make _ => true
  | add h _ | sort h => h.isWhole
  | merge h other => h.isWhole && other.isWhole
  | dedup _ => false

end History

theorem length_dropRepeats (seen ds : List Diagnostic) : (dropRepeats seen ds).length ≤ ds.length := by
  fun_induction dropRepeats seen ds with
  | case1 => exact Nat.le_refl _
  | case2 _ _ _ _ ih => exact Nat.le_succ_of_le ih
  | case3 _ _ _ _ ih => exact Nat.succ_le_succ ih

theorem size_merge (b other : Bag) : (b.merge other).size = b.size + other.size := length_append

theorem size_sort (b : Bag) : b.sort.size = b.size := length_mergeSort _

theorem size_dedup_le (b : Bag) : b.dedup.size ≤ b.size := length_dropRepeats [] b.items

/-- What is added gets in if there is room, and is counted otherwise. -/
theorem size_add (b : Bag) (d : Diagnostic) : (b.add d).limit = b.limit ∧
    (b.size < b.limit ∧ (b.add d).size = b.size + 1 ∧ (b.add d).dropped = b.dropped ∨
      b.limit ≤ b.size ∧ (b.add d).size = b.size ∧ (b.add d).dropped = b.dropped + 1) := by
  unfold add isFull
  split
  next full => exact ⟨rfl, .inr ⟨of_decide_eq_true full, rfl, rfl⟩⟩
  next free => exact ⟨rfl, .inl ⟨by simpa using free, length_append, rfl⟩⟩

/-- No limit is above the greatest one, and only bags of more than that have less room than items. -/
theorem min_size_le (h : History) :
    h.bag.limit ≤ greatestLimit ∧ min h.bag.size greatestLimit ≤ h.bag.limit := by
  induction h with
  | make limit => exact ⟨Nat.min_le_right _ _, by simp [History.bag, size, Bag.make]⟩
  | add h d ih =>
    obtain ⟨limit, room | full⟩ := h.bag.size_add d <;> simp only [History.bag] <;> omega
  | merge h other ih ih' =>
    rw [History.bag, size_merge]
    unfold merge
    dsimp only
    split <;> omega
  | sort h ih => exact ⟨ih.1, by rw [History.bag, size_sort]; exact ih.2⟩
  | dedup h ih =>
    have fewer := h.bag.size_dedup_le
    have same : h.bag.dedup.limit = h.bag.limit := rfl
    simp only [History.bag]
    omega

theorem size_merge_le (h other : History) (fits : h.bag.size + other.bag.size ≤ greatestLimit) :
    (h.bag.merge other.bag).size ≤ (h.bag.merge other.bag).limit := by
  have room := (min_size_le (h.merge other)).2
  rw [History.bag, size_merge] at room
  rw [size_merge]
  omega

/-- Only a merge makes a bag larger than its limit, and only if there is more than any limit admits. -/
theorem exceeding_merge {h : History} (large : h.bag.limit < h.bag.size) :
    ∃ m ∈ h.merges, greatestLimit < m.1.size + m.2.size := by
  induction h with
  | make limit => simp [History.bag, size, Bag.make] at large
  | add h d ih =>
    rw [History.bag] at large
    obtain ⟨limit, room | full⟩ := h.bag.size_add d <;> exact ih (by omega)
  | merge h other ih ih' =>
    refine ⟨(h.bag, other.bag), mem_cons_self, Nat.lt_of_not_le fun fits => ?_⟩
    exact Nat.not_le_of_lt large (size_merge_le h other fits)
  | sort h ih => exact ih (h.bag.size_sort ▸ large)
  | dedup h ih => exact ih (Nat.lt_of_lt_of_le large h.bag.size_dedup_le)

theorem offered_eq {h : History} (whole : h.isWhole = true) : h.offered = h.bag.size + h.bag.dropped := by
  induction h with
  | make limit => rfl
  | add h d ih =>
    have before := ih whole
    obtain ⟨-, room | full⟩ := h.bag.size_add d <;> simp only [History.bag, History.offered] <;> omega
  | merge h other ih ih' =>
    rw [History.isWhole, Bool.and_eq_true] at whole
    have dropped : (h.bag.merge other.bag).dropped = h.bag.dropped + other.bag.dropped := rfl
    rw [History.offered, ih whole.1, ih' whole.2, History.bag, size_merge, dropped]
    omega
  | sort h ih => rw [History.offered, ih whole, History.bag, size_sort]; rfl
  | dedup => cases whole

/-- A bag whose size is within what limits may be is within its own limit. A larger one is not: merging
takes in all items, while the limit stops growing at the greatest one. A diagnostic that came is inside or
counted, unless repeats were dropped. -/
theorem limit_accounts (h : History) : h.bag.limit ≤ greatestLimit ∧
    (h.bag.size ≤ greatestLimit → h.bag.size ≤ h.bag.limit) ∧
    (greatestLimit < h.bag.size → h.bag.limit = greatestLimit) ∧
    (h.bag.limit < h.bag.size → ∃ m ∈ h.merges, greatestLimit < m.1.size + m.2.size) ∧
    (∀ other : History, (h.bag.merge other.bag).limit < (h.bag.merge other.bag).size ↔
      greatestLimit < h.bag.size + other.bag.size) ∧
    (h.isWhole = true → h.offered = h.bag.size + h.bag.dropped) := by
  obtain ⟨bounded, room⟩ := min_size_le h
  refine ⟨bounded, fun fits => by omega, fun large => by omega, exceeding_merge, fun other => ?_, offered_eq⟩
  refine ⟨fun exceeds => Nat.lt_of_not_le fun fits => ?_, fun large => ?_⟩
  · exact Nat.not_le_of_lt exceeds (size_merge_le h other fits)
  · rw [← size_merge] at large
    exact Nat.lt_of_le_of_lt (min_size_le (h.merge other)).1 large

def filled (count : Nat) : History :=
  (replicate count (error ⟨0⟩ ⟨0, 0, 0⟩ "")).foldl .add (.make greatestLimit)

theorem size_filled {count : Nat} (room : count ≤ greatestLimit) : (filled count).bag.size = count := by
  have bag (h : History) (ds : List Diagnostic) : (ds.foldl .add h).bag = h.bag.addAll ds := by
    induction ds generalizing h with
    | nil => rfl
    | cons d ds ih => exact ih (h.add d)
  rw [filled, bag, addAll_of_le]
  · simp [size, History.bag, make]
  · simpa [size, History.bag, make, greatestLimit] using room

def overfull : History := (replicate 4 (filled 16384)).foldl .merge (.make 0)

theorem overfull_exceeds_limit : overfull.bag.size = 65536 ∧ overfull.bag.limit = 65535 := by
  have quarter : (filled 16384).bag.size = 16384 := size_filled (by decide)
  have whole : overfull.bag.size = 65536 := by
    simp only [overfull, replicate, foldl_cons, foldl_nil, History.bag, size_merge, quarter]
    rfl
  have room := min_size_le overfull
  rw [whole] at room
  unfold greatestLimit at room
  omega

end Histories

end Peano.Diagnostic.Bag
