import Peano.Proofs.Grammar.Derives
namespace Peano.Grammar
open List

variable {ν τ : Type} [DecidableEq ν] [Ord ν]

section Columns

/-- The tables of a column say what is in it. -/
structure Column.Tidy (g : Grammar ν τ) (c : Column ν) : Prop where
  seen : ∀ it, c.seen.contains it = true ↔ it ∈ c.items
  nodup : c.items.toList.Nodup
  waiting : ∀ n it, it ∈ c.waitingFor n ↔ it ∈ c.items ∧ next? g it = some (.nonterminal n)

variable {g : Grammar ν τ} {c d : Column ν} {it x : Item}

theorem Column.Tidy.mem_add (h : c.Tidy g) : x ∈ (c.add g it).items ↔ x ∈ c.items ∨ x = it := by
  unfold Column.add
  split
  next there => exact (or_iff_left_of_imp fun same => same ▸ (h.seen it).1 there).symm
  · simp

theorem Column.prefix_add (c : Column ν) (it : Item) : c.items.toList <+: (c.add g it).items.toList := by
  unfold Column.add
  split
  · exact prefix_rfl
  · simp

theorem Column.mem_of_prefix (grown : c.items.toList <+: d.items.toList) (hx : x ∈ c.items) : x ∈ d.items := by
  simpa using grown.subset (by simpa using hx)

theorem contains_insert_iff {α : Type} [Ord α] [Std.TransOrd α] [Std.LawfulEqOrd α] {s : Std.TreeSet α}
    {a x : α} : (s.insert a).contains x ↔ s.contains x ∨ x = a := by
  simp only [Std.TreeSet.contains_insert, Bool.or_eq_true, beq_iff_eq, Std.LawfulEqOrd.compare_eq_iff_eq]
  exact or_comm.trans (or_congr_right eq_comm)

theorem Column.mem_waitingFor_add [Std.TransOrd ν] [Std.LawfulEqOrd ν] (new : ¬c.seen.contains it) {n : ν} :
    x ∈ (c.add g it).waitingFor n ↔
      x ∈ c.waitingFor n ∨ x = it ∧ next? g x = some (.nonterminal n) := by
  unfold Column.add Column.waitingFor
  rw [if_neg new]
  split
  next n' next =>
    simp only [Std.TreeMap.getD_insert, Std.LawfulEqOrd.compare_eq_iff_eq]
    split
    next same =>
      subst same
      rw [Array.mem_push, and_iff_left_of_imp fun same => same ▸ next]
    next other => exact (or_iff_left fun ⟨same, waits⟩ => other (by simpa [same, next] using waits)).symm
  next other => exact (or_iff_left fun ⟨same, waits⟩ => other n (same ▸ waits)).symm

omit [DecidableEq ν] [Ord ν] in
theorem nodup_push {α : Type} {xs : Array α} {x : α} (h : xs.toList.Nodup) (new : x ∉ xs) :
    (xs.push x).toList.Nodup := by
  rw [Array.toList_push]
  refine nodup_append.2 ⟨h, pairwise_singleton _ _, fun y hy z hz => ?_⟩
  rw [mem_singleton.1 hz]
  rintro rfl
  exact new (by simpa using hy)

theorem Column.Tidy.add [Std.TransOrd ν] [Std.LawfulEqOrd ν] (h : c.Tidy g) (it : Item) :
    (c.add g it).Tidy g := by
  by_cases there : c.seen.contains it
  · rwa [Column.add, if_pos there]
  have new : it ∉ c.items := fun old => there ((h.seen it).2 old)
  refine ⟨fun x => ?_, ?_, fun n x => ?_⟩
  · rw [h.mem_add, ← h.seen, Column.add, if_neg there]
    exact contains_insert_iff
  · rw [Column.add, if_neg there]
    exact nodup_push h.nodup new
  · rw [h.mem_add, Column.mem_waitingFor_add there, h.waiting, or_and_right]

variable [Std.TransOrd ν] [Std.LawfulEqOrd ν]

omit [Std.LawfulEqOrd ν] in
theorem tidy_empty : Column.Tidy g ({} : Column ν) := by
  refine ⟨fun it => by simp, .nil, fun n it => ?_⟩
  have none : Column.waitingFor ({} : Column ν) n = #[] := Std.TreeMap.getD_emptyc
  simp [none]

theorem Column.Tidy.addAll (h : c.Tidy g) (items : List Item) : (c.addAll g items).Tidy g ∧
    c.items.toList <+: (c.addAll g items).items.toList ∧
      ∀ x, x ∈ (c.addAll g items).items ↔ x ∈ c.items ∨ x ∈ items := by
  unfold Column.addAll
  induction items generalizing c with
  | nil => exact ⟨h, prefix_rfl, by simp⟩
  | cons it items ih =>
    obtain ⟨tidy, grown, mem⟩ := ih (h.add it)
    refine ⟨tidy, (c.prefix_add it).trans grown, fun x => ?_⟩
    rw [foldl_cons, mem, h.mem_add, mem_cons, or_assoc]

end Columns

section Closure

variable {g : Grammar ν τ} {earlier : Array (Column ν)} {c d : Column ν} {it : Item}

/-- What an item asks of its column is there. Completions inside the column are not asked for. -/
structure Handled (g : Grammar ν τ) (earlier : Array (Column ν)) (c : Column ν) (it : Item) : Prop where
  predicted : ∀ n, next? g it = some (.nonterminal n) → ∀ r ∈ g.rulesFor n,
    ⟨r, 0, earlier.size⟩ ∈ c.items
  skipped : ∀ n, next? g it = some (.nonterminal n) → g.isNullable n = true → it.advance ∈ c.items
  completed : ∀ n o, next? g it = none → lhs? g it.rule = some n → earlier[it.origin]? = some o →
    ∀ w ∈ o.waitingFor n, w.advance ∈ c.items

theorem Handled.mono (h : Handled g earlier c it) (grown : c.items.toList <+: d.items.toList) :
    Handled g earlier d it := by
  have sub {x : Item} : x ∈ c.items → x ∈ d.items := Column.mem_of_prefix grown
  exact ⟨fun n next r hr => sub (h.predicted n next r hr),
    fun n next nullable => sub (h.skipped n next nullable),
    fun n o next lhs found w hw => sub (h.completed n o next lhs found w hw)⟩

variable [Std.TransOrd ν] [Std.LawfulEqOrd ν]

theorem handled_addAll (h : c.Tidy g) : Handled g earlier (c.addAll g (additions g earlier c it)) it := by
  have mem (x : Item) (hx : x ∈ additions g earlier c it) :=
    ((h.addAll (additions g earlier c it)).2.2 x).2 (.inr hx)
  refine ⟨fun n next r hr => mem _ ?_, fun n next nullable => mem _ ?_,
    fun n o next lhs found w hw => mem _ ?_⟩
  · rw [additions, next]
    exact mem_append_left _ (mem_map.2 ⟨r, hr, rfl⟩)
  · rw [additions, next]
    refine mem_append_right _ ?_
    rw [if_pos nullable]
    exact mem_singleton_self _
  · rw [additions, next]
    simp only [lhs, found]
    exact mem_map.2 ⟨w, by simpa using hw, rfl⟩

/-- A column with nothing left to add, all of whose items have a property. -/
structure Finished (g : Grammar ν τ) (earlier : Array (Column ν)) (V : Item → Prop) (c : Column ν) :
    Prop where
  tidy : c.Tidy g
  valid : ∀ it ∈ c.items, V it
  handled : ∀ it ∈ c.items, Handled g earlier c it

variable {V : Item → Prop} {bound k : Nat}

omit [Std.TransOrd ν] [Std.LawfulEqOrd ν] in
theorem finished_of_done (tidy : c.Tidy g) (valid : ∀ x ∈ c.items, V x)
    (done : ∀ i < k, ∀ x, c.items[i]? = some x → Handled g earlier c x) (past : c.items.size ≤ k) :
    Finished g earlier V c := by
  refine ⟨tidy, valid, fun x hx => ?_⟩
  obtain ⟨i, found⟩ := Array.getElem?_of_mem hx
  have inside := (Array.getElem?_eq_some_iff.1 found).1
  exact done i (by omega) x found

/-- The items are handled one after the other, those added meanwhile included. The items are
different and there are not more than `bound` of them, so the fuel lasts. -/
theorem finished_close (keeps : ∀ c : Column ν, c.Tidy g → (∀ x ∈ c.items, V x) → ∀ it ∈ c.items,
      ∀ x ∈ additions g earlier c it, V x)
    (few : ∀ items : List Item, items.Nodup → (∀ x ∈ items, V x) → items.length ≤ bound) {fuel : Nat}
    (tidy : c.Tidy g) (valid : ∀ x ∈ c.items, V x)
    (done : ∀ i < k, ∀ x, c.items[i]? = some x → Handled g earlier c x) (enough : bound < fuel + k) :
    Finished g earlier V (c.close g earlier fuel k) ∧
      c.items.toList <+: (c.close g earlier fuel k).items.toList := by
  induction fuel generalizing k c with
  | zero =>
    rw [Column.close]
    refine ⟨finished_of_done tidy valid done ?_, prefix_rfl⟩
    have size := few c.items.toList tidy.nodup (by simpa using valid)
    rw [Array.length_toList] at size
    omega
  | succ fuel ih =>
    rw [Column.close]
    split
    next it found =>
      have here : it ∈ c.items := Array.mem_of_getElem? found
      obtain ⟨tidy', grown, mem⟩ := tidy.addAll (additions g earlier c it)
      have handled : Handled g earlier (c.addAll g (additions g earlier c it)) it := handled_addAll tidy
      generalize c.addAll g (additions g earlier c it) = next at tidy' grown mem handled ⊢
      have valid' : ∀ x ∈ next.items, V x := fun x hx =>
        ((mem x).1 hx).elim (valid x) (keeps c tidy valid it here x)
      have done' : ∀ i < k + 1, ∀ x, next.items[i]? = some x → Handled g earlier next x := by
        intro i hi x found'
        have inside : k < c.items.size := (Array.getElem?_eq_some_iff.1 found).1
        -- the items up to this one are where they were
        have same : next.items[i]? = c.items[i]? := by
          obtain ⟨more, eq⟩ := grown
          rw [← Array.getElem?_toList, ← Array.getElem?_toList, ← eq, getElem?_append_left]
          rw [Array.length_toList]
          omega
        rw [same] at found'
        rcases Nat.lt_succ_iff_lt_or_eq.1 hi with before | rfl
        · exact (done i before x found').mono grown
        · cases found.symm.trans found'
          exact handled
      obtain ⟨finished, grown'⟩ := ih tidy' valid' done' (by omega)
      exact ⟨finished, grown.trans grown'⟩
    next past =>
      exact ⟨finished_of_done tidy valid done (Array.getElem?_eq_none_iff.1 past), prefix_rfl⟩

end Closure

section Bound

def Fitting (g : Grammar ν τ) (j : Nat) (it : Item) : Prop :=
  (∃ r, g.rules[it.rule]? = some r ∧ it.dot ≤ r.rhs.length) ∧ it.origin ≤ j

def fittingItems (g : Grammar ν τ) (j : Nat) : List Item :=
  g.rules.toList.zipIdx.flatMap fun (r, rule) => (range (r.rhs.length + 1)).flatMap fun dot =>
    (range (j + 1)).map fun origin => ⟨rule, dot, origin⟩

theorem length_le_itemBound {g : Grammar ν τ} {j : Nat} {items : List Item} (nodup : items.Nodup)
    (fitting : ∀ it ∈ items, Fitting g j it) : items.length ≤ itemBound g j := by
  have length : (fittingItems g j).length = itemBound g j := by
    rw [itemBound, ← zipIdx_map_fst 0 g.rules.toList, foldr_map, fittingItems, length_flatMap,
      sum_eq_foldr, foldr_map]
    simp [length_flatMap]
  rw [← length]
  refine (subperm_of_subset nodup fun it hit => ?_).length_le
  obtain ⟨⟨r, found, dot⟩, origin⟩ := fitting it hit
  simp only [fittingItems, mem_flatMap, mem_map, mem_range, Prod.exists]
  exact ⟨r, it.rule, by simpa [mem_zipIdx_iff_getElem?] using found, it.dot, by omega, it.origin, by omega, rfl⟩

end Bound

section Promise

/-- After the tokens before it a nonterminal may come next: it is the start, or a part of a rule whose
parts before it have been read and whose left-hand side may come where they begin. -/
inductive Awaited (g : Grammar ν τ) (start : ν) : List τ → ν → Prop
  | start : Awaited g start [] start
  | part {before middle : List τ} {n m : ν} {rule : Nat} {α β : List (Symbol ν τ)}
      {trees : List (Tree τ)} (outer : Awaited g start before n)
      (found : g.rules[rule]? = some ⟨n, α ++ .nonterminal m :: β⟩)
      (reads : Reads g α middle [] trees) : Awaited g start (before ++ middle) m

/-- What an item of column `j` promises: the symbols before its dot read the tokens from its origin
up to the column, and its left-hand side may come at its origin. -/
structure Valid (g : Grammar ν τ) (start : ν) (tokens : List τ) (j : Nat) (it : Item) : Prop where
  fitting : Fitting g j it
  reads : ∃ trees, Reads g ((g.rhs it.rule).take it.dot) (tokens.drop it.origin) (tokens.drop j) trees
  awaited : ∀ n, lhs? g it.rule = some n → Awaited g start (tokens.take it.origin) n

variable {g : Grammar ν τ} {start n : ν} {tokens : List τ} {j i k rule : Nat} {it : Item} {r : Rule ν τ}
  {ts : List (Tree τ)}

theorem lhs?_of_found (found : g.rules[rule]? = some r) : lhs? g rule = some r.lhs := by
  rw [lhs?, found, Option.map_some]

theorem Valid.advance {x : Symbol ν τ} (h : Valid g start tokens j it) (next : next? g it = some x)
    (later : j ≤ k) (reads : Reads g [x] (tokens.drop j) (tokens.drop k) ts) :
    Valid g start tokens k it.advance := by
  obtain ⟨⟨⟨r, found, dot⟩, origin⟩, ⟨us, before⟩, awaited⟩ := h
  rw [next?] at next
  have inside : it.dot < (g.rhs it.rule).length := (List.getElem?_eq_some_iff.1 next).1
  refine ⟨⟨⟨r, found, ?_⟩, ?_⟩, ⟨us ++ ts, ?_⟩, awaited⟩
  · rw [rhs_of_found found] at inside
    exact inside
  · exact Nat.le_trans origin later
  · have taken : (g.rhs it.rule).take (it.dot + 1) = (g.rhs it.rule).take it.dot ++ [x] := by
      rw [take_add_one, next, Option.toList_some]
    change Reads g ((g.rhs it.rule).take (it.dot + 1)) _ _ _
    rw [taken]
    exact before.append reads

theorem valid_start (found : g.rules[rule]? = some r) (awaited : Awaited g start (tokens.take j) r.lhs) :
    Valid g start tokens j ⟨rule, 0, j⟩ := by
  refine ⟨⟨⟨r, found, Nat.zero_le _⟩, Nat.le_refl j⟩, ⟨[], .nil⟩, fun n lhs => ?_⟩
  obtain rfl : r.lhs = n := Option.some.inj ((lhs?_of_found found).symm.trans lhs)
  exact awaited

omit [DecidableEq ν] [Ord ν] in
theorem take_append_drop_take (tokens : List τ) (le : i ≤ j) :
    tokens.take i ++ (tokens.take j).drop i = tokens.take j := by
  have shorter : tokens.take i = (tokens.take j).take i := by rw [take_take, Nat.min_eq_left le]
  rw [shorter, take_append_drop]

/-- What was read between two columns, by itself. -/
theorem reads_between {γ : List (Symbol ν τ)} (le : i ≤ j)
    (reads : Reads g γ (tokens.drop i) (tokens.drop j) ts) : Reads g γ ((tokens.take j).drop i) [] ts := by
  have whole := reads.yield
  have later : tokens.drop j = (tokens.drop i).drop (j - i) := by
    rw [drop_drop]
    congr 1
    omega
  have read : yields ts = (tokens.take j).drop i := by
    apply (append_left_inj (tokens.drop j)).1
    rw [drop_take, ← whole, later, take_append_drop]
  rw [← read, ← append_nil (yields ts)]
  exact reads.frame []

/-- What an item is about to read may come next. -/
theorem Valid.next {m : ν} (h : Valid g start tokens j it) (next : next? g it = some (.nonterminal m)) :
    Awaited g start (tokens.take j) m := by
  obtain ⟨⟨⟨r, found, dot⟩, origin⟩, ⟨ts, reads⟩, awaited⟩ := h
  have split : r.rhs = r.rhs.take it.dot ++ .nonterminal m :: r.rhs.drop (it.dot + 1) := by
    rw [next?, rhs_of_found found, getElem?_eq_some_iff] at next
    obtain ⟨inside, next⟩ := next
    rw [← next, ← drop_eq_getElem_cons inside, take_append_drop]
  have shape : g.rules[it.rule]? =
      some ⟨r.lhs, r.rhs.take it.dot ++ .nonterminal m :: r.rhs.drop (it.dot + 1)⟩ := by
    rw [found, ← split]
  rw [rhs_of_found found] at reads
  rw [← take_append_drop_take tokens origin]
  exact .part (awaited r.lhs (lhs?_of_found found)) shape (reads_between origin reads)

theorem Valid.complete (h : Valid g start tokens j it) (next : next? g it = none)
    (lhs : lhs? g it.rule = some n) :
    ∃ t, Reads g [.nonterminal n] (tokens.drop it.origin) (tokens.drop j) [t] := by
  obtain ⟨⟨⟨r, found, dot⟩, -⟩, ⟨ts, reads⟩, -⟩ := h
  obtain rfl : r.lhs = n := Option.some.inj ((lhs?_of_found found).symm.trans lhs)
  rw [next?, getElem?_eq_none_iff] at next
  rw [take_of_length_le next, rhs_of_found found] at reads
  exact ⟨_, reads_node found reads⟩

end Promise

section Chart

variable {j i k : Nat} {it : Item} {γ β : List (Symbol ν τ)} {t : τ} {ts : List (Tree τ)}

def In (columns : Array (Column ν)) (j : Nat) (it : Item) : Prop :=
  ∃ c, columns[j]? = some c ∧ it ∈ c.items

/-- What the columns built so far are like. -/
structure Charted (g : Grammar ν τ) (start : ν) (tokens : List τ) (columns : Array (Column ν)) :
    Prop where
  tidy : ∀ (j : Nat) (c : Column ν), columns[j]? = some c → c.Tidy g
  valid : ∀ {j it}, In columns j it → Valid g start tokens j it
  started : 0 < columns.size → ∀ r ∈ g.rulesFor start, In columns 0 ⟨r, 0, 0⟩
  predicted : ∀ {j it n}, In columns j it → next? g it = some (.nonterminal n) →
    ∀ r ∈ g.rulesFor n, In columns j ⟨r, 0, j⟩
  skipped : ∀ {j it n}, In columns j it → next? g it = some (.nonterminal n) →
    g.isNullable n = true → In columns j it.advance
  completed : ∀ {j it n w}, In columns j it → next? g it = none → lhs? g it.rule = some n →
    it.origin < j → In columns it.origin w → next? g w = some (.nonterminal n) →
    In columns j w.advance
  scanned : ∀ {j it label accepts t}, In columns j it → j + 1 < columns.size →
    next? g it = some (.terminal label accepts) → tokens[j]? = some t → accepts t = true →
    In columns (j + 1) it.advance

variable {g : Grammar ν τ} {start : ν} {tokens : List τ} {columns : Array (Column ν)} {c : Column ν}

theorem in_push : In (columns.push c) j it ↔ In columns j it ∨ j = columns.size ∧ it ∈ c.items := by
  unfold In
  rw [Array.getElem?_push]
  split
  next here =>
    subst here
    simp
  next other =>
    simp [other]

theorem In.lt (h : In columns j it) : j < columns.size := by
  obtain ⟨c, found, -⟩ := h
  exact (Array.getElem?_eq_some_iff.1 found).1

theorem in_last : In (columns.push c) columns.size it ↔ it ∈ c.items := by
  refine in_push.trans ⟨fun h => (h.resolve_left fun old => Nat.lt_irrefl _ old.lt).2, fun h => .inr ⟨rfl, h⟩⟩

section

variable [Std.TransOrd ν] [Std.LawfulEqOrd ν]

theorem valid_additions (chart : Charted g start tokens columns) (tidy : c.Tidy g)
    (valid : ∀ x ∈ c.items, Valid g start tokens columns.size x) :
    ∀ it ∈ c.items, ∀ x ∈ additions g columns c it, Valid g start tokens columns.size x := by
  intro it hit x hx
  rw [additions] at hx
  split at hx
  next next =>
    split at hx
    next n lhs =>
      obtain ⟨w, hw, rfl⟩ := mem_map.1 hx
      rw [Array.mem_toList_iff] at hw
      obtain ⟨t, reads⟩ := (valid it hit).complete next lhs
      -- the item that waits is in an earlier column or in this one
      cases found : columns[it.origin]? with
      | some o =>
        rw [found] at hw
        obtain ⟨mem, waits⟩ := ((chart.tidy _ _ found).waiting n w).1 hw
        have before := (Array.getElem?_eq_some_iff.1 found).1
        exact (chart.valid ⟨o, found, mem⟩).advance waits (Nat.le_of_lt before) reads
      | none =>
        rw [found] at hw
        obtain ⟨mem, waits⟩ := (tidy.waiting n w).1 hw
        have here : it.origin = columns.size :=
          Nat.le_antisymm (valid it hit).fitting.2 (Array.getElem?_eq_none_iff.1 found)
        rw [here] at reads
        exact (valid w mem).advance waits (Nat.le_refl _) reads
    · cases hx
  · cases hx
  next n next =>
    rcases mem_append.1 hx with hx | hx
    · obtain ⟨r, hr, rfl⟩ := mem_map.1 hx
      obtain ⟨rhs, found⟩ := (mem_rulesFor g).1 hr
      exact valid_start found ((valid it hit).next next)
    · split at hx
      next nullable =>
        rw [mem_singleton] at hx
        subst hx
        obtain ⟨t, reads⟩ := vanishing_of_isNullable nullable
        exact (valid it hit).advance next (Nat.le_refl _) (reads _)
      · cases hx

theorem finished_closure (chart : Charted g start tokens columns) (tidy : c.Tidy g)
    (valid : ∀ x ∈ c.items, Valid g start tokens columns.size x) :
    Finished g columns (Valid g start tokens columns.size) (c.closure g columns) ∧
      c.items.toList <+: (c.closure g columns).items.toList :=
  finished_close (fun _ => valid_additions chart)
    (fun _ nodup valid => length_le_itemBound nodup fun x hx => (valid x hx).fitting) tidy valid
    nofun (Nat.lt_succ_self _)

end

/-- A finished column that has what the last one hands on goes on with the chart. -/
theorem Charted.push (chart : Charted g start tokens columns)
    (finished : Finished g columns (Valid g start tokens columns.size) c)
    (started : columns.size = 0 → ∀ r ∈ g.rulesFor start, ⟨r, 0, 0⟩ ∈ c.items)
    (scanned : ∀ {j it label accepts t}, In columns j it → j + 1 = columns.size →
      next? g it = some (.terminal label accepts) → tokens[j]? = some t → accepts t →
      it.advance ∈ c.items) : Charted g start tokens (columns.push c) where
  tidy j d found := by
    rw [Array.getElem?_push] at found
    split at found
    · cases found
      exact finished.tidy
    · exact chart.tidy j d found
  valid h := by
    rcases in_push.1 h with old | ⟨rfl, new⟩
    · exact chart.valid old
    · exact finished.valid _ new
  started _ r hr := by
    by_cases first : columns.size = 0
    · exact in_push.2 (.inr ⟨first.symm, started first r hr⟩)
    · exact in_push.2 (.inl (chart.started (Nat.pos_of_ne_zero first) r hr))
  predicted h next r hr := by
    rcases in_push.1 h with old | ⟨rfl, new⟩
    · exact in_push.2 (.inl (chart.predicted old next r hr))
    · exact in_push.2 (.inr ⟨rfl, (finished.handled _ new).predicted _ next r hr⟩)
  skipped h next nullable := by
    rcases in_push.1 h with old | ⟨rfl, new⟩
    · exact in_push.2 (.inl (chart.skipped old next nullable))
    · exact in_push.2 (.inr ⟨rfl, (finished.handled _ new).skipped _ next nullable⟩)
  completed h next lhs before hw waits := by
    have inside := h.lt
    rw [Array.size_push] at inside
    have hw := (in_push.1 hw).resolve_right (by omega)
    rcases in_push.1 h with old | ⟨rfl, new⟩
    · exact in_push.2 (.inl (chart.completed old next lhs before hw waits))
    · obtain ⟨o, found, mem⟩ := hw
      have waiting := ((chart.tidy _ _ found).waiting _ _).2 ⟨mem, waits⟩
      exact in_push.2 (.inr ⟨rfl, (finished.handled _ new).completed _ o next lhs found _ waiting⟩)
  scanned {j _ _ _ _} h more next token fits := by
    rw [Array.size_push] at more
    have old := (in_push.1 h).resolve_right (by omega)
    by_cases last : j + 1 = columns.size
    · exact in_push.2 (.inr ⟨last, scanned old last next token fits⟩)
    · exact in_push.2 (.inl (chart.scanned old (by omega) next token fits))

theorem next?_of_drop {x : Symbol ν τ} {rest : List (Symbol ν τ)}
    (h : (g.rhs it.rule).drop it.dot = x :: rest) :
    next? g it = some x ∧ (g.rhs it.rule).drop it.advance.dot = rest := by
  constructor
  · rw [next?, ← head?_drop, h, head?_cons]
  · change (g.rhs it.rule).drop (it.dot + 1) = rest
    rw [← drop_drop, h]
    rfl

theorem drop_cons {rest : List τ} (h : tokens.drop i = t :: rest) :
    i < tokens.length ∧ tokens[i]? = some t ∧ tokens.drop (i + 1) = rest := by
  have inside : i < tokens.length := by
    have length := congrArg List.length h
    rw [length_drop, length_cons] at length
    omega
  refine ⟨inside, ?_, ?_⟩
  · rw [← head?_drop, h, head?_cons]
  · rw [← drop_drop, h]
    rfl

variable [Std.TransOrd ν] [Std.LawfulEqOrd ν]

/-- An item moves over all that its symbols read. -/
theorem Charted.moves (chart : Charted g start tokens columns) (hj : j ≤ tokens.length)
    (hk : k ≤ tokens.length) (last : k < columns.size) (h : In columns j it)
    (dot : (g.rhs it.rule).drop it.dot = γ ++ β) (reads : Reads g γ (tokens.drop j) (tokens.drop k) ts) :
    In columns k ⟨it.rule, it.dot + γ.length, it.origin⟩ := by
  generalize from_j : tokens.drop j = input at reads
  generalize to_k : tokens.drop k = output at reads
  induction reads generalizing it j k β with
  | nil =>
    obtain rfl : j = k := drop_injective hj hk (from_j.trans to_k.symm)
    exact h
  | @token _ _ others _ _ _ _ fits tail ih =>
    obtain ⟨inside, token, after⟩ := drop_cons from_j
    obtain ⟨next, dot'⟩ := next?_of_drop dot
    have length := tail.length_le
    rw [← after, ← to_k, length_drop, length_drop] at length
    have moved := chart.scanned h (by omega) next token fits
    have done := ih inside hk last moved dot' after to_k
    rwa [length_cons, Nat.add_comm others.length, ← Nat.add_assoc]
  | @phrase n others rhs rule _ _ _ _ _ found inner tail inner_ih tail_ih =>
    obtain ⟨next, dot'⟩ := next?_of_drop dot
    rw [← from_j] at inner
    obtain ⟨m, hjm, hm, rfl⟩ := inner.exists_drop hj
    have length := tail.length_le
    rw [← to_k, length_drop, length_drop] at length
    have moved : In columns m it.advance := by
      rcases Nat.eq_or_lt_of_le hjm with rfl | before
      · exact chart.skipped h next (isNullable_of_reads (reads_node found inner))
      · have mem : rule ∈ g.rulesFor n := (mem_rulesFor g).2 ⟨rhs, found⟩
        have predicted := chart.predicted h next rule mem
        have complete := inner_ih hj hm (by omega) predicted (β := [])
          (by rw [rhs_of_found found, drop_zero, append_nil]) from_j rfl
        refine chart.completed complete ?_ (lhs?_of_found found) before h next
        rw [next?, rhs_of_found found, getElem?_eq_none_iff]
        exact Nat.le_add_left _ _
    have done := tail_ih hm hk last moved dot' rfl to_k
    rwa [length_cons, Nat.add_comm others.length, ← Nat.add_assoc]

/-- Where a derivation goes across a token, the terminal of that leaf is the next symbol of an item. -/
theorem Charted.crosses (chart : Charted g start tokens columns) (hj : j ≤ i) (hk : i < k)
    (hi : i < columns.size) (token : tokens[i]? = some t) (bound : k ≤ tokens.length) (h : In columns j it)
    (dot : (g.rhs it.rule).drop it.dot = γ ++ β) (reads : Reads g γ (tokens.drop j) (tokens.drop k) ts) :
    ∃ x label accepts, In columns i x ∧ next? g x = some (.terminal label accepts) ∧
      accepts t ∧ (terminalsOf g γ ts)[i - j]? = some (.terminal label accepts) := by
  generalize from_j : tokens.drop j = input at reads
  generalize to_k : tokens.drop k = output at reads
  induction reads generalizing it j k β with
  | nil =>
    have := drop_injective (by omega) bound (from_j.trans to_k.symm)
    omega
  | token fits tail ih =>
    obtain ⟨-, token', after⟩ := drop_cons from_j
    obtain ⟨next, dot'⟩ := next?_of_drop dot
    rcases Nat.eq_or_lt_of_le hj with rfl | before
    · cases token.symm.trans token'
      exact ⟨it, _, _, h, next, fits, by simp [terminalsOf, Tree.terminals]⟩
    · have moved := chart.scanned h (by omega) next token' fits
      obtain ⟨x, label, accepts, here, next', fits', leaf⟩ := ih before hk bound moved dot' after to_k
      refine ⟨x, label, accepts, here, next', fits', ?_⟩
      rw [terminalsOf, Tree.terminals, show i - j = i - (j + 1) + 1 by omega]
      exact leaf
  | @phrase n others rhs rule _ _ _ _ _ found inner tail inner_ih tail_ih =>
    obtain ⟨next, dot'⟩ := next?_of_drop dot
    rw [← from_j] at inner
    obtain ⟨m, hjm, hm, rfl⟩ := inner.exists_drop (by omega)
    have length := inner.length_terminals
    have read := congrArg List.length inner.yield
    rw [length_append, length_drop, length_drop] at read
    have shape : g.rhs rule = rhs := rhs_of_found found
    rw [terminalsOf, Tree.terminals, shape]
    by_cases inside : m ≤ i
    · have whole : Reads g [.nonterminal n] (tokens.drop j) (tokens.drop m) _ := reads_node found inner
      have moved := chart.moves (by omega) hm (by omega) h (γ := [.nonterminal n]) dot whole
      obtain ⟨x, label, accepts, here, next', fits, leaf⟩ := tail_ih inside hk bound moved dot' rfl to_k
      refine ⟨x, label, accepts, here, next', fits, ?_⟩
      rw [getElem?_append_right (by omega), ← leaf]
      congr 1
      omega
    · have mem : rule ∈ g.rulesFor n := (mem_rulesFor g).2 ⟨rhs, found⟩
      have predicted := chart.predicted h next rule mem
      obtain ⟨x, label, accepts, here, next', fits, leaf⟩ :=
        inner_ih hj (by omega) hm predicted (β := [])
          (by rw [rhs_of_found found, drop_zero, append_nil]) from_j rfl
      refine ⟨x, label, accepts, here, next', fits, ?_⟩
      rw [getElem?_append_left (by omega), leaf]

end Chart

section Building

variable {g : Grammar ν τ} {start : ν} {tokens : List τ} {columns : Array (Column ν)} {c : Column ν} {t : τ}
  {it x : Item}

theorem across?_eq_some : it.across? g t = some x ↔
    ∃ label accepts, next? g it = some (.terminal label accepts) ∧ accepts t ∧ x = it.advance := by
  unfold Item.across?
  split
  next label accepts next =>
    split
    next fits =>
      constructor
      · rintro ⟨⟩
        exact ⟨_, _, next, fits, rfl⟩
      · rintro ⟨_, _, _, _, rfl⟩
        rfl
    next unfit =>
      refine ⟨nofun, ?_⟩
      rintro ⟨_, _, next', fits, -⟩
      cases next.symm.trans next'
      exact (unfit fits).elim
  next other =>
    refine ⟨nofun, ?_⟩
    rintro ⟨_, _, next, -, -⟩
    exact (other _ _ next).elim

theorem charted_empty : Charted g start tokens #[] where
  tidy := nofun
  valid := fun ⟨_, found, _⟩ => nomatch found
  started := nofun
  predicted := fun ⟨_, found, _⟩ => nomatch found
  skipped := fun ⟨_, found, _⟩ => nomatch found
  completed := fun ⟨_, found, _⟩ => nomatch found
  scanned := fun ⟨_, found, _⟩ => nomatch found

variable [Std.TransOrd ν] [Std.LawfulEqOrd ν]

theorem tidy_scan (t : τ) : (c.scan g t).Tidy g := (tidy_empty.addAll _).1

theorem mem_scan : x ∈ (c.scan g t).items ↔ ∃ it ∈ c.items, ∃ label accepts,
    next? g it = some (.terminal label accepts) ∧ accepts t ∧ x = it.advance := by
  rw [Column.scan, (tidy_empty.addAll _).2.2]
  simp [across?_eq_some]

theorem charted_firstColumn : Charted g start tokens (#[].push (firstColumn g start)) := by
  obtain ⟨tidy, -, mem⟩ :=
    (tidy_empty (g := g)).addAll ((g.rulesFor start).map fun r => ⟨r, 0, 0⟩)
  have empty : Charted g start tokens #[] := charted_empty
  obtain ⟨finished, grown⟩ := finished_closure empty tidy fun x hx => by
    obtain ⟨r, hr, rfl⟩ := mem_map.1 (((mem x).1 hx).resolve_left (by simp))
    obtain ⟨rhs, found⟩ := (mem_rulesFor g).1 hr
    exact valid_start found .start
  refine empty.push finished (fun _ r hr => ?_) fun ⟨_, found, _⟩ => nomatch found
  exact Column.mem_of_prefix grown ((mem ⟨r, 0, 0⟩).2 (.inr (mem_map_of_mem hr)))

theorem Charted.next (chart : Charted g start tokens (columns.push c))
    (token : tokens[columns.size]? = some t) : Charted g start tokens
      ((columns.push c).push ((c.scan g t).closure g (columns.push c))) := by
  have inside : columns.size < tokens.length := (List.getElem?_eq_some_iff.1 token).1
  have here : tokens.drop columns.size = t :: tokens.drop (columns.size + 1) := by
    rw [drop_eq_getElem_cons inside, (List.getElem?_eq_some_iff.1 token).2]
  obtain ⟨finished, grown⟩ := finished_closure chart (tidy_scan t) fun x hx => by
    obtain ⟨it, hit, label, accepts, next, fits, rfl⟩ := mem_scan.1 hx
    have valid := chart.valid (in_last.2 hit)
    rw [Array.size_push]
    have reads : Reads g [.terminal label accepts] (tokens.drop columns.size)
        (tokens.drop (columns.size + 1)) [.leaf t] := by
      rw [here]
      exact .token fits .nil
    exact valid.advance next (Nat.le_succ _) reads
  refine chart.push finished (fun empty => ?_) fun h last next token' fits => ?_
  · rw [Array.size_push] at empty
    omega
  · rw [Array.size_push, Nat.add_right_cancel_iff] at last
    subst last
    cases token.symm.trans token'
    exact Column.mem_of_prefix grown (mem_scan.2 ⟨_, in_last.1 h, _, _, next, fits, rfl⟩)

theorem stuck_of_scan (empty : (c.scan g t).items = #[]) {label : String} {accepts : τ → Bool}
    (h : In (columns.push c) columns.size x) (next : next? g x = some (.terminal label accepts)) :
    accepts t = false := by
  by_contra fits
  rw [Bool.not_eq_false] at fits
  have added := mem_scan.2 ⟨_, in_last.1 h, _, _, next, fits, rfl⟩
  rw [empty] at added
  exact Array.not_mem_empty _ added

theorem Charted.exists_mem_closure (chart : Charted g start tokens (columns.push c))
    (token : tokens[columns.size]? = some t) (some : ∃ x, x ∈ (c.scan g t).items) :
    ∃ x, x ∈ ((c.scan g t).closure g (columns.push c)).items := by
  obtain ⟨x, hx⟩ := some
  obtain ⟨it, hit, label, accepts, next, fits, rfl⟩ := mem_scan.1 hx
  have later := (chart.next token).scanned (in_push.2 (.inl (in_last.2 hit))) (by simp) next token fits
  rw [← Array.size_push c] at later
  exact ⟨it.advance, in_last.1 later⟩

/-- All columns were built, or no item gets across some token. If the first column has items, so
has the last one that was built. -/
def Built (g : Grammar ν τ) (start : ν) (tokens : List τ) (c : Column ν)
    (answer : Except (Nat × List String) (Array (Column ν))) : Prop :=
  ∃ (earlier : Array (Column ν)) (last : Column ν), Charted g start tokens (earlier.push last) ∧
    ((∃ x, x ∈ c.items) → ∃ x, x ∈ last.items) ∧
    (answer = .ok (earlier.push last) ∧ earlier.size = tokens.length ∨
      ∃ t, answer = .error (earlier.size, last.expected g) ∧ tokens[earlier.size]? = some t ∧
        (last.scan g t).items = #[])

theorem built_extend {remaining : List τ} (chart : Charted g start tokens (columns.push c))
    (rest : tokens.drop columns.size = remaining) (inside : columns.size ≤ tokens.length) :
    Built g start tokens c (extend g columns c remaining) := by
  induction remaining generalizing columns c with
  | nil =>
    rw [drop_eq_nil_iff] at rest
    exact ⟨columns, c, chart, id, .inl ⟨rfl, by omega⟩⟩
  | cons t remaining ih =>
    obtain ⟨more, token, rest⟩ := drop_cons rest
    rw [extend]
    split
    next empty =>
      exact ⟨columns, c, chart, id, .inr ⟨t, rfl, token, Array.isEmpty_iff.1 empty⟩⟩
    next full =>
      have size : (columns.push c).size = columns.size + 1 := Array.size_push ..
      have grown : ∃ x, x ∈ ((c.scan g t).closure g (columns.push c)).items := by
        apply chart.exists_mem_closure token
        apply Array.exists_mem_of_ne_empty
        simpa using full
      obtain ⟨earlier, last, done, some, answer⟩ :=
        ih (chart.next token) (by rw [size, rest]) (by omega)
      exact ⟨earlier, last, done, fun _ => some grown, answer⟩

theorem built_chart (g : Grammar ν τ) (start : ν) (tokens : List τ) :
    Built g start tokens (firstColumn g start) (chart g start tokens) :=
  built_extend charted_firstColumn rfl (Nat.zero_le _)

end Building

section Completions

variable {g : Grammar ν τ} {start n : ν} {tokens : List τ} {columns : Array (Column ν)} {s : Stretch ν}
  {tree : Tree τ} {j i : Nat} {it : Item}

theorem derives_start (h : Derives g start tokens tree) :
    ∃ rule rhs kids, tree = .node rule kids ∧ g.rules[rule]? = some ⟨start, rhs⟩ ∧
      Reads g rhs (tokens.drop 0) (tokens.drop tokens.length) kids := by
  rw [drop_length]
  exact h.node

theorem stretch?_eq_some : it.stretch? g j = some s ↔
    next? g it = none ∧ lhs? g it.rule = some s.name ∧ it.origin = s.start ∧ j = s.stop := by
  unfold Item.stretch?
  obtain ⟨n, i, k⟩ := s
  cases next? g it with
  | some x => simp
  | none =>
    cases lhs? g it.rule with
    | none | some n' => simp

theorem mem_stretchesOf : s ∈ stretchesOf g columns ↔ ∃ it, In columns s.stop it ∧ next? g it = none ∧
    lhs? g it.rule = some s.name ∧ it.origin = s.start := by
  simp only [stretchesOf, mem_flatMap, mem_filterMap, Prod.exists, mem_zipIdx_iff_getElem?, stretch?_eq_some, In,
    Array.getElem?_toList, Array.mem_toList_iff]
  constructor
  · rintro ⟨c, _, found, it, mem, next, lhs, origin, rfl⟩
    exact ⟨it, ⟨c, found, mem⟩, next, lhs, origin⟩
  · rintro ⟨it, ⟨c, found, mem⟩, next, lhs, origin⟩
    exact ⟨c, _, found, it, mem, next, lhs, origin, rfl⟩

/-- What is completed is derived. -/
theorem Charted.sound (chart : Charted g start tokens columns)
    (h : ⟨n, i, j⟩ ∈ stretchesOf g columns) : i ≤ j ∧ j < columns.size ∧
      ∃ t, Reads g [.nonterminal n] (tokens.drop i) (tokens.drop j) [t] := by
  obtain ⟨it, there, next, lhs, rfl⟩ := mem_stretchesOf.1 h
  have valid := chart.valid there
  exact ⟨valid.fitting.2, there.lt, valid.complete next lhs⟩

variable [Std.TransOrd ν] [Std.LawfulEqOrd ν]

/-- The terminal of every leaf of a sentence is the next symbol of an item. -/
theorem Charted.leaf (chart : Charted g start tokens columns) {t : τ} (derived : Derives g start tokens tree)
    (hi : i < columns.size) (token : tokens[i]? = some t) :
    ∃ x label accepts, In columns i x ∧ next? g x = some (.terminal label accepts) ∧
      accepts t ∧ (tree.terminals g (.nonterminal start))[i]? = some (.terminal label accepts) := by
  obtain ⟨rule, rhs, kids, rfl, found, reads⟩ := derives_start derived
  have mem : rule ∈ g.rulesFor start := (mem_rulesFor g).2 ⟨rhs, found⟩
  have shape : g.rhs rule = rhs := rhs_of_found found
  rw [Tree.terminals, shape]
  exact chart.crosses (Nat.zero_le i) (List.getElem?_eq_some_iff.1 token).1 hi token (Nat.le_refl _)
    (chart.started (by omega) rule mem) (β := []) (by rw [shape, drop_zero, append_nil]) reads

/-- Every chart without a gap has all columns, and where there is a gap nothing is derived. -/
theorem chart_cases (g : Grammar ν τ) (start : ν) (tokens : List τ) :
    (∃ columns, chart g start tokens = .ok columns ∧ Charted g start tokens columns ∧
      columns.size = tokens.length + 1) ∨
    ∃ e, chart g start tokens = .error e ∧ ∀ tree, ¬ Derives g start tokens tree := by
  obtain ⟨earlier, last, chart, -, ⟨made, full⟩ | ⟨t, failed, token, stuck⟩⟩ := built_chart g start tokens
  · exact .inl ⟨_, made, chart, by rw [Array.size_push, full]⟩
  · refine .inr ⟨_, failed, fun tree h => ?_⟩
    obtain ⟨x, label, accepts, there, next, fits, -⟩ := chart.leaf h (by simp) token
    rw [stuck_of_scan stuck there next] at fits
    cases fits

variable {stops : Stops ν} {b : Beginning ν} {m : Nat}

theorem Stops.mem_add : m ∈ (stops.add s).getD b #[] ↔ m ∈ stops.getD b #[] ∨ s.beginning = b ∧ m = s.stop := by
  unfold Stops.add
  dsimp only
  split
  next there =>
    refine (or_iff_left_of_imp ?_).symm
    rintro ⟨rfl, rfl⟩
    exact there
  · simp only [Std.TreeMap.getD_insert, Std.LawfulEqOrd.compare_eq_iff_eq]
    split
    next same =>
      subst same
      simp
    next other => simp [other]

omit [Std.LawfulEqOrd ν] in
theorem Stops.nodup_add (h : ∀ b, (stops.getD b #[]).toList.Nodup) (s : Stretch ν) (b : Beginning ν) :
    ((stops.add s).getD b #[]).toList.Nodup := by
  unfold Stops.add
  dsimp only
  split
  · exact h b
  next new =>
    rw [Std.TreeMap.getD_insert]
    split
    · exact nodup_push (h s.beginning) new
    · exact h b

theorem Stops.addAll (h : ∀ b, (stops.getD b #[]).toList.Nodup) (all : List (Stretch ν)) :
    (∀ b, ((all.foldl Stops.add stops).getD b #[]).toList.Nodup) ∧
      ∀ b m, m ∈ (all.foldl Stops.add stops).getD b #[] ↔
        m ∈ stops.getD b #[] ∨ ∃ s ∈ all, s.beginning = b ∧ m = s.stop := by
  induction all generalizing stops with
  | nil => exact ⟨h, by simp⟩
  | cons s all ih =>
    obtain ⟨nodup, mem⟩ := ih (Stops.nodup_add h s)
    refine ⟨nodup, fun b m => ?_⟩
    rw [foldl_cons, mem, Stops.mem_add, exists_mem_cons_iff, or_assoc]

theorem completions_spec (g : Grammar ν τ) (columns : Array (Column ν)) :
    (∀ b, ((completions g columns).stops.getD b #[]).toList.Nodup) ∧
      ∀ {n i j}, j ∈ (completions g columns).stops.getD ⟨n, i⟩ #[] ↔ ⟨n, i, j⟩ ∈ stretchesOf g columns := by
  have empty (b : Beginning ν) : ((∅ : Stops ν).getD b #[]).toList.Nodup := by simp
  obtain ⟨nodup, mem⟩ := Stops.addAll empty (stretchesOf g columns)
  refine ⟨nodup, fun {n i j} => (mem ⟨n, i⟩ j).trans ?_⟩
  constructor
  · rintro (none | ⟨s, there, same, rfl⟩)
    · simp at none
    · cases same
      exact there
  · exact fun there => .inr ⟨_, there, rfl, rfl⟩

theorem Charted.complete (chart : Charted g start tokens columns) {ts : List (Tree τ)}
    (hi : i ≤ tokens.length) (hj : j ≤ tokens.length) (last : j < columns.size)
    (predicted : ∀ r ∈ g.rulesFor n, In columns i ⟨r, 0, i⟩)
    (h : Reads g [.nonterminal n] (tokens.drop i) (tokens.drop j) ts) : ⟨n, i, j⟩ ∈ stretchesOf g columns := by
  obtain ⟨t, rfl⟩ := h.single
  obtain ⟨rule, rhs, kids, -, found, reads⟩ := h.node
  have there := predicted rule ((mem_rulesFor g).2 ⟨rhs, found⟩)
  have moved := chart.moves hi hj last there (β := [])
    (by rw [rhs_of_found found, drop_zero, append_nil]) reads
  refine mem_stretchesOf.2 ⟨_, moved, ?_, lhs?_of_found found, rfl⟩
  rw [next?, rhs_of_found found, getElem?_eq_none_iff]
  exact Nat.le_add_left _ _

end Completions
end Peano.Grammar
