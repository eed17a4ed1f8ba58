import Peano.Proofs.Syntax.Bare
import Peano.Proofs.Syntax.Proper
namespace Peano.Syntax
open List
open Token (Stroke Kind Spell)

section Takes

variable {α : Type} {n : Nonterminal} {rest : List Part} {good : α → Prop} {spells more others : List Spell}
variable {said : Meaning n → Prop}

/-- The first tokens of those that are spelled like this build something of the kind, and others are
left. -/
def Takes (n : Nonterminal) (spells others : List Spell) (good : Meaning n → Prop) : Prop :=
  ∀ tokens : List Token, tokens.map Token.spell = spells → ∃ first last v, tokens = first ++ last ∧
    last.map Token.spell = others ∧ Builds n first v ∧ good v

theorem Takes.imp {good better : Meaning n → Prop} (h : Takes n spells others good) (of : ∀ v, good v → better v) :
    Takes n spells others better := fun tokens spelled =>
  let ⟨first, last, v, split, left, builds, hv⟩ := h tokens spelled
  ⟨first, last, v, split, left, builds, of v hv⟩

/-- The first tokens of those that are spelled like this fill the parts of a production. -/
def Yields (good : α → Prop) (others : List Spell) : (rhs : List Part) →
    Builder rhs (Place → Except BadTag α) → List Spell → Prop
  | [], f, spells => spells = others ∧ ∀ place, ∃ v, (f place : Except BadTag α) = .ok v ∧ good v
  | .token k :: rest, f, spells => ∃ s more, spells = s :: more ∧
    ∀ t : Token, t.spell = s → k.accepts t = true ∧ Yields good others rest (f t) more
  | .phrase n :: rest, f, spells => ∃ more said, Takes n spells more said ∧
    ∀ u, said u → Yields good others rest (f u) more

theorem Yields.fills {rhs : List Part} {f : Builder rhs (Place → Except BadTag α)}
    (h : Yields good others rhs f spells) {tokens : List Token} (spelled : tokens.map Token.spell = spells)
    (place : Place) : ∃ first last v, tokens = first ++ last ∧ last.map Token.spell = others ∧
      Fills Builds rhs f place first v ∧ good v := by
  induction rhs generalizing spells tokens place with
  | nil =>
    obtain ⟨rfl, ends⟩ := h
    obtain ⟨v, given, hv⟩ := ends place
    exact ⟨[], tokens, v, rfl, spelled, ⟨rfl, given⟩, hv⟩
  | cons part rest ih =>
    cases part with
    | token k =>
      obtain ⟨s, more, rfl, step⟩ := h
      obtain ⟨t, behind, rfl, same, tail⟩ := map_eq_cons_iff.1 spelled
      obtain ⟨fits, later⟩ := step t same
      obtain ⟨first, last, v, rfl, left, fills, hv⟩ := ih later tail _
      exact ⟨t :: first, last, v, rfl, left, ⟨t, first, rfl, fits, fills⟩, hv⟩
    | phrase n =>
      obtain ⟨more, said, takes, step⟩ := h
      obtain ⟨front, behind, u, rfl, tail, builds, hu⟩ := takes tokens spelled
      obtain ⟨first, last, v, rfl, left, fills, hv⟩ := ih (step u hu) tail _
      exact ⟨front ++ first, last, v, (append_assoc _ _ _).symm, left,
        ⟨front, first, u, rfl, builds, fills⟩, hv⟩

def alternatives (n : Nonterminal) : List Production := productions.filter fun p => p.lhs = n

theorem takes_rule (k : Nat) {rhs : List Part} {f : Builder rhs (Place → Except BadTag (Meaning n))}
    (entry : (alternatives n)[k]? = some ⟨n, rhs, f⟩) (h : Yields said others rhs f spells) :
    Takes n spells others said := by
  intro tokens spelled
  obtain ⟨first, last, v, split, left, fills, hv⟩ := h.fills spelled none
  have mem := mem_of_getElem? entry
  exact ⟨first, last, v, split, left, builds_of_fills (mem_filter.1 mem).1 fills, hv⟩

theorem Yields.done {f : Builder [] (Place → Except BadTag α)}
    (h : ∀ place, ∃ v, (f place : Except BadTag α) = .ok v ∧ good v) : Yields good others [] f others :=
  ⟨rfl, h⟩

theorem Yields.sign {k : Kind} {text : String} {f : Builder (tok k :: rest) (Place → Except BadTag α)}
    (h : ∀ t : Token, t.kind = k → t.name = text → Yields good others rest (f t) more) :
    Yields good others (tok k :: rest) f ((k, text) :: more) := by
  refine ⟨_, _, rfl, fun t same => ?_⟩
  obtain ⟨kind, name⟩ := Prod.mk.inj same
  exact ⟨by simp [Terminal.accepts, kind], h t kind name⟩

theorem Yields.mark {k : Kind} {text : String} {f : Builder (tok k :: rest) (Place → Except BadTag α)}
    (h : ∀ t : Token, Yields good others rest (f t) more) :
    Yields good others (tok k :: rest) f ((k, text) :: more) :=
  .sign fun t _ _ => h t

theorem Yields.phrase {said : Meaning n → Prop}
    {f : Builder (.phrase n :: rest) (Place → Except BadTag α)} (takes : Takes n spells more said)
    (h : ∀ u, said u → Yields good others rest (f u) more) :
    Yields good others (.phrase n :: rest) f spells :=
  ⟨_, _, takes, h⟩

theorem Yields.last {f : Builder [.phrase n] (Place → Except BadTag α)} (takes : Takes n spells others said)
    (h : ∀ u, said u → ∀ place, ∃ v, (f u place : Except BadTag α) = .ok v ∧ good v) :
    Yields good others [.phrase n] f spells :=
  .phrase takes fun u hu => .done (h u hu)

theorem kept (v : α) (h : good v) (_ : Place) : ∃ w, (.ok v : Except BadTag α) = .ok w ∧ good w :=
  ⟨v, rfl, h⟩

end Takes

section Spelling

def Node.spells (n : Node) : List Spell := n.strokes.flatMap Stroke.spells

def Item.before : Item → List Spell → List Spell
  | .stroke .space, others | .stroke .newline, others => others
  | .stroke (.mark k), others => k.spell :: others
  | .stroke (.name x), others => (.ident, x) :: others
  | .stroke (.digits d), others => (.num, d) :: others
  | .stroke (.field x), others => Kind.dot.spell :: (.ident, x) :: others
  | .node n, others => n.spells ++ others

/-- The tokens of some items and then others. -/
def spellsThen (x : List Item) (others : List Spell) : List Spell := x.foldr Item.before others

theorem spellsThen_append (x y : List Item) (others : List Spell) :
    spellsThen (x ++ y) others = spellsThen x (spellsThen y others) :=
  foldr_append

theorem spellsThen_eq (x : List Item) (others : List Spell) :
    spellsThen x others = (strokesOf x).flatMap Stroke.spells ++ others := by
  induction x with
  | nil => rfl
  | cons i x ih =>
    have first : i.before (spellsThen x others) = i.strokes.flatMap Stroke.spells ++ spellsThen x others := by
      cases i with
      | node n => rfl
      | stroke s => cases s <;> rfl
    rw [strokesOf, flatMap_cons, flatMap_append, append_assoc, ← strokesOf, ← ih, ← first]
    rfl

/-- The printed items are read as something of the kind, whatever comes behind them. -/
def Given (n : Nonterminal) (x : List Item) (good : Meaning n → Prop) : Prop :=
  ∀ others, Takes n (spellsThen x others) others good

theorem Given.item {n : Nonterminal} {m : Node} {good : Meaning n → Prop} (h : Given n m.layout good)
    {others : List Spell} : Takes n (m.spells ++ others) others good := by
  have whole := h others
  rwa [spellsThen_eq, ← Node.strokes_eq] at whole

theorem intercalate_concat {α : Type} {sep x : List α} {xs : List (List α)} (some : xs ≠ []) :
    sep.intercalate (xs ++ [x]) = sep.intercalate xs ++ (sep ++ x) := by
  induction xs with
  | nil => exact (some rfl).elim
  | cons y xs ih =>
    cases xs with
    | nil => simp [intercalate_cons_cons]
    | cons z xs =>
      have inner := ih nofun
      simp only [cons_append, intercalate_cons_cons] at inner ⊢
      rw [inner]
      simp

/-- A list between commas is read entry by entry. -/
theorem given_commas {α : Type} {n : Nonterminal} {like : List α → Meaning n → Prop} (good : α → Prop)
    {layout : α → List Item} (one : ∀ x, good x → Given n (layout x) (like [x]))
    (more : ∀ xs x others, good x →
      (∀ others, Takes n (spellsThen (commas (xs.map layout)) others) others (like xs)) →
      Takes n (spellsThen (commas (xs.map layout)) (Kind.comma.spell :: spellsThen (layout x) others)) others
        (like (xs ++ [x])))
    {xs : List α} (each : ∀ x ∈ xs, good x) (some : xs ≠ []) : Given n (commas (xs.map layout)) (like xs) := by
  -- The grammar takes such a list apart at its last comma.
  induction xs using List.reverseRecOn with
  | nil => exact (some rfl).elim
  | append_singleton xs x ih =>
    obtain ⟨before, last⟩ := forall_mem_append.1 each
    have hx := last x mem_cons_self
    by_cases empty : xs = []
    · subst empty
      simpa [commas] using one x hx
    · intro others
      rw [commas, map_append, map_singleton, intercalate_concat (by simpa using empty),
        spellsThen_append]
      exact more xs x others hx (ih before empty)

end Spelling

section Types

/-- The same type at other places. -/
def TypeExpr.Like (t u : TypeExpr) : Prop := u.bare = t.bare

def TypeExpr.Printed (t : TypeExpr) : Prop := Given .negation t.layout t.Like

variable {ws others : List Spell} {said : TypeExpr → Prop}

theorem Takes.typeProduct (h : Takes .negation ws others said) : Takes .typeProduct ws others said :=
  takes_rule 1 rfl (.last h kept)

theorem Takes.typeSum (h : Takes .typeProduct ws others said) : Takes .typeSum ws others said :=
  takes_rule 1 rfl (.last h kept)

theorem Takes.equation (h : Takes .typeSum ws others said) : Takes .equation ws others said :=
  takes_rule 2 rfl (.last h kept)

theorem Takes.conjunction (h : Takes .equation ws others said) : Takes .conjunction ws others said :=
  takes_rule 1 rfl (.last h kept)

theorem Takes.disjunction (h : Takes .conjunction ws others said) : Takes .disjunction ws others said :=
  takes_rule 1 rfl (.last h kept)

theorem Takes.implication (h : Takes .disjunction ws others said) : Takes .implication ws others said :=
  takes_rule 1 rfl (.last h kept)

theorem Takes.logic (h : Takes .implication ws others said) : Takes .logic ws others said :=
  takes_rule 0 rfl (.last h kept)

theorem Takes.negation (h : Takes .typeAtom ws others said) : Takes .negation ws others said :=
  takes_rule 1 rfl (.last h kept)

variable {x y : Name} {t u : TypeExpr} {p : Place}

theorem TypeExpr.Printed.item (h : t.Printed) : Takes .negation ((Node.type t).spells ++ others) others t.Like :=
  Given.item (m := .type t) h

theorem TypeExpr.Printed.whole (h : t.Printed) : Takes .logic ((Node.type t).spells ++ others) others t.Like :=
  h.item.typeProduct.typeSum.equation.conjunction.disjunction.implication.logic

theorem Takes.typeParens (h : Takes .logic ws (Kind.rightParen.spell :: others) t.Like) :
    Takes .negation (Kind.leftParen.spell :: ws) others t.Like :=
  .negation (takes_rule 2 rfl (.mark fun _ => .phrase h fun v hv => .mark fun _ =>
    .done fun place => ⟨TypeExpr.withPlace place v, rfl, (TypeExpr.bare_withPlace place v).trans hv⟩))

theorem Takes.assertion (h : Takes .logic ws others t.Like) :
    Takes .assertion (Kind.colon.spell :: ws) others t.Like :=
  takes_rule 0 rfl (.mark fun _ => .last h kept)

attribute [local simp] TypeExpr.Like TypeExpr.bare Name.bare nameOf

theorem printed_typeName : (TypeExpr.name x).Printed :=
  fun _ => .negation (takes_rule 1 rfl (.sign fun t _ name => .done fun _ => ⟨_, rfl, by simp [name]⟩))

theorem printed_typeNumeral {digits : String} : (TypeExpr.numeral digits p).Printed :=
  fun _ => .negation (takes_rule 0 rfl (.sign fun t _ name => .done fun _ => ⟨_, rfl, by simp [name]⟩))

theorem TypeExpr.Like.binary {op : TypeOp} {v w : TypeExpr} {q : Place} (hv : t.Like v)
    (hw : u.Like w) : (TypeExpr.binary op t u p).Like (.binary op v w q) := by
  simp_all

theorem TypeExpr.Printed.binary {op : TypeOp} (ht : t.Printed) (hu : u.Printed) :
    (TypeExpr.binary op t u p).Printed := by
  intro others
  refine .typeParens ?_
  -- Both sides are printed as negations, so they fit at every level.
  cases op with
  | mul =>
    refine .logic (.implication (.disjunction (.conjunction (.equation (.typeSum ?_)))))
    exact takes_rule 0 rfl (.phrase ht.item.typeProduct fun v hv => .mark fun _ =>
      .last hu.item fun w hw _ => ⟨_, rfl, hv.binary hw⟩)
  | add =>
    refine .logic (.implication (.disjunction (.conjunction (.equation ?_))))
    exact takes_rule 0 rfl (.phrase ht.item.typeProduct.typeSum fun v hv => .mark fun _ =>
      .last hu.item.typeProduct fun w hw _ => ⟨_, rfl, hv.binary hw⟩)
  | equal =>
    refine .logic (.implication (.disjunction (.conjunction ?_)))
    exact takes_rule 0 rfl (.phrase ht.item.typeProduct.typeSum fun v hv => .mark fun _ =>
      .last hu.item.typeProduct.typeSum fun w hw _ => ⟨_, rfl, hv.binary hw⟩)
  | unequal =>
    refine .logic (.implication (.disjunction (.conjunction ?_)))
    exact takes_rule 1 rfl (.phrase ht.item.typeProduct.typeSum fun v hv => .mark fun _ =>
      .last hu.item.typeProduct.typeSum fun w hw _ => ⟨_, rfl, hv.binary hw⟩)
  | and =>
    refine .logic (.implication (.disjunction ?_))
    exact takes_rule 0 rfl (.phrase ht.item.typeProduct.typeSum.equation.conjunction fun v hv =>
      .mark fun _ => .last hu.item.typeProduct.typeSum.equation fun w hw _ => ⟨_, rfl, hv.binary hw⟩)
  | or =>
    refine .logic (.implication ?_)
    exact takes_rule 0 rfl (.phrase ht.item.typeProduct.typeSum.equation.conjunction.disjunction fun v hv =>
      .mark fun _ => .last hu.item.typeProduct.typeSum.equation.conjunction fun w hw _ =>
        ⟨_, rfl, hv.binary hw⟩)

theorem takes_typedParams (ht : Takes .logic ws others t.Like) :
    Takes .typedParams ((.ident, x.text) :: Kind.colon.spell :: ws) others fun (ps : Several Param) =>
      ∃ y v, ps = ⟨⟨y, some v⟩, []⟩ ∧ y.bare = x.bare ∧ t.Like v := by
  have one : Takes .typedParam ((.ident, x.text) :: Kind.colon.spell :: ws) others fun (q : Param) =>
      ∃ y v, q = ⟨y, some v⟩ ∧ y.bare = x.bare ∧ t.Like v :=
    takes_rule 0 rfl (.sign fun y _ name => .last ht.assertion fun v hv _ =>
      ⟨_, rfl, nameOf y, v, rfl, by simp [name], hv⟩)
  refine takes_rule 0 rfl (.last one ?_)
  rintro _ ⟨y, v, rfl, name, hv⟩ _
  exact ⟨_, rfl, y, v, rfl, name, hv⟩

theorem TypeExpr.Like.arrow {v w : TypeExpr} {q : Place} (name : y.bare = x.bare) (hv : t.Like v)
    (hw : u.Like w) : (TypeExpr.arrow x t u p).Like (arrows w q ⟨y, some v⟩ []) := by
  simp_all [arrows]

theorem TypeExpr.Printed.arrow (ht : t.Printed) (hu : u.Printed) : (TypeExpr.arrow x t u p).Printed := by
  intro others
  refine .typeParens (.logic (takes_rule 0 rfl (.mark fun _ => .phrase (takes_typedParams ht.whole) ?_)))
  rintro _ ⟨y, v, rfl, name, hv⟩
  exact .mark fun _ => .mark fun _ =>
    .last hu.item.typeProduct.typeSum.equation.conjunction.disjunction.implication
      fun w hw _ => ⟨_, rfl, .arrow name hv hw⟩

theorem TypeExpr.Printed.record (ht : t.Printed) (hu : u.Printed) : (TypeExpr.record x t y u p).Printed := by
  intro others
  have stop {ws : List Spell} : Takes .fieldEnd (Kind.semicolon.spell :: ws) ws fun _ => True :=
    takes_rule 0 rfl (.mark fun t => .done fun _ => ⟨t, rfl, trivial⟩)
  refine .negation (takes_rule 3 rfl (.mark fun _ => .sign fun y _ name => .phrase ht.whole.assertion
    fun v hv => .phrase stop fun _ _ => .sign fun z _ other => .phrase hu.whole.assertion fun w hw =>
      .mark fun _ => .done fun _ => ⟨_, rfl, ?_⟩))
  simp_all

theorem TypeExpr.Printed.not (ht : t.Printed) : (TypeExpr.not t p).Printed := by
  refine fun _ => takes_rule 0 rfl (.mark fun _ => .last ht.item fun v hv _ => ⟨_, rfl, ?_⟩)
  simp_all

theorem TypeExpr.Printed.call (ht : t.Printed) : (TypeExpr.call x t p).Printed := by
  refine fun _ => .negation (takes_rule 5 rfl (.sign fun y _ name => .mark fun _ => .phrase ht.whole fun v hv =>
    .mark fun _ => .done fun _ => ⟨_, rfl, ?_⟩))
  simp_all

theorem map_bare_concat {α : Type} {bare : α → α} {xs ys : List α} {x y : α}
    (hxs : ys.map bare = xs.map bare) (hx : bare y = bare x) :
    (ys ++ [y]).map bare = (xs ++ [x]).map bare := by
  rw [map_append, map_append, hxs, map_singleton, hx, map_singleton]

def Several.Like {α : Type} (bare : α → α) (xs : List α) (ys : Several α) : Prop :=
  ys.toList.map bare = xs.map bare

theorem Several.Like.one {α : Type} {bare : α → α} {x y : α} (h : bare y = bare x) :
    Several.Like bare [x] ⟨y, []⟩ := by
  simp [Several.Like, Several.toList, h]

theorem Several.Like.push {α : Type} {bare : α → α} {xs : List α} {ys : Several α} {x y : α}
    (hxs : Several.Like bare xs ys) (h : bare y = bare x) : Several.Like bare (xs ++ [x]) (ys.push y) :=
  map_bare_concat hxs h

theorem given_logicList {ts : List TypeExpr} (each : ∀ t ∈ ts, t.Printed) (some : ts ≠ []) :
    Given .logicList (commas (ts.map fun t => [t.item])) (Several.Like TypeExpr.bare ts) := by
  refine given_commas TypeExpr.Printed ?_ ?_ each some
  · exact fun t ht _ => takes_rule 0 rfl (.last ht.whole fun v hv _ => ⟨_, rfl, .one hv⟩)
  · exact fun ts t others ht hts => takes_rule 1 rfl (.phrase (hts _) fun vs hvs => .mark fun _ =>
      .last ht.whole fun v hv _ => ⟨_, rfl, hvs.push hv⟩)

theorem TypeExpr.printed_generic {ts : List TypeExpr} (each : ∀ t ∈ ts, t.Printed) (some : ts ≠ []) :
    (TypeExpr.generic x ts p).Printed := by
  intro others
  rw [TypeExpr.layout, ← cons_append, ← cons_append, spellsThen_append]
  refine .negation (takes_rule 4 rfl (.sign fun y _ name => .mark fun _ =>
    .phrase (given_logicList each some _) fun vs hvs => .mark fun _ => .done fun _ => ⟨_, rfl, ?_⟩))
  have entries : bareTypes (Several.toList vs) = bareTypes ts := by
    rw [bareTypes_eq, bareTypes_eq]
    exact hvs
  simp [name, entries]

end Types

end Peano.Syntax
