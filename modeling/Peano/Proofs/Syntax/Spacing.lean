import Peano.Proofs.Syntax.Layout
namespace Peano.Token

/-- A byte that stands for what a stroke begins with. -/
def Stroke.lead : Stroke → UInt8
  | space => 32
  | newline => 10
  | mark k => if k.isPunctuation then (signBytes k).1 else 97
  | name _ => 97
  | digits _ => 48
  | field _ => 46

def Stroke.blank : Stroke → Stroke
  | name _ => name ""
  | digits _ => digits ""
  | field _ => field ""
  | s => s

theorem Stroke.stopsAt_blank (s : Stroke) (b : UInt8) : s.blank.stopsAt b = s.stopsAt b := by
  cases s <;> rfl

/-- Strokes tell letters apart from digits and signs, but not from each other. -/
theorem Stroke.stopsAt_congr {s : Stroke} {b c : UInt8} (h : s.stopsAt c) (hb : isWordByte b)
    (hc : isWordByte c) (same : isDigit b = isDigit c) : s.stopsAt b := by
  have plain : isPlain b := isPlain_of_isWordByte hb
  have signs : b ≠ 61 ∧ b ≠ 62 ∧ b ≠ 43 := by
    unfold isWordByte isWordStart isDigit at hb
    grind
  cases s with
  | mark k => cases k <;> simp_all [stopsAt, Kind.isKeyword]
  | _ => simp_all [stopsAt]

theorem isDigit_of_isWordStart {b : UInt8} (start : isWordStart b) : isDigit b = false := by
  unfold isWordStart at start
  unfold isDigit
  grind

theorem apart_of_lead {a b : Stroke} (legal : b.Legal) (h : a.stopsAt b.lead) : Apart a b := by
  have word : ∀ {text : String}, IsWord text → a.stopsAt 97 →
      ∀ c ∈ (Bytes.ofString text).head?, a.stopsAt c := by
    intro text word stops c hc
    obtain ⟨b, w, bytes, start, -⟩ := isTextOf_eq word.word
    rw [bytes] at hc
    obtain rfl : b = c := Option.some.inj hc
    exact Stroke.stopsAt_congr stops (by simp [isWordByte, start]) (by decide) (isDigit_of_isWordStart start)
  cases b with
  | space => simpa [Apart, Stroke.text, ofString_space, Stroke.lead] using h
  | newline => simpa [Apart, Stroke.text, ofString_newline, Stroke.lead] using h
  | mark k =>
    -- Signs have their bytes; keywords and the word for logging begin with some letter.
    by_cases sign : k.isPunctuation
    · simpa [Apart, Stroke.text, ofString_sign sign, Stroke.lead, sign] using h
    · have kinds : k.isKeyword ∨ k = .log := by simpa [sign] using legal.2
      rw [Stroke.lead, if_neg sign] at h
      rcases kinds with keyword | rfl
      · exact word (isWord_keyword keyword).1 h
      · have bytes : (Bytes.ofString (Stroke.mark .log).text).head? = some 99 := by
          with_unfolding_all rfl
        intro c hc
        rw [bytes] at hc
        obtain rfl : 99 = c := Option.some.inj hc
        exact Stroke.stopsAt_congr h (by decide) (by decide) rfl
  | name n => exact word legal.toIsWord h
  | digits d =>
    obtain ⟨b, w, bytes, digit, -⟩ := isTextOf_eq legal.digits
    have stops := Stroke.stopsAt_congr (c := 48) h (by simp [isWordByte, digit]) (by decide) digit
    simpa [Apart, Stroke.text, bytes] using stops
  | field n =>
    simpa [Apart, Stroke.text, Bytes.ofString_append, ofString_dot, Stroke.lead] using h

end Peano.Token

namespace Peano.Syntax
open List
open Token (Stroke Kind)

section Fitting

variable {x y z : List Item}

/-- The bytes that trees begin with. -/
def leads : List UInt8 := [97, 48, 40, 123, 33, 59]

/-- The strokes that trees end with, but for their texts. -/
def ends : List Stroke :=
  [.name "", .digits "", .field "", .mark .rightParen, .mark .rightBrace, .mark .greater,
    .mark .semicolon]

def Item.opens : Item → Bool
  | stroke s => leads.contains s.lead
  | node _ => true

def Item.closes : Item → Bool
  | stroke s => ends.contains s.blank
  | node _ => true

/-- Whether a tree may come next. -/
def Item.precedes : Item → Bool
  | stroke s => leads.all s.stopsAt
  | node _ => false

/-- Whether a tree may come before. -/
def Item.follows : Item → Bool
  | stroke s => ends.all (·.stopsAt s.lead)
  | node _ => false

def Item.fits : Item → Item → Bool
  | stroke a, stroke b => a.stopsAt b.lead
  | i, node _ => i.precedes
  | node _, i => i.follows

theorem Item.fits_of_precedes {i j : Item} (hi : i.precedes) (hj : j.opens) : i.fits j := by
  cases i with
  | node => cases hi
  | stroke a =>
    cases j with
    | node => exact hi
    | stroke b => exact all_eq_true.1 hi _ (contains_iff_mem.1 hj)

theorem Item.fits_of_follows {i j : Item} (hi : i.closes) (hj : j.follows) : i.fits j := by
  cases j with
  | node => cases hj
  | stroke b =>
    have all := all_eq_true.1 hj
    cases i with
    | node => exact hj
    | stroke a =>
      have stops := all a.blank (contains_iff_mem.1 hi)
      rwa [a.stopsAt_blank] at stops

def fitting : List Item → Bool
  | i :: j :: rest => i.fits j && fitting (j :: rest)
  | _ => true

abbrev Chained (x : List Item) : Prop := x.IsChain fun i j => i.fits j = true

theorem chained_of_fitting (h : fitting x) : Chained x := by
  induction x using fitting.induct with
  | case1 i j rest ih =>
    rw [fitting, Bool.and_eq_true] at h
    exact .cons_cons h.1 (ih h.2)
  | case2 x short =>
    match x with
    | [] => exact .nil
    | [i] => exact .singleton i
    | i :: j :: rest => exact (short i j rest rfl).elim

/-- Items that may stand wherever a tree may. -/
structure Tidy (x : List Item) : Prop where
  chained : Chained x
  opens : x.head?.any Item.opens = true
  closes : x.getLast?.any Item.closes = true

def somewhere : Node := .statement (.empty none)

theorem Tidy.replace (tidy : Tidy y) (h : Chained (x ++ .node somewhere :: z)) : Chained (x ++ (y ++ z)) := by
  obtain ⟨before, after, last⟩ := isChain_append.1 h
  obtain ⟨first, after⟩ := isChain_cons.1 after
  obtain ⟨i, hi, opens⟩ := (Option.any_eq_true _ _).1 tidy.opens
  obtain ⟨j, hj, closes⟩ := (Option.any_eq_true _ _).1 tidy.closes
  -- What may come after a tree may come after the last of the items, and the same at their front.
  have inside : Chained (y ++ z) := by
    refine isChain_append.2 ⟨tidy.chained, after, fun j' hj' k hk => ?_⟩
    obtain rfl : j = j' := Option.some.inj (hj.symm.trans hj')
    have fits := first k hk
    cases k with
    | stroke s => exact Item.fits_of_follows closes fits
    | node n => cases fits
  refine isChain_append.2 ⟨before, inside, fun k hk i' hi' => ?_⟩
  obtain rfl : i = i' := by
    rw [head?_append, hi] at hi'
    exact Option.some.inj hi'
  have fits := last k hk (.node somewhere) rfl
  cases k with
  | stroke s => exact Item.fits_of_precedes fits opens
  | node n => cases fits

theorem closes_append (x : List Item) (h : y.getLast?.any Item.closes) :
    (x ++ y).getLast?.any Item.closes := by
  obtain ⟨j, hj, closes⟩ := (Option.any_eq_true _ _).1 h
  simp [hj, closes]

theorem Tidy.of_fitting (h : fitting x) (opens : x.head?.any Item.opens)
    (closes : x.getLast?.any Item.closes) : Tidy x :=
  ⟨chained_of_fitting h, opens, closes⟩

theorem Tidy.append (first : Tidy x) (second : Tidy z)
    (h : Chained (.node somewhere :: (y ++ [.node somewhere]))) : Tidy (x ++ (y ++ z)) := by
  have back : Chained ((.node somewhere :: y) ++ (z ++ [])) := second.replace h
  rw [append_nil] at back
  obtain ⟨i, hi, opens⟩ := (Option.any_eq_true _ _).1 first.opens
  refine ⟨first.replace (x := []) back, ?_, ?_⟩
  · simp [hi, opens]
  · rw [← append_assoc]
    exact closes_append _ second.closes

theorem tidy_intercalate {sep : List Item} {xs : List (List Item)} (some : xs ≠ [])
    (each : ∀ x ∈ xs, Tidy x) (between : Chained (.node somewhere :: (sep ++ [.node somewhere]))) :
    Tidy (sep.intercalate xs) := by
  induction xs with
  | nil => exact (some rfl).elim
  | cons x xs ih =>
    have first := each x mem_cons_self
    cases xs with
    | nil => simpa using first
    | cons y xs =>
      have rest := ih nofun fun z hz => each z (mem_cons_of_mem _ hz)
      exact first.append rest between

theorem chained_commas {xs : List (List Item)} (each : ∀ x ∈ xs, Tidy x) (empty : Chained (x ++ y))
    (full : Chained (x ++ .node somewhere :: y)) : Chained (x ++ (commas xs ++ y)) := by
  by_cases some : xs = []
  · simpa [some, commas] using empty
  · exact (tidy_intercalate some each (chained_of_fitting rfl)).replace full

theorem chained_statements (h : Chained (x ++ gap :: z)) (ss : List Statement) :
    Chained (x ++ (statementsLayout ss ++ gap :: z)) := by
  induction ss generalizing x with
  | nil => exact h
  | cons s ss ih =>
    obtain ⟨before, after, last⟩ := isChain_append.1 h
    have one : Chained ((x ++ [gap, s.item]) ++ gap :: z) := by
      rw [append_assoc]
      refine isChain_append.2 ⟨before, .cons_cons rfl (.cons_cons rfl after), last⟩
    simpa [statementsLayout] using ih one

theorem chained_cases (h : Chained (x ++ gap :: z)) (cs : List Case) :
    Chained (x ++ (cs.flatMap Case.layout ++ gap :: z)) := by
  induction cs generalizing x with
  | nil => exact h
  | cons c cs ih =>
    obtain ⟨before, after, last⟩ := isChain_append.1 h
    have one : Chained ((x ++ c.layout) ++ gap :: z) := by
      have guard : Chained ([gap, .stroke (.name "case"), gap, sign .leftBrace, c.tag.item, sign .colon,
          gap, c.binding.item, sign .rightBrace, sign .colon] ++ gap :: z) :=
        isChain_append.2 ⟨chained_of_fitting rfl, after, by rintro _ ⟨⟩ _ ⟨⟩; rfl⟩
      have whole := chained_statements guard c.body.statements
      rw [append_assoc]
      exact isChain_append.2 ⟨before, whole, last⟩
    simpa using ih one

end Fitting

section Layouts

theorem tidy_block (b : Block) : Tidy b.layout := by
  have empty : Chained ([sign .leftBrace] ++ [gap, sign .rightBrace]) := chained_of_fitting rfl
  exact ⟨chained_statements empty b.statements, rfl,
    closes_append (sign .leftBrace :: statementsLayout b.statements) rfl⟩

theorem tidy_definition (d : Definition) : Tidy d.layout := by
  obtain ⟨x, t, v, place⟩ := d
  cases t <;> exact .of_fitting rfl rfl rfl

theorem tidy_loop (l : Loop) : Tidy l.layout := by
  have body : Chained ([sign .forWord, gap, sign .leftParen, .node somewhere, sign .semicolon, gap,
      .node somewhere, sign .semicolon, gap, l.compared.item, gap, sign .less, gap, l.bound.item,
      sign .semicolon, gap, l.stepped.item, sign .plusPlus, sign .rightParen, gap] ++
      .node somewhere :: []) := chained_of_fitting rfl
  have proof := (tidy_definition l.proof).replace (x := [sign .forWord, gap, sign .leftParen,
    .node somewhere, sign .semicolon, gap]) ((tidy_block l.body).replace body)
  have whole := (tidy_definition l.counter).replace (x := [sign .forWord, gap, sign .leftParen]) proof
  refine ⟨?_, rfl, closes_append _ (tidy_block l.body).closes⟩
  simpa [Loop.layout] using whole

theorem tidy_switch (s : Switch) : Tidy s.layout := by
  have empty : Chained ([sign .switchWord, gap, sign .leftParen, s.subject.item, sign .rightParen, gap,
      sign .leftBrace] ++ [gap, sign .rightBrace]) := chained_of_fitting rfl
  refine ⟨?_, rfl, closes_append _ rfl⟩
  exact chained_cases empty s.cases

theorem tidy_body (e : Expr) : Tidy e.bodyLayout := by
  unfold Expr.bodyLayout
  split
  · exact tidy_block _
  · exact .of_fitting rfl rfl rfl

theorem TypeExpr.tidy_layout (t : TypeExpr) : Tidy t.layout := by
  cases t with
  | generic f as place =>
    refine ⟨?_, rfl, closes_append (f.item :: sign .less :: commas _) rfl⟩
    refine chained_commas (x := [f.item, sign .less]) ?_ (chained_of_fitting rfl) (chained_of_fitting rfl)
    simp only [forall_mem_map]
    exact fun t _ => .of_fitting rfl rfl rfl
  | binary op l r place => cases op <;> exact .of_fitting rfl rfl rfl
  | _ => exact .of_fitting rfl rfl rfl

theorem Expr.tidy_layout (e : Expr) : Tidy e.layout := by
  cases e with
  | arith op l r place => cases op <;> exact .of_fitting rfl rfl rfl
  | lambda x d r b place =>
    refine ⟨?_, rfl, closes_append _ rfl⟩
    rw [Expr.layout, append_assoc]
    cases d <;> cases r <;> exact (tidy_body b).replace (chained_of_fitting rfl)
  | loop l => exact tidy_loop l
  | switch s => exact tidy_switch s
  | block b => exact tidy_block b
  | _ => exact .of_fitting rfl rfl rfl

theorem Statement.tidy_layout (s : Statement) : Tidy s.layout := by
  cases s with
  | define d =>
    obtain ⟨x, t, v, place⟩ := d
    cases t <;> exact .of_fitting rfl rfl rfl
  | destructure x y v place =>
    obtain ⟨x, u⟩ := x
    obtain ⟨y, w⟩ := y
    cases u <;> cases w <;> exact .of_fitting rfl rfl rfl
  | leave j p e place => cases j <;> exact .of_fitting rfl rfl rfl
  | generic x ps t place =>
    refine ⟨?_, rfl, closes_append _ rfl⟩
    rw [Statement.layout, append_assoc]
    refine chained_commas ?_ (chained_of_fitting rfl) (chained_of_fitting rfl)
    simp only [forall_mem_map]
    exact fun p _ => .of_fitting rfl rfl rfl
  | log as place =>
    refine ⟨?_, rfl, closes_append _ rfl⟩
    rw [Statement.layout, append_assoc]
    refine chained_commas ?_ (chained_of_fitting rfl) (chained_of_fitting rfl)
    simp only [forall_mem_map]
    exact fun e _ => .of_fitting rfl rfl rfl
  | switch s => exact tidy_switch s
  | _ => exact .of_fitting rfl rfl rfl

theorem Node.tidy_layout (n : Node) : Tidy n.layout := by
  cases n with
  | type t => exact t.tidy_layout
  | term e => exact e.tidy_layout
  | statement s => exact s.tidy_layout

end Layouts

section Strokes

/-- Strokes that may stand wherever a tree may. -/
structure Spaced (x : List Stroke) : Prop where
  chained : x.IsChain fun a b => a.stopsAt b.lead = true
  opens : x.head?.any (fun s => leads.contains s.lead) = true
  closes : x.getLast?.any (fun s => ends.contains s.blank) = true

def Item.Spaced : Item → Prop
  | stroke _ => True
  | node m => Syntax.Spaced m.strokes

theorem Item.strokes_ne_nil {i : Item} (h : i.Spaced) : i.strokes ≠ [] := by
  cases i with
  | stroke s => simp [Item.strokes]
  | node m =>
    intro empty
    have opens := h.opens
    rw [show m.strokes = [] from empty] at opens
    cases opens

theorem Item.stopsAt_of_fits {i j : Item} (hi : i.Spaced) (hj : j.Spaced) (fits : i.fits j) :
    ∀ a ∈ i.strokes.getLast?, ∀ b ∈ j.strokes.head?, a.stopsAt b.lead := by
  intro a ha b hb
  cases i with
  | stroke s =>
    obtain rfl : s = a := Option.some.inj ha
    cases j with
    | stroke t =>
      obtain rfl : t = b := Option.some.inj hb
      exact fits
    | node m =>
      have opens := hj.opens
      rw [show m.strokes.head? = _ from hb] at opens
      exact all_eq_true.1 fits _ (contains_iff_mem.1 opens)
  | node m =>
    cases j with
    | stroke t =>
      obtain rfl : t = b := Option.some.inj hb
      have closes := hi.closes
      rw [show m.strokes.getLast? = _ from ha] at closes
      have stops := all_eq_true.1 fits _ (contains_iff_mem.1 closes)
      rwa [a.stopsAt_blank] at stops
    | node n => cases fits

theorem head?_strokesOf {i : Item} (h : i.Spaced) (x : List Item) :
    (strokesOf (i :: x)).head? = i.strokes.head? := by
  obtain ⟨a, rest, eq⟩ := exists_cons_of_ne_nil (Item.strokes_ne_nil h)
  simp [strokesOf, eq]

theorem chain_strokesOf {x : List Item} (chained : Chained x) (each : ∀ i ∈ x, i.Spaced) :
    (strokesOf x).IsChain fun a b => a.stopsAt b.lead := by
  have own : ∀ i ∈ x, i.strokes.IsChain fun a b => a.stopsAt b.lead := by
    intro i hi
    cases i with
    | stroke s => exact .singleton s
    | node m => exact (each _ hi).chained
  induction x with
  | nil => exact .nil
  | cons i x ih =>
    have rest := ih chained.tail (fun j hj => each j (mem_cons_of_mem _ hj))
      fun j hj => own j (mem_cons_of_mem _ hj)
    have first := own i mem_cons_self
    rw [strokesOf]
    -- Only the seam is left: the last stroke of an item and the first one of the next.
    refine isChain_append.2 ⟨first, rest, fun a ha b hb => ?_⟩
    cases x with
    | nil => cases hb
    | cons j x =>
      have spaced := each j (mem_cons_of_mem _ mem_cons_self)
      have hb' : b ∈ j.strokes.head? := by rwa [← head?_strokesOf spaced x]
      exact Item.stopsAt_of_fits (each i mem_cons_self) spaced (isChain_cons_cons.1 chained).1
        a ha b hb'

theorem spaced_of_tidy {x : List Item} (tidy : Tidy x) (each : ∀ i ∈ x, i.Spaced) : Spaced (strokesOf x) := by
  refine ⟨chain_strokesOf tidy.chained each, ?_, ?_⟩
  · obtain ⟨i, hi, opens⟩ := (Option.any_eq_true _ _).1 tidy.opens
    obtain ⟨y, rfl⟩ : ∃ y, x = i :: y := ⟨x.tail, (cons_head?_tail hi).symm⟩
    have spaced := each i mem_cons_self
    rw [head?_strokesOf spaced]
    cases i with
    | stroke s => exact opens
    | node m => exact spaced.opens
  · obtain ⟨i, hi, closes⟩ := (Option.any_eq_true _ _).1 tidy.closes
    obtain ⟨y, rfl⟩ : ∃ y, x = y ++ [i] := getLast?_eq_some_iff.1 hi
    have spaced := each i (by simp)
    have last : (strokesOf (y ++ [i])).getLast? = i.strokes.getLast? := by
      simp [strokesOf, getLast?_eq_some_getLast (Item.strokes_ne_nil spaced)]
    rw [last]
    cases i with
    | stroke s => exact closes
    | node m => exact spaced.closes

theorem Node.spaced (n : Node) : Spaced n.strokes := by
  induction n using Node.induction with
  | step n ih =>
    rw [strokes_eq]
    refine spaced_of_tidy n.tidy_layout fun i hi => ?_
    cases i with
    | stroke s => trivial
    | node m => exact ih m hi

theorem Item.spaced (i : Item) : i.Spaced := by
  cases i with
  | stroke s => trivial
  | node m => exact m.spaced

theorem Phrase.chained_layout (p : Phrase) : Chained p.layout := by
  cases p with
  | program b =>
    rw [layout]
    by_cases empty : b.statements = []
    · rw [empty]
      exact .nil
    · have tidy : Tidy ([Item.stroke .newline].intercalate (b.statements.map fun s => [s.item])) := by
        refine tidy_intercalate (by simpa using empty) ?_ (chained_of_fitting rfl)
        simp only [forall_mem_map]
        exact fun s _ => .of_fitting rfl rfl rfl
      exact tidy.chained
  | term e | type t => exact .singleton _

theorem Phrase.chain_strokes (p : Phrase) (legal : ∀ s ∈ p.strokes, s.Legal) :
    p.strokes.IsChain Token.Apart := by
  have chain := chain_strokesOf p.chained_layout fun i _ => i.spaced
  exact chain.imp_of_mem_imp fun a b _ hb stops => Token.apart_of_lead (legal b hb) stops

end Strokes

end Peano.Syntax
