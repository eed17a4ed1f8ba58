import Mathlib.Algebra.Order.Group.Multiset
import Peano.Proofs.Syntax.Builds
import Peano.Proofs.Syntax.Corrected
import Peano.Proofs.Token.Swapped
namespace Peano.Syntax
open Token (Kind)

variable {κ : Correction}

section Trees

@[mk_iff] structure Same (t t' : Token) : Prop where
  kind : t'.kind = t.kind
  name : t'.name = t.name

def Param.bare (p : Param) : Param := ⟨p.name.bare, p.type.map TypeExpr.bare⟩

open Nonterminal in
/-- The second of two meanings is the first one corrected. -/
def Meaning.Turned (κ : Correction) : (n : Nonterminal) → Meaning n → Meaning n → Prop
  | code, b, b' | statements, b, b' | block, b, b' => Block.bare b' = (Block.corrected κ b).bare
  | statement, s, s' | statementBody, s, s' | leave, s, s' | destructure, s, s' | typedef, s, s'
  | genericTypedef, s, s' | log, s, s' | function, s, s' => Statement.bare s' = (Statement.corrected κ s).bare
  | statementBody?, s, s' =>
    Option.map Statement.bare s' = Option.map (fun s => (Statement.corrected κ s).bare) s
  | constWord, _, _ | switchWord, _, _ | fieldEnd, _, _ => True
  | leaveWord, t, t' => jumpOf t' = (κ (some (Token.extent t))).getD (jumpOf t)
  | const, d, d' => Definition.bare d' = (Definition.corrected κ d).bare
  | assertion?, t, t' => Option.map TypeExpr.bare t' = Option.map TypeExpr.bare t
  | assertion, t, t' | logic, t, t' | implication, t, t' | disjunction, t, t' | conjunction, t, t'
  | equation, t, t' | typeSum, t, t' | typeProduct, t, t' | negation, t, t' | typeAtom, t, t' =>
    TypeExpr.bare t' = TypeExpr.bare t
  | rename, r, r' => Rename.bare r' = Rename.bare r
  | typeParams, ps, ps' =>
    (Several.toList ps').map TypeParam.bare = (Several.toList ps).map TypeParam.bare
  | typeParam, p, p' => TypeParam.bare p' = TypeParam.bare p
  | args, es, es' => (Several.toList es').map Expr.bare =
    (Several.toList es).map fun e => (Expr.corrected κ e).bare
  | loop, l, l' => Loop.bare l' = (Loop.corrected κ l).bare
  | comparison, c, c' => (Comparison.left c').bare = (Comparison.left c).bare ∧
    (Comparison.right c').bare = ((Comparison.right c).corrected κ).bare
  | increment, i, i' => (Increment.name i').bare = (Increment.name i).bare
  | switch, s, s' => Switch.bare s' = (Switch.corrected κ s).bare
  | cases, cs, cs' => List.map Case.bare cs' = List.map (fun c => (Case.corrected κ c).bare) cs
  | case, c, c' => Case.bare c' = (Case.corrected κ c).bare
  | caseGuard, g, g' => (Guard.tag g').bare = (Guard.tag g).bare ∧
    (Guard.binding g').bare = (Guard.binding g).bare
  | typedParams, ps, ps' | params, ps, ps' =>
    (Several.toList ps').map Param.bare = (Several.toList ps).map Param.bare
  | typedParam, p, p' | param, p, p' => Param.bare p' = Param.bare p
  | logicList, ts, ts' =>
    (Several.toList ts').map TypeExpr.bare = (Several.toList ts).map TypeExpr.bare
  | expr, e, e' | arith, e, e' | ascription, e, e' | abstraction, e, e' | lambdaBody, e, e'
  | lambda, e, e' | conjunct, e, e' | sum, e, e' | product, e, e' | application, e, e' | inst, e, e'
  | atom, e, e' | record, e, e' | tagged, e, e' => Expr.bare e' = (Expr.corrected κ e).bare
  | head, h, h' => (Head.first h' :: Head.others h').map Param.bare =
      (Head.first h :: Head.others h).map Param.bare ∧
    (Head.result h').map TypeExpr.bare = (Head.result h).map TypeExpr.bare

open Nonterminal in
/-- The statements in a meaning that hand over a value. -/
def Meaning.leaves : (n : Nonterminal) → Jump → Meaning n → List (Place × Jump)
  | code, ending, b | statements, ending, b | block, ending, b => Block.leaves ending b
  | statement, ending, s | statementBody, ending, s | leave, ending, s | destructure, ending, s
  | typedef, ending, s | genericTypedef, ending, s | log, ending, s | function, ending, s =>
    Statement.leaves ending s
  | statementBody?, ending, s => Option.elim s [] (Statement.leaves ending)
  | leaveWord, ending, t => [(some (Token.extent t), ending)]
  | const, _, d => Definition.leaves d
  | args, _, es => exprLeaves (Several.toList es)
  | loop, _, l => Loop.leaves l
  | comparison, _, c => Expr.leaves (Comparison.right c)
  | switch, ending, s => Switch.leaves ending s
  | cases, ending, cs => caseLeaves ending cs
  | case, ending, c => Block.leaves ending (Case.body c)
  | expr, _, e | arith, _, e | ascription, _, e | abstraction, _, e | lambdaBody, _, e
  | lambda, _, e | conjunct, _, e | sum, _, e | product, _, e | application, _, e | inst, _, e
  | atom, _, e | record, _, e | tagged, _, e => Expr.leaves e
  | _, _, _ => []

def placesOf (leaves : List (Place × Jump)) : Multiset Place := ↑(leaves.map Prod.fst)

@[simp] theorem placesOf_nil : placesOf [] = 0 := rfl

@[simp] theorem placesOf_cons (l : Place × Jump) (ls : List (Place × Jump)) :
    placesOf (l :: ls) = {l.1} + placesOf ls := rfl

@[simp] theorem placesOf_append (a b : List (Place × Jump)) : placesOf (a ++ b) = placesOf a + placesOf b := by
  simp [placesOf]

/-- Two meanings, of which the second is the first one corrected, and the places of the statements in
the first one. -/
@[mk_iff] structure Alike (κ : Correction) (n : Nonterminal) (u u' : Meaning n) (exits : Multiset Place) : Prop where
  turned : Meaning.Turned κ n u u'
  exits : ∀ ending, placesOf (Meaning.leaves n ending u) = exits

end Trees

section Tables

/-- What a production comes to: if the first value is there, so is the second. -/
def Outcomes (κ : Correction) (n : Nonterminal) (exits : Multiset Place) :
    Except BadTag (Meaning n) → Except BadTag (Meaning n) → Prop
  | .ok v, .ok v' => Alike κ n v v' exits
  | .error _, _ => True
  | .ok _, .error _ => False

/-- Builders that turn parts that are alike into values that are alike; `seen` are the places of the
statements so far. -/
def Turns (κ : Correction) (n : Nonterminal) : (rhs : List Part) →
    (f f' : Builder rhs (Place → Except BadTag (Meaning n))) → Multiset Place → Prop
  | [], f, f', seen => ∀ p p', Outcomes κ n seen (f p) (f' p')
  | .token _ :: rest, f, f', seen => ∀ t t' : Token, Same t t' → Turns κ n rest (f t) (f' t') seen
  | .phrase m :: rest, f, f', seen => ∀ u u' i, Alike κ m u u' i → Turns κ n rest (f u) (f' u') (seen + i)

/-- What a production builds from parts that are alike is alike. A production for a keyword that may be
turned builds that keyword. -/
def Production.Turns (κ : Correction) : Production → Prop
  | ⟨.leaveWord, rhs, f⟩ => ∀ has tokens v, Fills has rhs f none tokens v →
    ∃ (t : Token) (j : Jump), t.kind = j.kind ∧ tokens = [t] ∧ v = t
  | ⟨n, rhs, f⟩ => Syntax.Turns κ n rhs f f 0

theorem fills_keyword (j : Jump) (has : (n : Nonterminal) → List Token → Meaning n → Prop)
    (tokens : List Token) (v : Token) (fills : Fills has [tok j.kind] (fun t _ => .ok t) none tokens v) :
    ∃ (t : Token) (j : Jump), t.kind = j.kind ∧ tokens = [t] ∧ v = t := by
  obtain ⟨t, others, rfl, fits, rfl, given⟩ := fills
  exact ⟨t, j, by simpa [Terminal.accepts] using fits, rfl, (Except.ok.inj given).symm⟩

theorem Block.corrected_eq (b : Block) :
    b.corrected κ = ⟨b.statements.map (Statement.corrected κ), b.place⟩ := by
  obtain ⟨ss, place⟩ := b
  rw [Block.corrected, correctedStatements_eq]

theorem Block.leaves_eq (ending : Jump) (b : Block) :
    b.leaves ending = b.statements.flatMap (Statement.leaves ending) := by
  obtain ⟨ss, place⟩ := b
  rw [Block.leaves, statementLeaves_eq]

theorem zero_eq_iff {i : Multiset Place} : 0 = i ↔ i = 0 := eq_comm

theorem forall_jump {p : Prop} : (∀ _ : Jump, p) ↔ p := ⟨fun h => h .ret, fun h _ => h⟩

-- With these what a production builds comes down to its parts.
attribute [local simp] Expr.corrected Expr.bare Expr.leaves Statement.corrected Statement.bare
  Statement.leaves TypeExpr.bare Definition.corrected Definition.bare Definition.leaves Loop.corrected
  Loop.bare Loop.leaves Block.corrected_eq Block.bare_eq Block.leaves_eq Switch.corrected Switch.bare
  Switch.leaves Case.corrected Case.bare Rename.bare TypeParam.bare Param.bare nameOf Name.bare
  correctedCases_eq correctedExprs_eq bareCases_eq bareExprs_eq bareTypes_eq caseLeaves_eq exprLeaves_eq
  Function.comp_def Several.toList Several.push Block.push Meaning.Turned Meaning.leaves alike_iff
  Outcomes same_iff zero_eq_iff forall_jump
attribute [local simp ←] add_assoc

section Builders

variable {x x' : Param} {xs xs' : List Param} {e e' f f' : Expr} {es es' : List Expr}
  {c c' : Option TypeExpr} {t t' : TypeExpr} {p p' : Place}

theorem curry_turned (he : e'.bare = (e.corrected κ).bare) (hc : c'.map TypeExpr.bare = c.map TypeExpr.bare)
    (hx : x'.bare = x.bare) (hxs : xs'.map Param.bare = xs.map Param.bare) :
    (curry c' e' x' xs').bare = ((curry c e x xs).corrected κ).bare := by
  induction xs generalizing x x' xs' with
  | nil => simp_all [curry]
  | cons y ys ih =>
    cases xs' with
    | nil => cases hxs
    | cons y' ys' =>
      have inner := ih (List.cons.inj hxs).1 (List.cons.inj hxs).2
      simp_all [curry]

@[simp] theorem leaves_curry : (curry c e x xs).leaves = e.leaves := by
  induction xs generalizing x <;> simp_all [curry]

theorem arrows_bare (ht : t'.bare = t.bare) (hx : x'.bare = x.bare)
    (hxs : xs'.map Param.bare = xs.map Param.bare) : (arrows t' p' x' xs').bare = (arrows t p x xs).bare := by
  have domain {y y' : Param} (h : y'.bare = y.bare) : (y'.type.getD t').bare = (y.type.getD t).bare := by
    have types : y'.type.map TypeExpr.bare = y.type.map TypeExpr.bare := congrArg Param.type h
    rw [← Option.getD_map TypeExpr.bare, ← Option.getD_map TypeExpr.bare, types, ht]
  induction xs generalizing x x' xs' with
  | nil =>
    have first := domain hx
    simp_all [arrows]
  | cons y ys ih =>
    cases xs' with
    | nil => cases hxs
    | cons y' ys' =>
      have first := domain hx
      have inner := ih (List.cons.inj hxs).1 (List.cons.inj hxs).2
      simp_all [arrows]

theorem calls_turned (hf : f'.bare = (f.corrected κ).bare) (he : e'.bare = (e.corrected κ).bare)
    (hes : es'.map Expr.bare = es.map fun e => (e.corrected κ).bare) :
    (calls p' f' e' es').bare = ((calls p f e es).corrected κ).bare := by
  induction es generalizing f f' e e' es' with
  | nil => simp_all [calls]
  | cons y ys ih =>
    cases es' with
    | nil => cases hes
    | cons y' ys' =>
      obtain ⟨first, others⟩ : y'.bare = (y.corrected κ).bare ∧
          ys'.map Expr.bare = ys.map fun e => (e.corrected κ).bare := by simpa using hes
      exact @ih _ _ (.call f e _) (.call f' e' _) _ (by simp [hf, he]) first others

@[simp] theorem leaves_calls : (calls p f e es).leaves = f.leaves ++ (e :: es).flatMap Expr.leaves := by
  induction es generalizing f e <;> simp_all [calls]

variable {u u' v v' : Token} {i j : Multiset Place}

theorem apply_alike {h h' : Head} (hh : Meaning.Turned κ .head h h') (he : Alike κ .lambdaBody e e' i) :
    Alike κ .lambda (h.apply e) (h'.apply e') i := by
  obtain ⟨params, result⟩ := hh
  have curried := curry_turned he.turned result (List.cons.inj params).1 (List.cons.inj params).2
  simp_all [Head.apply]

theorem recordOf_alike (hu : Same u u') (he : Alike κ .arith e e' i) (hv : Same v v') (hf : Alike κ .arith f f' j) :
    Alike κ .record (recordOf u e v f p) (recordOf u' e' v' f' p') (i + j) := by
  unfold recordOf
  rw [hu.name, hv.name]
  split
  · simp_all
  split
  · simp_all [add_comm]
  · simp_all

/-- Neither has a bad tag, or both have. -/
theorem taggedOf_alike (hu : Same u u') (he : Alike κ .arith e e' i) :
    Outcomes κ .tagged i (taggedOf u e p) (taggedOf u' e' p') := by
  unfold taggedOf
  by_cases left : u.name = "left"
  · simp_all
  by_cases right : u.name = "right" <;> simp_all

end Builders

-- Most productions are settled by computation; the others build lists of parts, or what they build
-- depends on a name.
theorem typeProductions_turn : ∀ p ∈ typeProductions, p.Turns κ := by
  simp only [typeProductions, List.forall_mem_cons]
  and_intros
  all_goals try
    repeat intro
    simp_all
    done
  · intro _ _ _ ps ps' i params _ _ _ _ _ _ t t' j type p p'
    obtain ⟨first, others⟩ := List.cons.inj params.turned
    exact ⟨arrows_bare type.turned first others, by simp_all⟩

theorem statementProductions_turn : ∀ p ∈ statementProductions, p.Turns κ := by
  simp only [statementProductions, List.forall_mem_cons]
  and_intros
  all_goals try
    repeat intro
    simp_all
    done
  · intro s s' i body _ _ _ p p'
    cases s <;> cases s' <;> simp_all
  · exact fills_keyword .ret
  · exact fills_keyword .next
  · exact fills_keyword .stop

theorem exprProductions_turn : ∀ p ∈ exprProductions, p.Turns κ := by
  simp only [exprProductions, List.forall_mem_cons]
  and_intros
  all_goals try
    repeat intro
    simp_all
    done
  · intro h h' _ head _ _ _ e e' i body p p'
    have whole := apply_alike head.turned body
    simp_all
  · intro _ _ _ _ _ _ h h' _ head b b' i body p p'
    have value : Alike κ .lambdaBody (.block b) (.block b') i := by simp_all
    have whole := apply_alike head.turned value
    simp_all
  · intro f f' i fn _ _ _ es es' j args _ _ _ p p'
    have list : (Several.toList es').map Expr.bare = (Several.toList es).map _ := args.turned
    obtain ⟨first, others⟩ := List.cons.inj list
    refine ⟨calls_turned fn.turned first others, ?_⟩
    simp_all
  · exact fun _ _ _ _ _ hx _ _ _ _ _ _ hv _ _ _ _ _ hy _ _ _ _ _ _ hw _ _ _ _ _ => by
      simpa [Outcomes] using recordOf_alike hx hv hy hw
  · exact fun _ _ _ _ _ hx _ _ _ _ _ _ hv _ _ _ _ _ => by simpa using taggedOf_alike hx hv

end Tables

section Reading

variable {t t' : Token}

/-- The second token may stand in the place of the first one. -/
def TurnedTo (κ : Correction) (t t' : Token) : Prop :=
  if t.kind.isExit then t'.kind = ((κ (some t.extent)).getD (jumpOf t)).kind else Same t t'

/-- The places of the keywords of statements. -/
def exitsAmong (tokens : List Token) : List Place :=
  (tokens.filter (·.kind.isExit)).map fun t => some t.extent

theorem exitsAmong_append (a b : List Token) : exitsAmong (a ++ b) = exitsAmong a ++ exitsAmong b := by
  simp [exitsAmong]

theorem exitsAmong_cons (plain : t.kind.isExit = false) (rest : List Token) :
    exitsAmong (t :: rest) = exitsAmong rest := by
  simp [exitsAmong, plain]

theorem isExit_kind (j : Jump) : j.kind.isExit = true := by
  cases j <;> rfl

theorem jumpOf_of_kind {j : Jump} (h : t.kind = j.kind) : jumpOf t = j := by
  unfold jumpOf
  rw [h]
  cases j <;> rfl

theorem accepts_kind {k : Terminal} (fits : k.accepts t = true) (exit : t.kind.isExit = true) :
    ∃ j : Jump, k = .kind j.kind := by
  cases k with
  | kind k =>
    obtain rfl : t.kind = k := by simpa [Terminal.accepts] using fits
    cases h : t.kind with
    | returnWord => exact ⟨.ret, rfl⟩
    | continueWord => exact ⟨.next, rfl⟩
    | breakWord => exact ⟨.stop, rfl⟩
    | _ =>
      rw [h] at exit
      cases exit
  | word w =>
    have ident : t.kind = .ident := by
      simp only [Terminal.accepts, Token.isWord, Bool.and_eq_true, decide_eq_true_eq] at fits
      exact fits.1
    rw [ident] at exit
    cases exit

/-- The keywords of statements are parts of no production but their own. -/
theorem plain_terminals : ∀ p ∈ productions, p.lhs ≠ .leaveWord →
    ∀ j : Jump, .token (.kind j.kind) ∉ p.rhs := by
  have each : ∀ j : Jump, ∀ p ∈ productions, p.lhs ≠ .leaveWord → .token (.kind j.kind) ∉ p.rhs := by
    rintro (_ | _ | _) <;> decide +kernel
  exact fun p mem other j => each j p mem other

theorem leaveWord_builds {j : Jump} (h : t.kind = j.kind) : Builds .leaveWord [t] t := by
  have mem : (⟨.leaveWord, [tok j.kind], fun t _ => .ok t⟩ : Production) ∈ productions := by
    refine List.mem_append_left _ (List.mem_append_left _ ?_)
    cases j <;> simp [statementProductions, Jump.kind]
  refine builds_of_fills mem ⟨t, [], rfl, ?_, rfl, rfl⟩
  simp [Terminal.accepts, h]

theorem Same.accepts (h : Same t t') {k : Terminal} (fits : k.accepts t = true) : k.accepts t' = true := by
  cases k with
  | kind k => simpa [Terminal.accepts, h.kind] using fits
  | word w => simpa [Terminal.accepts, Token.isWord, h.kind, h.name] using fits

theorem Turns.fills {n : Nonterminal} {rhs : List Part} {f f' : Builder rhs (Place → Except BadTag (Meaning n))}
    {place : Place} {tokens tokens' : List Token} {v : Meaning n} {seen : Multiset Place}
    (turns : Turns κ n rhs f f' seen) (plain : ∀ j : Jump, .token (.kind j.kind) ∉ rhs)
    (fills : Fills (fun n tokens u => ∀ tokens', List.Forall₂ (TurnedTo κ) tokens tokens' →
      ∃ u', Builds n tokens' u' ∧ Alike κ n u u' (exitsAmong tokens)) rhs f place tokens v)
    (turned : List.Forall₂ (TurnedTo κ) tokens tokens') (place' : Place) :
    ∃ v', Fills Builds rhs f' place' tokens' v' ∧ Alike κ n v v' (seen + exitsAmong tokens) := by
  induction rhs generalizing place place' tokens tokens' seen with
  | nil =>
    obtain ⟨rfl, given⟩ := fills
    cases turned
    have outcomes := turns place place'
    rw [given] at outcomes
    cases given' : (f' place' : Except BadTag (Meaning n)) with
    | error tag =>
      rw [given'] at outcomes
      exact outcomes.elim
    | ok v' =>
      rw [given'] at outcomes
      exact ⟨v', ⟨rfl, given'⟩, (add_zero seen).symm ▸ outcomes⟩
  | cons part rest ih =>
    have later : ∀ j : Jump, .token (.kind j.kind) ∉ rest := fun j h => plain j (List.mem_cons_of_mem _ h)
    cases part with
    | token k =>
      obtain ⟨t, others, rfl, fits, tail⟩ := fills
      obtain ⟨t', others', first, last, rfl⟩ := List.forall₂_cons_left_iff.1 turned
      have ordinary : t.kind.isExit = false := by
        rw [Bool.eq_false_iff]
        intro exit
        obtain ⟨j, rfl⟩ := accepts_kind fits exit
        exact plain j List.mem_cons_self
      have same : Same t t' := by simpa [TurnedTo, ordinary] using first
      obtain ⟨v', filled, result⟩ := ih (turns t t' same) later tail last
        (Source.Extent.join place' (some t'.extent))
      refine ⟨v', ⟨t', others', rfl, same.accepts fits, filled⟩, ?_⟩
      rw [exitsAmong_cons ordinary]
      exact result
    | phrase m =>
      obtain ⟨first, others, u, rfl, head, tail⟩ := fills
      have begins : List.Forall₂ (TurnedTo κ) first (tokens'.take first.length) := by
        simpa using List.forall₂_take first.length turned
      have last : List.Forall₂ (TurnedTo κ) others (tokens'.drop first.length) := by
        simpa using List.forall₂_drop first.length turned
      obtain ⟨u', builds, like⟩ := head _ begins
      obtain ⟨v', filled, result⟩ := ih (turns u u' _ like) later tail last
        (Source.Extent.join place' (Meaning.place m u'))
      refine ⟨v', ⟨_, _, u', (List.take_append_drop _ _).symm, builds, filled⟩, ?_⟩
      rw [exitsAmong_append, ← Multiset.coe_add, ← add_assoc]
      exact result

theorem leaveWord_turned {j : Jump} (kind : t.kind = j.kind) (turned : TurnedTo κ t t') :
    Builds .leaveWord [t'] t' ∧ Alike κ .leaveWord t t' (exitsAmong [t]) := by
  have exit : t.kind.isExit = true := by rw [kind, isExit_kind]
  have kind' : t'.kind = ((κ (some t.extent)).getD (jumpOf t)).kind := by
    simpa [TurnedTo, exit] using turned
  have exits : exitsAmong [t] = [some t.extent] := by simp [exitsAmong, exit]
  rw [exits]
  exact ⟨leaveWord_builds kind', jumpOf_of_kind kind', fun _ => rfl⟩

/-- Turned tokens are read as the corrected tree. -/
theorem Builds.turned {n : Nonterminal} {tokens tokens' : List Token} {v : Meaning n}
    (builds : Builds n tokens v) (turned : List.Forall₂ (TurnedTo κ) tokens tokens') :
    ∃ v', Builds n tokens' v' ∧ Alike κ n v v' (exitsAmong tokens) := by
  refine Builds.induction (motive := fun n tokens v => ∀ tokens',
    List.Forall₂ (TurnedTo κ) tokens tokens' → ∃ v', Builds n tokens' v' ∧
      Alike κ n v v' (exitsAmong tokens)) (fun p mem tokens v fills tokens' turned => ?_)
    builds tokens' turned
  have turns : p.Turns κ :=
    forall_productions statementProductions_turn typeProductions_turn exprProductions_turn p mem
  obtain ⟨n, rhs, f⟩ := p
  by_cases own : n = .leaveWord
  · subst own
    obtain ⟨t, j, kind, rfl, made⟩ := turns _ tokens v fills
    obtain ⟨t', others', first, last, rfl⟩ := List.forall₂_cons_left_iff.1 turned
    cases last
    rw [made]
    exact ⟨t', leaveWord_turned kind first⟩
  · rw [Production.Turns] at turns
    · obtain ⟨v', filled, result⟩ := turns.fills (plain_terminals _ mem own) fills turned none
      exact ⟨v', builds_of_fills mem filled, result⟩
    · exact fun _ h => absurd h own

end Reading

end Peano.Syntax
