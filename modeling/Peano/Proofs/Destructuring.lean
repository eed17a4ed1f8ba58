import Peano.Proofs.Checking.Agreement
import Peano.Proofs.Formula.Substitution
import Peano.Proofs.Scope
namespace Peano.Judgement
open Syntax (Rename Place Expr)
open Scope (tag)

/-- `after` is `before` with the two parts of a pair: the number under the name `x`, and under the name
`q` a proof of `statement`. -/
structure TakesApart (before after : Progressed) (x q : String) (statement : Formula) (pair : Realizer) :
    Prop where
  number : after.scope.find? x = some (.arithmetic (.var x))
  property : ∃ entry, tag statement = .ok entry ∧ after.scope.find? q = some entry
  others : ∀ y, y ≠ x → y ≠ q → after.scope.find? y = before.scope.find? y
  bindings : after.bindings = before.bindings ++ [.unpack x q pair]

/-- Whether a formula is the type of a value does not depend on the names of variables. -/
theorem exists_tag_rewrite {t : Formula} {entry : Scope.Entry} (h : tag t = .ok entry) (x y : String) :
    ∃ entry', tag (t.rewrite x (.var y)) = .ok entry' := by
  cases t with
  | nat | typeVar _ | hole => cases h
  | var z => rw [Formula.rewrite]; split <;> exact ⟨_, rfl⟩
  | arrow z d c =>
    by_cases quantifier : d = .nat
    · subst quantifier
      rw [Formula.rewrite_all]
      split
      · exact ⟨_, rfl⟩
      split <;> exact ⟨_, rfl⟩
    · rw [Formula.rewrite_implication quantifier]
      exact ⟨_, rfl⟩
  | struct z p s =>
    rw [Formula.rewrite_struct]
    split
    · exact ⟨_, rfl⟩
    split <;> exact ⟨_, rfl⟩
  | _ => rw [Formula.rewrite]; exact ⟨_, rfl⟩

section Orders

variable {isProgram : Bool} {visible : Place} {before : Progressed} {value : Noting Typed}
  {a p : String} {P : Formula} {pair : Realizer} {entry : Scope.Entry} {n m : Notes}

theorem takeField_number {r : Rename} (field : r.field.text = a) (t : Taken) (n : Notes) :
    ∃ m, (takeField visible a p P r t).run n = .ok
      ((⟨t.scope.insert r.target.text (.arithmetic (.var r.target.text)), some r.target.text, t.property,
        t.renamed ++ [(a, r.target.text)]⟩, none), m) := by
  simp only [takeField, field, beq_self_eq_true]
  exact ⟨_, rfl⟩

theorem takeField_property {r : Rename} (field : r.field.text = p) (other : a ≠ p) (t : Taken)
    (tag : tag (t.renamed.foldl (fun s y => s.rewrite y.1 (.var y.2)) P) = .ok entry) (n : Notes) :
    ∃ m, (takeField visible a p P r t).run n = .ok
      ((⟨t.scope.insert r.target.text entry, t.number, some r.target.text, t.renamed⟩, none), m) := by
  simp only [takeField, field, beq_iff_eq, other.symm, if_false, if_true, tag]
  exact ⟨_, rfl⟩

/-- The rule takes out the two fields one after the other and then adds the definition. -/
theorem destructureRule_run {first second : Rename} {t u : Taken} {x q : String} {k l : Notes}
    (checked : value.run n = .ok (⟨.struct a p P, pair⟩, m))
    (run : (takeField visible a p P first ⟨before.scope, none, none, []⟩).run m = .ok ((t, none), k))
    (run' : (takeField visible a p P second t).run k = .ok ((u, none), l))
    (number : u.number = some x) (property : u.property = some q) :
    ∃ l', (destructureRule isProgram visible first second value before).run n =
      .ok ((⟨u.scope, before.bindings ++ [.unpack x q pair]⟩, none), l') := by
  have rest : ∃ l', (bind isProgram (.unpack x q pair) before.bindings).run l =
      .ok (before.bindings ++ [.unpack x q pair], l') := by
    cases isProgram <;> exact ⟨_, rfl⟩
  obtain ⟨l', added⟩ := rest
  refine ⟨l', run_bind_eq_ok.2 ⟨_, _, checked, run_bind_eq_ok.2 ⟨_, _, run, ?_⟩⟩⟩
  refine run_bind_eq_ok.2 ⟨_, _, run', ?_⟩
  simp only [number, property]
  exact run_bind_eq_ok.2 ⟨_, _, added, rfl⟩

/-- The number first: the statement of the property is rewritten. -/
theorem destructureRule_number_first (first second : Rename)
    (checked : value.run n = .ok (⟨.struct a p P, pair⟩, m)) (other : a ≠ p)
    (number : first.field.text = a) (property : second.field.text = p)
    (tag : tag (P.rewrite a (.var first.target.text)) = .ok entry) :
    ∃ k, (destructureRule isProgram visible first second value before).run n =
      .ok ((⟨(before.scope.insert first.target.text (.arithmetic (.var first.target.text))).insert
          second.target.text entry,
        before.bindings ++ [.unpack first.target.text second.target.text pair]⟩, none), k) := by
  let taken : Taken := ⟨before.scope.insert first.target.text (.arithmetic (.var first.target.text)),
    some first.target.text, none, [(a, first.target.text)]⟩
  obtain ⟨k, run⟩ := takeField_number number ⟨before.scope, none, none, []⟩ m
  obtain ⟨l, run'⟩ := takeField_property property other taken tag k
  exact destructureRule_run checked run run' rfl rfl

/-- The property first: its statement is left as it is. -/
theorem destructureRule_property_first (first second : Rename)
    (checked : value.run n = .ok (⟨.struct a p P, pair⟩, m)) (other : a ≠ p)
    (property : first.field.text = p) (number : second.field.text = a) (tag : tag P = .ok entry) :
    ∃ k, (destructureRule isProgram visible first second value before).run n =
      .ok ((⟨(before.scope.insert first.target.text entry).insert second.target.text
          (.arithmetic (.var second.target.text)),
        before.bindings ++ [.unpack second.target.text first.target.text pair]⟩, none), k) := by
  obtain ⟨k, run⟩ := takeField_property property other ⟨before.scope, none, none, []⟩ tag m
  obtain ⟨l, run'⟩ := takeField_number number _ k
  exact destructureRule_run checked run run' rfl rfl

/-- Both orders take a pair apart into the same names, with the same definitions, but only with the
number first does the property speak of the number by its new name. -/
theorem destructure_orders {cfg : Settings} {v : Expr} (number property : Rename)
    (checked : (check cfg before.scope v none).run n =
      .ok (⟨.struct number.field.text property.field.text P, pair⟩, m))
    (fields : number.field.text ≠ property.field.text)
    (targets : number.target.text ≠ property.target.text) (tag : Scope.tag P = .ok entry) :
    ∃ forward backward k l,
      (destructureRule isProgram visible number property (check cfg before.scope v none) before).run n =
        .ok ((forward, none), k) ∧
      (destructureRule isProgram visible property number (check cfg before.scope v none) before).run n =
        .ok ((backward, none), l) ∧ TakesApart before forward number.target.text property.target.text
        (P.rewrite number.field.text (.var number.target.text)) pair ∧
      TakesApart before backward number.target.text property.target.text P pair ∧
      (forward.scope.find? property.target.text = backward.scope.find? property.target.text ↔
        P.rewrite number.field.text (.var number.target.text) = P) := by
  obtain ⟨entry', tag'⟩ := exists_tag_rewrite tag number.field.text number.target.text
  obtain ⟨k, forward⟩ := destructureRule_number_first number property checked fields rfl rfl tag'
  obtain ⟨l, backward⟩ := destructureRule_property_first property number checked fields rfl rfl tag
  refine ⟨_, _, k, l, forward, backward, ⟨?_, ⟨entry', tag', ?_⟩, ?_, rfl⟩, ⟨?_, ⟨entry, tag, ?_⟩, ?_, rfl⟩, ?_⟩
  · simp only [Scope.find?_insert, targets, if_false, if_true]
  · simp only [Scope.find?_insert, if_true]
  · intro y number property
    simp only [Scope.find?_insert, number, property, if_false]
  · simp only [Scope.find?_insert, if_true]
  · simp only [Scope.find?_insert, targets.symm, if_false, if_true]
  · intro y number property
    simp only [Scope.find?_insert, number, property, if_false]
  · simp only [Scope.find?_insert, targets.symm, if_false, if_true, Option.some.injEq]
    constructor
    · intro same
      rw [← Scope.type_of_tag tag', same, Scope.type_of_tag tag]
    · intro same
      rw [same] at tag'
      exact Except.ok.inj (tag'.symm.trans tag)

end Orders

/-- A pair `h` of a number `n` and a proof `p` that it is zero. -/
def zeroPair : Progressed := ⟨[("h", .proof (.struct "n" "p" (.eq (.var "n") .zero)))], []⟩

def toX : Rename := ⟨⟨"n", none⟩, some ⟨"x", none⟩⟩

def toQ : Rename := ⟨⟨"p", none⟩, some ⟨"q", none⟩⟩

theorem zeroPair_checked : ∃ m, (check {} zeroPair.scope (.name ⟨"h", none⟩) none).run {} =
    .ok (⟨.struct "n" "p" (.eq (.var "n") .zero), .lookup "h"⟩, m) := by
  exact ⟨_, rfl⟩

theorem zeroPair_rewrite :
    (Formula.eq (.var "n") .zero).rewrite "n" (.var "x") = .eq (.var "x") .zero := by decide +kernel

theorem zeroPair_orders : (∃ m, (check {} zeroPair.scope (.name ⟨"h", none⟩) none).run {} =
      .ok (⟨.struct "n" "p" (.eq (.var "n") .zero), .lookup "h"⟩, m)) ∧ "n" ≠ "p" ∧ "x" ≠ "q" ∧
    ∃ forward backward k l,
      (destructureRule true none toX toQ (check {} zeroPair.scope (.name ⟨"h", none⟩) none) zeroPair).run {} =
        .ok ((forward, none), k) ∧
      (destructureRule true none toQ toX (check {} zeroPair.scope (.name ⟨"h", none⟩) none) zeroPair).run {} =
        .ok ((backward, none), l) ∧ TakesApart zeroPair forward "x" "q" (.eq (.var "x") .zero) (.lookup "h") ∧
      TakesApart zeroPair backward "x" "q" (.eq (.var "n") .zero) (.lookup "h") := by
  obtain ⟨m, checked⟩ := zeroPair_checked
  obtain ⟨forward, backward, k, l, run, run', parts, parts', -⟩ :=
    destructure_orders toX toQ checked (by decide) (by decide) rfl
  refine ⟨⟨m, checked⟩, by decide, by decide, forward, backward, k, l, run, run', ?_, parts'⟩
  rw [← zeroPair_rewrite]
  exact parts

/-- With the property first the proof is about another number: the field `n`, which nothing binds. -/
theorem property_first_differs : ∃ forward backward k l,
    (destructureRule true none toX toQ (check {} zeroPair.scope (.name ⟨"h", none⟩) none) zeroPair).run {} =
      .ok ((forward, none), k) ∧
    (destructureRule true none toQ toX (check {} zeroPair.scope (.name ⟨"h", none⟩) none) zeroPair).run {} =
      .ok ((backward, none), l) ∧ forward.scope.find? "q" = some (.proof (.eq (.var "x") .zero)) ∧
    backward.scope.find? "q" = some (.proof (.eq (.var "n") .zero)) ∧ backward.scope.find? "n" = none := by
  obtain ⟨m, checked⟩ := zeroPair_checked
  obtain ⟨k, run⟩ := destructureRule_number_first toX toQ checked (by decide) rfl rfl (congrArg tag zeroPair_rewrite)
  obtain ⟨l, run'⟩ := destructureRule_property_first toQ toX checked (by decide) rfl rfl rfl
  exact ⟨_, _, k, l, run, run', rfl, rfl, rfl⟩

end Peano.Judgement
