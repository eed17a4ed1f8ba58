import Peano.Proofs.AnyFree
import Peano.Proofs.Checking.Always
import Peano.Proofs.Formula.Equal
namespace Peano
open List
open Function (update)

namespace Scope

def Entry.Holds (ρ : String → Nat) : Entry → Prop
  | .proof t => t.Holds ρ
  | .arithmetic t => t.isArithmetic = true
  | _ => True

def Holds (ρ : String → Nat) (s : Scope) : Prop := ∀ x e, s.find? x = some e → e.Holds ρ

/-- Nothing that is proved, but under this name itself, speaks of the name. -/
def Fresh (s : Scope) (x : String) : Prop :=
  ∀ y t, s.find? y = some (.proof t) → y ≠ x → t.mentions x = false

section Holds

variable {ρ : String → Nat} {s : Scope} {x : String}

theorem Holds.insert {e : Entry} (hs : s.Holds ρ) (he : e.Holds ρ) : (s.insert x e).Holds ρ :=
  forall_insert (P := fun _ e => e.Holds ρ) he hs

theorem Holds.insert_number (hs : s.Holds ρ) (fresh : s.Fresh x) (n : Nat) :
    (s.insert x (.arithmetic (.var x))).Holds (update ρ x n) := by
  intro y e found
  rw [find?_insert] at found
  split at found
  · cases found
    rfl
  next other =>
    have old := hs y e found
    cases e with
    | proof t => exact (Formula.holds_update (fresh y t found other) ρ n).2 old
    | arithmetic t => exact old
    | typedef t | generic ps t => trivial

theorem Holds.insert_before {y : String} {e f : Entry} (hs : (s.insert y f).Holds ρ) (he : e.Holds ρ) :
    ((s.insert x e).insert y f).Holds ρ := by
  intro z g found
  rw [find?_insert, find?_insert] at found
  by_cases last : z = y
  · refine hs z g ?_
    rwa [find?_insert, if_pos last] at *
  rw [if_neg last] at found
  split at found
  · cases found
    exact he
  · refine hs z g ?_
    rwa [find?_insert, if_neg last]

theorem Holds.find? {t : Formula} (hs : s.Holds ρ)
    (found : s.find? x = some (.proof t) ∨ s.find? x = some (.arithmetic t)) : t.Holds ρ := by
  rcases found with found | found
  · exact hs x _ found
  · exact Formula.holds_of_isArithmetic (hs x _ found) ρ

theorem entry_holds {t : Formula} {e : Entry} (tagged : tag t = .ok e) (h : t.Holds ρ) : e.Holds ρ := by
  cases t with
  | nat | typeVar _ | hole => cases tagged
  | var _ | zero | succ _ | add _ _ | mul _ _ => cases tagged; rfl
  | _ => cases tagged; exact h

end Holds
end Scope

namespace Axiom
open Formula (Holds value)

theorem statement_holds {a : Axiom} (mem : a ∈ list) (ρ : String → Nat) : a.statement.Holds ρ := by
  have each : ∀ a ∈ list, a.statement.Holds ρ := by
    simp only [list, symmetry, forAll, forall_mem_cons, Holds, value]
    simp [Nat.mul_succ, Nat.add_assoc]
  exact each a mem

theorem scope_holds (ρ : String → Nat) : scope.Holds ρ := by
  intro x e found
  rcases mem_scope (Scope.mem_of_find? found) with ⟨-, rfl⟩ | ⟨a, known, rfl⟩
  · trivial
  · exact statement_holds (mem_of_find?_eq_some known) ρ

end Axiom

namespace Judgement
open Syntax (leaves)
open Formula (captureFree aligned holds_rewrite holds_update holds_congr)

/-- What the rules leave unchecked, and proofs depend on. -/
def Event.Tidy : Event → Prop
  -- the type found is the one required, and not only by a confusion of bound names
  | .checked _ require type => ∀ r, require = some r → type.aligned r = true
  | .compared a b => a.aligned b = true
  -- `trans` does not look at the left side when it is continued up to the laws of rings
  | .chained wanted found => Fits wanted found
  -- what is known must not speak of an older number by the name of the new one
  | .numbered scope x => scope.Fresh x
  | .unpacked type target => type.mentions target = false
  | .reversed number target _ statement => target = number ∨ statement.mentions number = false
  -- nor may the value of a block speak of a number of the block
  | .concluded isProgram numbers type =>
    isProgram = false → ∀ x ∈ numbers, type.mentions x = false
  | .substituted t x u => t.captureFree x u = true
  | .replaced r => r.isArithmetic = true
  | _ => True

/-- What the statements of a block come to. A program may speak of its numbers. -/
structure Concludes (isProgram : Bool) (ss : List Syntax.Statement) (seen : List Scope) (type : Formula)
    (ρ : String → Nat) : Prop where
  inner : isProgram = false → type.Holds ρ
  program : leaves ss = true → ∃ σ, type.Holds σ
  reached : ∀ s ∈ seen, ∃ σ, s.Holds σ

def Finding.Holds : Finding → Prop
  | .term scope _ _ t | .rule scope _ _ t | .switch scope _ _ t =>
    ∀ ρ, scope.Holds ρ → t.type.Holds ρ
  | .block scope isProgram b require seen t => (isProgram = true → require = none) →
    ∀ ρ, scope.Holds ρ → Concludes isProgram b.statements seen t.type ρ
  | .statements isProgram before ss _ seen t =>
    ∀ ρ, before.scope.Holds ρ → Concludes isProgram ss seen t.type ρ
  | .statement _ before _ numbers after => ∀ ρ, before.scope.Holds ρ →
    ∃ σ, after.scope.Holds σ ∧ ∀ x, x ∉ numbers → σ x = ρ x
  | .logs .. => True

section Steps

variable {cfg : Settings} {ok : Event → Prop} {scope : Scope} {require : Option Formula}
  {ρ : String → Nat}

variable {r a d c : Formula} {x : String}

theorem Recovers.holds {isName : Bool} {inferred final : Typed}
    (recovers : Recovers cfg isName require inferred final)
    (free : (Event.checked scope require inferred.type).AnyFree)
    (tidy : (Event.checked scope require inferred.type).Tidy) (h : inferred.type.Holds ρ) :
    final.type.Holds ρ := by
  rw [recovers.type]
  cases require with
  | none => exact h
  | some r =>
    have alike := Formula.alike_of_equal (recovers.fits r rfl) free.2.2 (free.2.1 r rfl)
    exact (alike.holds_iff (tidy r rfl) ρ).1 h

theorem Passes.type_anyFree {e : Syntax.Expr} {t : Typed}
    (h : Passes cfg ok (.term scope e require t)) (free : ∀ ev, ok ev → ev.AnyFree) : t.type.anyFree := by
  have recovered {isName : Bool} {inferred : Typed} (recovers : Recovers cfg isName require inferred t)
      (checked : ok (.checked scope require inferred.type)) : t.type.anyFree := by
    obtain ⟨-, required, found⟩ := free _ checked
    exact recovers.anyFree required found
  cases h with
  | judged _ recovers checked => exact recovered recovers checked
  | block inside =>
    cases inside with
    | body _ recovers checked => exact recovered recovers (checked rfl)

theorem Passes.required_holds {e : Syntax.Expr} {t : Typed} (h : Passes cfg ok (.term scope e (some r) t))
    (known : t.type.Holds ρ) : r.Holds ρ := by
  rwa [← show r = t.type from h.type_eq] at known

theorem Fits.value_eq {b : Formula} (fits : Fits a b) (ha : a.anyFree) (hb : b.anyFree)
    (ρ : String → Nat) : a.value ρ = b.value ρ :=
  (Formula.alike_of_equal fits ha hb).value_eq ρ

theorem applies_arrow {t : Formula} (h : Applies (.arrow x d c) a t) :
    t = if d = .nat then c.rewrite x a else c := by
  unfold Applies at h
  by_cases quantifier : d = .nat
  · subst quantifier
    rw [Formula.apply] at h
    split at h <;> cases h
    rfl
  · rw [Formula.apply] at h
    · split at h <;> cases h
      rw [if_neg quantifier]
    · exact quantifier

theorem applies_value {l l' r' : Formula} (left : Applies (.arrow x d c) l l')
    (right : Applies (.arrow x d c) r r') (h : l.value ρ = r.value ρ) : l'.value ρ = r'.value ρ := by
  rw [applies_arrow left, applies_arrow right]
  split
  · rw [Formula.value_rewrite, Formula.value_rewrite, h]
  · rfl

theorem loop_holds {i : String} {statement bound : Formula} (atZero : statement.captureFree i .zero)
    (atNext : statement.captureFree i (.succ (.var i)))
    (atBound : statement.captureFree i bound) (bounded : bound.Holds ρ)
    (zero : (statement.rewrite i .zero).Holds ρ) (next : ∀ n, statement.Holds (update ρ i n) →
      (statement.rewrite i (.succ (.var i))).Holds (update ρ i n)) : (statement.rewrite i bound).Holds ρ := by
  -- the loop is an induction on its counter
  have all : ∀ n, statement.Holds (update ρ i n) := by
    intro n
    induction n with
    | zero => exact (holds_rewrite atZero trivial).1 zero
    | succ n ih =>
      have step := (holds_rewrite atNext trivial).1 (next n ih)
      rwa [Function.update_idem, Formula.value, Formula.value, Function.update_self] at step
  exact (holds_rewrite atBound bounded).2 (all _)

theorem leibniz_holds {param : String} {property : Formula}
    (left : property.captureFree param (.var (leibnizLeft property)))
    (right : property.captureFree param (.var (leibnizRight property))) :
    (leibniz param property).Holds ρ := by
  intro a b equal
  by_cases quantifier : property.rewrite param (.var (leibnizLeft property)) = .nat
  · -- a property that says nothing
    have nothing := Formula.rewrite_eq_nat quantifier
    subst nothing
    simp only [Formula.rewrite]
    exact fun n => trivial
  · refine (Formula.holds_implication quantifier _ _ _).2 fun known => ?_
    refine (holds_rewrite right trivial).2 ?_
    have same := (holds_rewrite left trivial).1 known
    rwa [show Formula.value _ (.var (leibnizLeft property)) = _ from equal] at same

theorem holds_arrow (h : ∀ σ, d.Holds σ → c.Holds σ) : (Formula.arrow x d c).Holds ρ := by
  by_cases quantifier : d = .nat
  · subst quantifier
    exact fun n => h _ trivial
  · exact (Formula.holds_implication quantifier x c ρ).2 (h ρ)

theorem holds_or_not (a : Formula) (ρ : String → Nat) : (Formula.or a (.not a)).Holds ρ := by
  by_cases h : a.Holds ρ
  · exact .inl h
  · refine .inr ((Formula.holds_implication ?_ _ _ ρ).2 h)
    rintro rfl
    exact h trivial

section Unpacking

variable {M : Type} {S : Formula.Semantics M} {number property target : String} {statement : Formula}
  (unpacked : (Formula.struct number property statement).mentions target = false) (n : Nat)
include unpacked

theorem clear_of_unpacked (other : number ≠ target) : statement.mentions target = false := by
  simpa [Formula.mentions, other] using unpacked

theorem meaning_unpacked (free : statement.captureFree number (.var target)) :
    (statement.rewrite number (.var target)).meaning S (update ρ target n) =
      statement.meaning S (update ρ number n) := by
  by_cases same : number = target
  · subst same
    rw [Formula.meaning_rewrite free rfl, Formula.value, Function.update_self, Function.update_idem]
  · exact Formula.meaning_realigned ρ n (clear_of_unpacked unpacked same) free

theorem meaning_reversed (reversed : target = number ∨ statement.mentions number = false) :
    statement.meaning S (update ρ target n) = statement.meaning S (update ρ number n) := by
  by_cases same : number = target
  · rw [same]
  · rw [Formula.meaning_update (clear_of_unpacked unpacked same),
      Formula.meaning_update (reversed.resolve_left (Ne.symm same))]

end Unpacking

theorem concluded_holds {isProgram : Bool} {numbers : List String} {type : Formula} {σ : String → Nat}
    (concluded : (Event.concluded isProgram numbers type).Tidy) (inner : isProgram = false)
    (agree : ∀ x, x ∉ numbers → σ x = ρ x) (h : type.Holds σ) : type.Holds ρ := by
  refine (holds_congr fun x mentioned => agree x fun mem => ?_).1 h
  cases (concluded inner x mem).symm.trans mentioned

end Steps

section Groups
open Syntax (Expr Place Name TypeExpr Block Loop Switch Statement)

variable {cfg : Settings} {ok : Event → Prop} {scope : Scope} {require : Option Formula} {t : Typed}
  {isProgram : Bool} {before after : Progressed} {seen : List Scope} {p : Place}

theorem Finding.Holds.as {e : Expr} {f : Formula} {ρ : String → Nat} (h : (Finding.term scope e require t).Holds)
    (type : t.type = f) (hs : scope.Holds ρ) : f.Holds ρ := by
  rw [← type]
  exact h ρ hs

section
variable (tidy : ∀ ev, ok ev → ev.Tidy)
include tidy

theorem generic_holds {f : Name} {u : TypeExpr} :
    Conveys cfg ok Finding.Holds (.rule scope (.generic f u p) require t) := by
  intro h below ρ hs
  cases below with
  | makeLeftAt => exact holds_arrow fun _ => .inl
  | makeRightAt => exact holds_arrow fun _ => .inr
  | neverElimAt => exact False.elim
  | excludedMiddleAt => exact holds_or_not _ ρ
  | replaceAt _ _ left right => exact leibniz_holds (tidy _ left) (tidy _ right)
  | mapSucc call | map call => cases call

theorem lambda_holds {x : Name} {d r : Option TypeExpr} {b : Expr} :
    Conveys cfg ok Finding.Holds (.rule scope (.lambda x d r b p) require t) := by
  intro h below ρ hs
  cases below with
  | @lambda _ _ _ _ _ _ _ _ domain _ _ _ _ _ _ enters _ _ numbered _ ih =>
    by_cases quantifier : domain = .nat
    · subst quantifier
      cases enters
      exact fun n => ih _ (hs.insert_number (tidy _ (numbered rfl)) n)
    · rw [Formula.isNat_of_ne quantifier] at enters
      refine (Formula.holds_implication quantifier _ _ _).2 fun known => ?_
      exact ih _ (hs.insert (Scope.entry_holds enters known))
  | mapSucc call | map call => cases call

theorem loop_conveys {l : Loop} : Conveys cfg ok Finding.Holds (.rule scope (.loop l) require t) := by
  intro h below ρ hs
  cases below with
  | loop _ _ _ _ zero enters next numbered _ atZero atNext atBound _ _ _ ihb _ ihz _ ihn =>
    refine loop_holds (tidy _ atZero) (tidy _ atNext) (tidy _ atBound) (ihb ρ hs)
      (zero.required_holds (ihz ρ hs)) fun n known => ?_
    have inside := ihn (absurd · Bool.false_ne_true) _
      ((hs.insert_number (tidy _ numbered) n).insert (Scope.entry_holds enters known))
    exact (Passes.block next).required_holds (inside.inner rfl)
  | mapSucc call | map call => cases call

theorem statements_hold {ss : List Statement} :
    Conveys cfg ok Finding.Holds (.statements isProgram before ss require seen t) := by
  intro h below ρ hs
  cases below with
  | fallOff => refine ⟨?_, ?_, forall_mem_nil _⟩ <;> rintro ⟨⟩
  | leave _ _ ih | leaveBy _ _ ih => exact ⟨fun _ => ih ρ hs, fun _ => ⟨ρ, ih ρ hs⟩, forall_mem_nil _⟩
  | skip _ _ ih =>
    obtain ⟨inner, program, reached⟩ := ih ρ hs
    exact ⟨inner, program, reached⟩
  | next statement _ _ concluded _ ihs _ ihr =>
    obtain ⟨σ, after, agree⟩ := ihs ρ hs
    obtain ⟨inner, program, reached⟩ := ihr σ after
    -- the numbers that the statement binds are not those of the surroundings
    refine ⟨fun h => concluded_holds (tidy _ concluded) h agree (inner h), ?_, ?_⟩
    · rw [statement.leaves_cons]
      exact program
    · exact forall_mem_cons.2 ⟨⟨σ, after⟩, reached⟩

theorem statement_holds {s : Statement} {numbers : List String} :
    Conveys cfg ok Finding.Holds (.statement isProgram before s numbers after) := by
  intro h below ρ hs
  cases below with
  | define _ _ enters _ ih => exact ⟨ρ, hs.insert (Scope.entry_holds enters (ih ρ hs)), fun _ _ => rfl⟩
  | unpack _ struct _ enters numbered unpacked substituted _ ih =>
    have unpacked := tidy _ unpacked
    rw [struct] at unpacked
    obtain ⟨n, known⟩ := ih.as struct hs
    have property :=
      (Formula.holds_iff_of_meaning (meaning_unpacked unpacked n (tidy _ substituted))).2 known
    exact ⟨_, (hs.insert_number (tidy _ numbered) n).insert (Scope.entry_holds enters property),
      fun x other => Function.update_of_ne (by simpa using other) n ρ⟩
  | unpackReversed _ struct _ enters numbered unpacked reversed _ ih =>
    have unpacked := tidy _ unpacked
    rw [struct] at unpacked
    obtain ⟨n, known⟩ := ih.as struct hs
    have property := (Formula.holds_iff_of_meaning (meaning_reversed unpacked n (tidy _ reversed))).2 known
    exact ⟨_, (hs.insert_number (tidy _ numbered) n).insert_before (Scope.entry_holds enters property),
      fun x other => Function.update_of_ne (by simpa using other) n ρ⟩
  | typedef | generic => exact ⟨ρ, hs.insert trivial, fun _ _ => rfl⟩
  | log | misplacedLog => exact ⟨ρ, hs, fun _ _ => rfl⟩

end

variable (free : ∀ ev, ok ev → ev.AnyFree)
include free

theorem not_any_of_passes {e : Expr} (h : Passes cfg ok (.term scope e require t)) : t.type ≠ .any := by
  intro any
  have known := h.type_anyFree free
  rw [any] at known
  cases known

theorem switch_holds {s : Switch} : Conveys cfg ok Finding.Holds (.switch scope s require t) := by
  intro h below ρ hs
  cases below with
  | cases _ either _ _ leftEnters left rightEnters right _ ihs _ ihl _ ihr =>
    rcases ihs.as either hs with known | known
    · exact (ihl (absurd · Bool.false_ne_true) ρ (hs.insert (Scope.entry_holds leftEnters known))).inner rfl
    · have inside := ihr (absurd · Bool.false_ne_true) ρ (hs.insert (Scope.entry_holds rightEnters known))
      have holds := (Passes.block right).required_holds (inside.inner rfl)
      rwa [(Passes.block left).type_eq] at holds
  | casesAny part any => exact (not_any_of_passes free part any).elim

variable (tidy : ∀ ev, ok ev → ev.Tidy)
include tidy

theorem term_holds {e : Expr} : Conveys cfg ok Finding.Holds (.term scope e require t) := by
  intro h below ρ hs
  cases below with
  | judged _ recovers checked _ ih => exact recovers.holds (free _ checked) (tidy _ checked) (ih ρ hs)
  | block _ _ ih => exact (ih (absurd · Bool.false_ne_true) ρ hs).inner rfl

theorem block_holds {b : Block} : Conveys cfg ok Finding.Holds (.block scope isProgram b require seen t) := by
  intro h below alone ρ hs
  cases below with
  | body _ recovers checked _ ih =>
    have inside := ih ρ hs
    have holds (inner : isProgram = false) : t.type.Holds ρ :=
      recovers.holds (free _ (checked inner)) (tidy _ (checked inner)) (inside.inner inner)
    refine ⟨holds, fun leaving => ?_, inside.reached⟩
    cases isProgram with
    | true =>
      -- nothing is required of a program, so its type is the one that was inferred
      rw [recovers.type, alone rfl]
      exact inside.program leaving
    | false => exact ⟨ρ, holds rfl⟩

theorem call_holds {f a : Expr} : Conveys cfg ok Finding.Holds (.rule scope (.call f a p) require t) := by
  intro h below ρ hs
  cases below with
  | succ => exact trivial
  | applyAll _ _ arrow _ number substituted _ ihf =>
    have argument := Formula.holds_of_isArithmetic number ρ
    exact (holds_rewrite (tidy _ substituted) argument).2 (ihf.as arrow hs _)
  | apply _ _ arrow implies argument _ ihf _ iha =>
    have implication := ihf.as arrow hs
    rw [Formula.holds_implication (by rintro rfl; cases implies)] at implication
    exact implication (argument.required_holds (iha ρ hs))
  | applyAny _ part any | ringAny _ part any => exact (not_any_of_passes free part any).elim
  | trans _ first equation _ second equation' meets _ ihx _ iha =>
    have known := first.type_anyFree free
    have known' := second.type_anyFree free
    rw [equation] at known
    rw [equation'] at known'
    have middle := meets.value_eq (both_anyFree known).2 (both_anyFree known').1 ρ
    exact (ihx.as equation hs).trans (middle.trans (iha.as equation' hs))
  | transRung _ _ equation _ _ rung meets compared chained _ ihx _ iha =>
    have alike := Formula.alike_of_equal meets (free _ compared).1 (free _ compared).2
    have equal' := (alike.holds_iff (tidy _ compared) ρ).2 (iha.as rung hs)
    have start := (tidy _ chained : Fits _ _).value_eq (free _ chained).1 (free _ chained).2 ρ
    exact start.trans ((ihx.as equation hs).trans equal')
  | mapSucc _ _ _ equated _ _ ih => exact congrArg (· + 1) (ih.as equated hs)
  | map _ _ _ _ _ _ equated left right _ _ _ ih => exact applies_value left right (ih.as equated hs)
  | replaceAll _ _ equated _ replaced substituted _ iha _ ihb =>
    refine (holds_rewrite (tidy _ substituted) (Formula.holds_of_isArithmetic (tidy _ replaced) ρ)).2 ?_
    -- the equation says that the variable has that number already
    rw [← show _ = _ from iha.as equated hs, Formula.value, Function.update_eq_self]
    exact ihb ρ hs
  | ring _ _ equation _ ih =>
    have equal := ih.as equation hs
    exact equal
  | makeLeft _ argument _ ih => exact .inl (argument.required_holds (ih ρ hs))
  | makeRight _ argument _ ih => exact .inr (argument.required_holds (ih ρ hs))
  | neverElim _ argument _ ih => exact (argument.required_holds (ih ρ hs)).elim

theorem simple_holds {e : Expr} (simple : isSimple e) :
    Conveys cfg ok Finding.Holds (.rule scope e require t) := by
  intro h below ρ hs
  cases below with
  | sorried _ sorried => exact (free _ sorried).elim
  | name _ found => exact hs.find? found
  | numeral => exact Formula.holds_numeral _ ρ
  | add | mul => exact trivial
  | symm _ _ equation _ ih => exact (ih.as equation hs).symm
  | ringAlone => rfl
  | pair _ _ _ _ ihl _ ihr => exact ⟨ihl ρ hs, ihr ρ hs⟩
  | left _ _ both _ ih => exact (ih.as both hs).1
  | right _ _ both _ ih => exact (ih.as both hs).2
  | ascribe _ subject _ ih => exact subject.required_holds (ih ρ hs)
  | record _ _ proof _ substituted _ ihv _ ihw =>
    have instantiated := proof.required_holds (ihw ρ hs)
    exact ⟨_, (holds_rewrite (tidy _ substituted) (ihv ρ hs)).1 instantiated⟩
  | switch _ _ ih => exact ih ρ hs
  | mapSucc call | map call => cases call <;> cases simple
  | _ => cases simple

theorem Passes.holds {j : Finding} (h : Passes cfg ok j) : j.Holds := by
  refine h.conveyed fun j => ?_
  cases j with
  | term => exact term_holds free tidy
  | rule scope e =>
    cases e with
    | lambda => exact lambda_holds tidy
    | call => exact call_holds free tidy
    | generic => exact generic_holds tidy
    | loop => exact loop_conveys tidy
    | _ => exact simple_holds free tidy rfl
  | switch => exact switch_holds free
  | block => exact block_holds free tidy
  | statements => exact statements_hold tidy
  | statement => exact statement_holds tidy
  | logs => exact fun _ _ => trivial

end Groups

section Induction
open Syntax (Block Expr Loop)

/-- The statement `0 + i == i`. -/
def zeroAddsTo (i : String) : Formula := .eq (.add .zero (.var i)) (.var i)

def zeroAddSucc : Expr :=
  .call (.call (.name (written "addSucc")) (.numeral "0" none) none) (.name (written "i")) none

/-- The loop `for (let i: N = 0; let p: 0 + i == i = addZero(0); i < n; i++)` with the body
`continue addSucc(0)(i).trans(p.map(succ));`. -/
def zeroAddLoop : Loop where
  counter := ⟨written "i", some (.name (written "N")), .numeral "0" none, none⟩
  proof := ⟨written "p",
    some (.binary .equal (.binary .add (.numeral "0" none) (.name (written "i")) none)
      (.name (written "i")) none),
    .call (.name (written "addZero")) (.numeral "0" none) none, none⟩
  compared := written "i"
  bound := .name (written "n")
  comparisonPlace := none
  stepped := written "i"
  stepPlace := none
  body :=
    let mapped := .call (.member (.name (written "p")) (written "map") none) (.name (written "succ")) none
    ⟨[.leave .next none (.call (.member zeroAddSucc (written "trans") none) mapped none) none], none⟩
  place := none

/-- The program that returns the function from `n` to this loop, under the name `zeroAdd`. -/
def zeroAdd : Block :=
  ⟨[.define ⟨written "zeroAdd", none,
      .lambda (written "n") (some (.name (written "N"))) none (.loop zeroAddLoop) none, none⟩,
    .leave .ret none (.name (written "zeroAdd")) none], none⟩

def zeroAddType : Formula := .arrow "n" .nat (zeroAddsTo "n")

/-- The scope of the loop, and that of its body. -/
def zeroAddScope : Scope := Axiom.scope.insert "n" (.arithmetic (.var "n"))

def zeroAddInside : Scope :=
  (zeroAddScope.insert "i" (.arithmetic (.var "i"))).insert "p" (.proof (zeroAddsTo "i"))

theorem Scope.fresh_of_all {s : Scope} {x : String}
    (h : (s.all fun (y, e) => y == x || match e with | .proof t => !t.mentions x | _ => true)) :
    s.Fresh x := by
  intro y t found other
  have entry := all_eq_true.1 h _ (Scope.mem_of_find? found)
  simpa [other] using entry

variable {cfg : Settings} {P : Event → Prop}
  (inferred : ∀ scope t, P (.checked scope none t))
  (equated : ∀ scope l r, P (.checked scope (some (.eq l r)) (.eq l r)))
  (substituted : ∀ t x u, t.captureFree x u = true → P (.substituted t x u))

section
include inferred

theorem settles_name {scope : Scope} {x : String} {t : Formula} (plain : x ≠ "sorry")
    (known : scope.find? x = some (.proof t) ∨ scope.find? x = some (.arithmetic t)) :
    Settles cfg P scope (.name (written x)) none t :=
  (infers_name plain known).settles nofun (inferred _ _)

theorem settles_zero {scope : Scope} : Settles cfg P scope (.numeral "0" none) none .zero :=
  infers_numeral.settles nofun (inferred _ _)

end

include inferred substituted

include equated in
theorem addZero_settles : Settles cfg P zeroAddScope
    (.call (.name (written "addZero")) (.numeral "0" none) none)
    (some (.eq (.add .zero .zero) .zero)) (.eq (.add .zero .zero) .zero) := by
  have law : Settles cfg P zeroAddScope (.name (written "addZero")) none
      (.arrow "x" .nat (.eq (.add (.var "x") .zero) (.var "x"))) :=
    settles_name inferred (by decide)
      (.inl (by unfold zeroAddScope; rw [Axiom.scope_eq]; decide +kernel))
  exact (infers_instance rfl law (settles_zero inferred) (substituted _ _ _ (by decide +kernel))
    (by decide +kernel)).settles nofun (equated _ _ _)

theorem zeroAddSucc_settles : Settles cfg P zeroAddInside zeroAddSucc none
    (.eq (.add .zero (.succ (.var "i"))) (.succ (.add .zero (.var "i")))) := by
  have law : Settles cfg P zeroAddInside (.name (written "addSucc")) none
      (.arrow "x" .nat (.arrow "y" .nat
        (.eq (.add (.var "x") (.succ (.var "y"))) (.succ (.add (.var "x") (.var "y")))))) :=
    settles_name inferred (by decide)
      (.inl (by unfold zeroAddInside zeroAddScope; rw [Axiom.scope_eq]; decide +kernel))
  have counter : Settles cfg P zeroAddInside (.name (written "i")) none (.var "i") :=
    settles_name inferred (by decide) (.inr rfl)
  have atZero : Settles cfg P zeroAddInside
      (.call (.name (written "addSucc")) (.numeral "0" none) none) none
      (.arrow "y" .nat (.eq (.add .zero (.succ (.var "y"))) (.succ (.add .zero (.var "y"))))) :=
    (infers_instance rfl law (settles_zero inferred) (substituted _ _ _ (by decide +kernel))
      (by decide +kernel)).settles nofun (inferred _ _)
  exact (infers_instance rfl atZero counter (substituted _ _ _ (by decide +kernel))
    (by decide +kernel)).settles nofun (inferred _ _)

include equated

theorem zeroAddBody_settles : SettlesAll cfg P false zeroAddInside zeroAddLoop.body.statements
    (some (.eq (.add .zero (.succ (.var "i"))) (.succ (.var "i"))))
    (.eq (.add .zero (.succ (.var "i"))) (.succ (.var "i"))) := by
  have hypothesis : Settles cfg P zeroAddInside (.name (written "p")) none (zeroAddsTo "i") :=
    settles_name inferred (by decide) (.inl rfl)
  have starts : Fits (.add .zero (.succ (.var "i"))) (.add .zero (.succ (.var "i"))) := rfl
  exact settlesAll_leave ((infers_trans rfl (zeroAddSucc_settles inferred substituted) starts
    ((infers_map_succ rfl rfl hypothesis).settles nofun (equated _ _ _))).settles nofun (equated _ _ _))

theorem zeroAdd_always (counted : ∀ scope, P (.checked scope (some .zero) .zero))
    (numbered : ∀ scope x, scope.Fresh x → P (.numbered scope x)) (iterated : ∀ x, P (.iterated (.var x)))
    (reached : P (.reached (Axiom.scope.insert "zeroAdd" (.proof zeroAddType))))
    (concluded : P (.concluded true [] zeroAddType)) : Always cfg zeroAdd P := by
  have fresh : zeroAddScope.Fresh "i" :=
    Scope.fresh_of_all (by unfold zeroAddScope; rw [Axiom.scope_eq]; decide +kernel)
  have fresh' : Axiom.scope.Fresh "n" := Scope.fresh_of_all (by rw [Axiom.scope_eq]; decide +kernel)
  have free : ∀ u ∈ [.zero, .succ (.var "i"), .var "n"],
      (zeroAddsTo "i").captureFree "i" u := by decide +kernel
  have start : Settles cfg P zeroAddScope (.numeral "0" none) (some .zero) .zero :=
    infers_numeral.settles nofun (counted _)
  have bound : Settles cfg P zeroAddScope (.name (written "n")) none (.var "n") :=
    settles_name inferred (by decide) (.inr rfl)
  have loop : Infers cfg P zeroAddScope (.loop zeroAddLoop) none (zeroAddsTo "n") :=
    infers_loop rfl start bound rfl rfl rfl rfl (by decide +kernel)
      (addZero_settles inferred equated substituted) (zeroAddBody_settles inferred equated substituted)
      (equated _ _ _) (numbered _ _ fresh) (iterated _) fun u hu => substituted _ _ _ (free u hu)
  have function : Infers cfg P Axiom.scope _ none zeroAddType :=
    infers_forall (x := written "n") (d := .name (written "N")) (p := none) rfl
      (numbered _ _ fresh') (loop.settles nofun (inferred _ _))
  exact SettlesAll.always (settlesAll_define (function.settles nofun (inferred _ _)) rfl
    (settlesAll_leave (settles_name inferred (by decide) (.inl rfl))) reached concluded)

end Induction

/-- A program with no errors that reads neither `sorry` nor `any` and hands over a value proves the
type of that value, if what comes up on the way is tidy. -/
theorem accepted_holds {cfg : Settings} {program : Syntax.Block} {e : Elaborated}
    (accepted : Accepted cfg program e) (avoids : program.avoids ["sorry", "any"] = true)
    (leaving : leaves program.statements = true) (closed : ∀ x, e.typed.type.mentions x = false)
    (tidy : Always cfg program Event.Tidy) (ρ : String → Nat) : e.typed.type.Holds ρ := by
  obtain ⟨seen, passes⟩ := accepted.passes
  obtain ⟨passes, -⟩ := (tidy _ _ _ passes).anyFree (by simp) (.inr (by simp)) avoids
    ⟨Scope.AnyFree.axioms, anyFree_none⟩
  have concludes := passes.holds (fun _ h => h.2) (fun _ h => h.1.2) (fun _ => rfl) ρ
    (Axiom.scope_holds ρ)
  obtain ⟨σ, holds⟩ := concludes.program leaving
  exact Formula.holds_of_closed closed holds ρ

theorem zeroAdd_holds : ∃ e, Accepted {} zeroAdd e ∧ zeroAdd.avoids ["sorry", "any"] = true ∧
    leaves zeroAdd.statements = true ∧ e.typed.type = zeroAddType ∧ Always {} zeroAdd Event.Tidy ∧
      ∀ ρ, e.typed.type.Holds ρ := by
  obtain ⟨e, accepted, type⟩ : ∃ e, Accepted {} zeroAdd e ∧ e.typed.type = zeroAddType :=
    exists_accepted (by rw [Axiom.scope_eq]; decide +kernel)
  have avoids : zeroAdd.avoids ["sorry", "any"] = true := by decide +kernel
  have closed : ∀ x, e.typed.type.mentions x = false := by
    intro x
    rw [type]
    by_cases bound : "n" = x <;> simp [zeroAddType, zeroAddsTo, Formula.mentions, bound]
  have tidy : Always {} zeroAdd Event.Tidy := by
    refine zeroAdd_always (fun _ _ => ?_) (fun _ _ _ => ?_) (fun _ _ _ free => free) (fun _ => ?_)
      (fun _ _ fresh => fresh) (fun _ => trivial) trivial ?_
    · rintro r ⟨⟩
    · rintro r ⟨⟩
      rfl
    · rintro r ⟨⟩
      rfl
    · rintro ⟨⟩
  exact ⟨e, accepted, avoids, rfl, type, tidy, accepted_holds accepted avoids rfl closed tidy⟩

/-- The program `const bad: 0 == 1 = eqRefl(1).trans(ring()); return bad;`. -/
def unstartedChain : Syntax.Block :=
  ⟨[.define ⟨written "bad", some (.binary .equal (.numeral "0" none) (.numeral "1" none) none),
      .call (.member (.call (.name (written "eqRefl")) (.numeral "1" none) none) (written "trans") none)
        (.emptyCall (.name (written "ring")) none) none, none⟩,
    .leave .ret none (.name (written "bad")) none], none⟩

/-- Without tidiness an accepted program may prove something false: here nothing compares the left side
of the chain with what it should be. -/
theorem unstartedChain_false : ∃ e, Accepted {} unstartedChain e ∧
    unstartedChain.avoids ["sorry", "any"] = true ∧ leaves unstartedChain.statements = true ∧
      (∀ x, e.typed.type.mentions x = false) ∧ ∀ ρ, ¬ e.typed.type.Holds ρ := by
  obtain ⟨e, accepted, type⟩ : ∃ e, Accepted {} unstartedChain e ∧
      e.typed.type = .eq .zero (.succ .zero) :=
    exists_accepted (by rw [Axiom.scope_eq]; decide +kernel)
  refine ⟨e, accepted, by decide +kernel, rfl, ?_, ?_⟩
  · intro x
    rw [type]
    rfl
  · intro ρ
    rw [type]
    exact nofun

end Judgement
end Peano
