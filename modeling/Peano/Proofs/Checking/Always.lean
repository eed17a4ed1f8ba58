import Peano.Proofs.Checking.Accepted
namespace Peano.Judgement
open Syntax (Block Expr TypeExpr Name Loop Statement Place Jump Definition)

/-- Whatever comes up when the program passes satisfies `P`. -/
def Always (cfg : Settings) (program : Block) (P : Event → Prop) : Prop :=
  ∀ ok seen t, Passes cfg ok (.block Axiom.scope true program none seen t) →
    Passes cfg (fun ev => ok ev ∧ P ev) (.block Axiom.scope true program none seen t)

section Settled

variable (cfg : Settings) (P : Event → Prop)

/-- If this term passes, it has this type before that is compared with what is required. -/
def Infers (scope : Scope) (e : Expr) (require : Option Formula) (type : Formula) : Prop :=
  ∀ ok t, Passes cfg ok (.rule scope e require t) →
    Passes cfg (fun ev => ok ev ∧ P ev) (.rule scope e require t) ∧ t.type = type

def Settles (scope : Scope) (e : Expr) (require : Option Formula) (type : Formula) : Prop :=
  ∀ ok t, Passes cfg ok (.term scope e require t) →
    Passes cfg (fun ev => ok ev ∧ P ev) (.term scope e require t) ∧ t.type = type

/-- If these statements pass, they come to a value of this type. -/
def SettlesAll (isProgram : Bool) (scope : Scope) (ss : List Statement) (require : Option Formula)
    (type : Formula) : Prop :=
  ∀ ok bindings seen t, Passes cfg ok (.statements isProgram ⟨scope, bindings⟩ ss require seen t) →
    Passes cfg (fun ev => ok ev ∧ P ev) (.statements isProgram ⟨scope, bindings⟩ ss require seen t) ∧
      t.type = type

end Settled

section Rules

variable {cfg : Settings} {P : Event → Prop} {scope : Scope} {require : Option Formula}
variable {f a v : Expr} {type c result l r : Formula} {x field : Name} {p q : Place}

theorem Infers.settles {e : Expr} (h : Infers cfg P scope e require type) (plain : ∀ b, e ≠ .block b)
    (checked : P (.checked scope require type)) : Settles cfg P scope e require (require.getD type) := by
  intro ok t passes
  cases passes with
  | judged rule recovers known =>
    obtain ⟨rule, typed⟩ := h _ _ rule
    rw [typed] at known
    refine ⟨.judged rule recovers ?_, ?_⟩
    · rw [typed]
      exact ⟨known, checked⟩
    · rw [recovers.type, typed]
  | block => exact (plain _ rfl).elim

theorem infers_name {t : Formula} (plain : x.text ≠ "sorry")
    (known : scope.find? x.text = some (.proof t) ∨ scope.find? x.text = some (.arithmetic t)) :
    Infers cfg P scope (.name x) require t := by
  intro ok u passes
  cases passes with
  | sorried named => exact (plain named).elim
  | name named found =>
    refine ⟨.name named found, ?_⟩
    rcases known with known | known <;> rcases found with found | found <;>
      cases known.symm.trans found <;> rfl
  | mapSucc call | map call => cases call

theorem infers_numeral {digits : String} :
    Infers cfg P scope (.numeral digits p) require (.numeral (Syntax.digitsValue digits)) := by
  intro ok u passes
  cases passes with
  | numeral => exact ⟨.numeral, rfl⟩
  | mapSucc call | map call => cases call

theorem infers_forall {d : TypeExpr} {b : Expr} (declared : Stands scope d .nat)
    (numbered : P (.numbered scope x.text))
    (inside : Settles cfg P (scope.insert x.text (.arithmetic (.var x.text))) b none type) :
    Infers cfg P scope (.lambda x (some d) none b p) none (.arrow x.text .nat type) := by
  intro ok u passes
  cases passes with
  | lambda declares plan enters result body known =>
    obtain ⟨g, stands, rfl⟩ := declares
    cases (stands.symm.trans declared)
    obtain ⟨declared, rfl⟩ := plan
    cases declared
    cases enters
    cases result
    obtain ⟨body, typed⟩ := inside _ _ body
    refine ⟨.lambda ⟨_, stands, rfl⟩ ⟨rfl, rfl⟩ rfl rfl body fun nat => ⟨known nat, numbered⟩, ?_⟩
    rw [typed]
  | mapSucc call | map call => cases call

theorem MapCall.builtin {fn equation : Expr} (call : MapCall (.call f a p) fn equation) : isBuiltin f := by
  cases call with
  | method named => rcases named with named | named <;> simp [isBuiltin, named]
  | function named => simp [isBuiltin, named]

theorem infers_instance {x : String} {arg : Formula} (plain : isBuiltin f = false)
    (fn : Settles cfg P scope f none (.arrow x .nat c)) (argument : Settles cfg P scope a none arg)
    (substituted : P (.substituted c x arg)) (rewritten : c.rewrite x arg = result) :
    Infers cfg P scope (.call f a p) require result := by
  subst rewritten
  intro ok u passes
  cases passes with
  | applyAll _ fn' arrow argument' number known =>
    obtain ⟨fn', typed⟩ := fn _ _ fn'
    obtain ⟨argument', typed'⟩ := argument _ _ argument'
    cases typed.symm.trans arrow
    rw [typed'] at known
    refine ⟨.applyAll plain fn' arrow argument' number ?_, by rw [typed']⟩
    rw [typed']
    exact ⟨known, substituted⟩
  | apply _ fn' arrow implies =>
    cases (fn _ _ fn').2.symm.trans arrow
    cases implies
  | applyAny _ fn' any => cases (fn _ _ fn').2.symm.trans any
  | succ named | trans named | transRung named | replaceAll named | ring named | ringAny named
  | makeLeft named | makeRight named | neverElim named => simp [isBuiltin, named] at plain
  | mapSucc call | map call => cases call.builtin.symm.trans plain

/-- A chain of equations that starts where it is required to start. -/
theorem infers_trans {x : Expr} {r' b : Formula} (named : field.text = "trans")
    (first : Settles cfg P scope x none (.eq l r)) (starts : Fits b l)
    (second : Settles cfg P scope a (some (.eq r c)) (.eq r r')) :
    Infers cfg P scope (.call (.member x field q) a p) (some (.eq b c)) (.eq l r') := by
  intro ok u passes
  have builtin : isBuiltin (.member x field q) := by simp [isBuiltin, named]
  have expected {l₁ r₁ : Formula} {e : Option Formula} (same : Formula.eq l r = .eq l₁ r₁)
      (h : TransExpects (some (.eq b c)) l₁ r₁ e) : e = some (.eq r c) := by
    cases same
    rcases h with ⟨-, rfl⟩ | ⟨fails, -⟩
    · rfl
    · cases starts.symm.trans fails
  cases passes with
  | trans _ first' equation expects second' equation' meets =>
    obtain ⟨first', typed⟩ := first _ _ first'
    cases expected (typed.symm.trans equation) expects
    obtain ⟨second', typed'⟩ := second _ _ second'
    cases typed.symm.trans equation
    cases typed'.symm.trans equation'
    exact ⟨.trans named first' equation expects second' equation' meets, rfl⟩
  | transRung _ first' equation expects second' rung =>
    obtain ⟨first', typed⟩ := first _ _ first'
    cases expected (typed.symm.trans equation) expects
    cases (second _ _ second').2.symm.trans rung
  | applyAll plain | apply plain | applyAny plain => cases builtin.symm.trans plain
  | mapSucc call | map call =>
    cases call with
    | method other =>
      rcases other with other | other <;> exact absurd (named.symm.trans other) (by decide)

theorem infers_map_succ {x : Expr} (named : field.text = "map") (succ : isSucc f)
    (subject : Settles cfg P scope x none (.eq l r)) :
    Infers cfg P scope (.call (.member x field q) f p) require (.eq (.succ l) (.succ r)) := by
  intro ok u passes
  have builtin : isBuiltin (.member x field q) := by simp [isBuiltin, named]
  cases passes with
  | mapSucc call _ subject' equated numbers =>
    cases call with
    | method =>
      obtain ⟨subject', typed⟩ := subject _ _ subject'
      cases typed.symm.trans equated
      exact ⟨.mapSucc (.method (.inl named)) succ subject' equated numbers, rfl⟩
  | map call other =>
    cases call with
    | method => cases succ.symm.trans other
  | trans other | transRung other => exact absurd (named.symm.trans other) (by decide)
  | applyAll plain | apply plain | applyAny plain => cases builtin.symm.trans plain

theorem settles_block {b : Block} (h : SettlesAll cfg P false scope b.statements require type)
    (checked : P (.checked scope require type)) {ok : Event → Prop} {seen : List Scope} {t : Typed}
    (passes : Passes cfg ok (.block scope false b require seen t)) :
    Passes cfg (fun ev => ok ev ∧ P ev) (.block scope false b require seen t) := by
  cases passes with
  | body inside recovers known =>
    obtain ⟨inside, typed⟩ := h _ _ _ _ inside
    refine .body inside recovers fun inner => ?_
    have known := known inner
    rw [typed] at known ⊢
    exact ⟨known, checked⟩

theorem LoopStates.declared {i : String} {declared : Option Formula} {bound statement : Formula}
    (h : LoopStates i declared none bound statement) : declared = some statement := by
  unfold LoopStates at h
  split at h
  · contradiction
  · exact h

/-- A loop that states itself what it proves. -/
theorem infers_loop {l : Loop} {s : TypeExpr} {entry : Scope.Entry}
    {bound statement atZero atNext atBound first base step : Formula} {counting inside : Scope}
    (counts : scope.insert l.counter.name.text (.arithmetic (.var l.counter.name.text)) = counting)
    (start : Settles cfg P scope l.counter.value (some .zero) first)
    (bounded : Settles cfg P scope l.bound none bound) (asserted : l.proof.assertion = some s)
    (stands : Stands counting s statement) (enters : Scope.tag statement = .ok entry)
    (assumes : counting.insert l.proof.name.text entry = inside)
    (rewritten : statement.rewrite l.counter.name.text .zero = atZero ∧
      statement.rewrite l.counter.name.text (.succ (.var l.counter.name.text)) = atNext ∧
      statement.rewrite l.counter.name.text bound = atBound)
    (zero : Settles cfg P scope l.proof.value (some atZero) base)
    (next : SettlesAll cfg P false inside l.body.statements (some atNext) step)
    (checked : P (.checked inside (some atNext) step))
    (numbered : P (.numbered scope l.counter.name.text)) (iterated : P (.iterated bound))
    (substituted : ∀ u ∈ [.zero, .succ (.var l.counter.name.text), bound],
      P (.substituted statement l.counter.name.text u)) : Infers cfg P scope (.loop l) none atBound := by
  subst counts assumes
  obtain ⟨rfl, rfl, rfl⟩ := rewritten
  intro ok u passes
  cases passes with
  | loop start' bounded' declares states zero' enters' next' numbered' iterated' atZero atNext atBound =>
    rw [asserted] at declares
    obtain ⟨g, stands', rfl⟩ := declares
    cases stands.symm.trans stands'
    cases states.declared
    cases enters.symm.trans enters'
    obtain ⟨bounded', typed⟩ := bounded _ _ bounded'
    have iterates : P (.iterated _) := typed ▸ iterated
    have reaches : P (.substituted statement l.counter.name.text _) :=
      typed ▸ substituted bound (by simp)
    refine ⟨.loop (start _ _ start').1 bounded' (asserted ▸ ⟨_, stands, rfl⟩) states (zero _ _ zero').1
      enters (settles_block next checked next') ⟨numbered', numbered⟩ ⟨iterated', iterates⟩
      ⟨atZero, substituted _ (by simp)⟩ ⟨atNext, substituted _ (by simp)⟩ ⟨atBound, reaches⟩, ?_⟩
    rw [typed]
  | mapSucc call | map call => cases call

theorem settlesAll_leave {isProgram : Bool} {j : Jump} {rest : List Statement}
    (value : Settles cfg P scope v require type) :
    SettlesAll cfg P isProgram scope (.leave j q v p :: rest) require type := by
  intro ok bindings seen t passes
  cases passes with
  | leave value' =>
    obtain ⟨value', typed⟩ := value _ _ value'
    exact ⟨.leave value', typed⟩
  | next statement => cases statement

theorem settlesAll_nil : SettlesAll cfg P true scope [] none .any := by
  intro ok bindings seen t passes
  cases passes with
  | fallOff => exact ⟨.fallOff, rfl⟩

theorem settlesAll_define {isProgram : Bool} {rest : List Statement} {entry : Scope.Entry}
    (value : Settles cfg P scope v none type) (enters : Scope.tag type = .ok entry)
    (remaining : SettlesAll cfg P isProgram (scope.insert x.text entry) rest require result)
    (reached : P (.reached (scope.insert x.text entry))) (concluded : P (.concluded isProgram [] result)) :
    SettlesAll cfg P isProgram scope (.define ⟨x, none, v, p⟩ :: rest) require result := by
  intro ok bindings seen t passes
  cases passes with
  | next statement reached' remaining' concluded' =>
    cases statement with
    | define asserts value' enters' =>
      cases asserts
      obtain ⟨value', typed⟩ := value _ _ value'
      have enters'' := enters'
      rw [typed] at enters''
      cases enters''.symm.trans enters
      obtain ⟨remaining', typed'⟩ := remaining _ _ _ _ remaining'
      rw [typed'] at concluded'
      refine ⟨.next (.define rfl value' enters') ⟨reached', reached⟩ remaining' ?_, typed'⟩
      rw [typed']
      exact ⟨concluded', concluded⟩

theorem SettlesAll.always {program : Block}
    (h : SettlesAll cfg P true Axiom.scope program.statements none type) : Always cfg program P := by
  intro ok seen t passes
  cases passes with
  | body inside recovers _ => exact .body (h _ _ _ _ inside).1 recovers nofun

end Rules

end Peano.Judgement
