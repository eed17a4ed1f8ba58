import Peano.Proofs.Formula.Shape
import Peano.Proofs.Realizer.Evaluation
import Peano.Proofs.Scope
namespace Peano
open List
open Run (Ends)

def Value.isFunction : Value → Bool
  | .closure .. | .partialApp .. => true
  | _ => false

namespace Shape

def Has : Shape → Value → Prop
  | .number, v => ∃ n, v = .number n
  | .equation, v => v = .witness .equality
  | .falsity, _ => False
  | .anything, _ => True
  | .pair a b, v => ∃ l r, v = .pair l r ∧ a.Has l ∧ b.Has r
  | .either a b, v => (∃ l, v = .left l ∧ a.Has l) ∨ ∃ r, v = .right r ∧ b.Has r
  | .exist s, v => ∃ n w, v = .exist n w ∧ s.Has w
  | .function a b, f => f.isFunction = true ∧
      ∀ v, a.Has v → Ends b.Has fun fuel => f.call (Realizer.eval fuel) v

def functions (params : List Shape) (result : Shape) : Shape := params.foldr .function result

/-- A primitive has its shape if all its arguments together lead to its result. -/
theorem has_primitive {p : Primitive} {result : Shape} (params : List Shape) {args : List Value}
    (some : params ≠ []) (waits : args.length + params.length = p.arity)
    (runs : ∀ vs, List.Forall₂ Has params vs → Ends result.Has fun _ => Run.ofExcept (p.run (args ++ vs))) :
    (functions params result).Has (.partialApp p args) := by
  induction params generalizing args with
  | nil => exact (some rfl).elim
  | cons a rest ih =>
    refine ⟨rfl, fun v good => ?_⟩
    have fed : (args ++ [v]).length + rest.length = p.arity := by
      simpa [Nat.add_assoc, Nat.add_comm 1] using waits
    show Ends _ fun _ => Run.ofExcept (p.feed args v)
    -- the last argument runs the primitive, the ones before it only wait
    cases rest with
    | nil =>
      have last : p.feed args v = p.run (args ++ [v]) := if_pos fed
      rw [last]
      exact runs [v] (.cons good .nil)
    | cons b rest =>
      have more : p.feed args v = .ok (.partialApp p (args ++ [v])) := by
        refine if_neg fun full => ?_
        rw [length_cons] at fed
        omega
      rw [more]
      refine Ends.pure (ih nofun fed fun vs goods => ?_)
      rw [append_assoc]
      exact runs (v :: vs) (.cons good goods)

theorem has_equality {params : List Shape} (some : params ≠ []) :
    (functions params .equation).Has (.partialApp (.equality params.length) []) :=
  has_primitive params some (Nat.zero_add _) fun _ _ => Ends.pure rfl

theorem has_argument {params : List Shape} {i : Nat} (inside : i < params.length) :
    (functions params (params.get ⟨i, inside⟩)).Has (.partialApp (.argument params.length i) []) := by
  have some : params ≠ [] := ne_nil_of_length_pos (by omega)
  refine has_primitive params some (Nat.zero_add _) fun vs goods => ?_
  have inside' : i < vs.length := goods.length_eq ▸ inside
  refine Ends.pure ?_
  show Has _ (vs.getD i .undefined)
  rw [getD_eq_getElem?_getD, getElem?_eq_getElem inside']
  exact goods.get inside inside'

theorem has_succNotZero : (functions [.number, .equation] .falsity).Has (.partialApp .succNotZero []) :=
  has_primitive _ nofun rfl fun _ _ => Ends.fail (by decide)

theorem has_injections (a b : Shape) : (functions [a] (.either a b)).Has (.partialApp .injectLeft []) ∧
    (functions [b] (.either a b)).Has (.partialApp .injectRight []) := by
  constructor <;> refine has_primitive [_] nofun rfl ?_ <;> rintro _ (_ | ⟨good, ⟨⟩⟩)
  · exact Ends.pure (.inl ⟨_, rfl, good⟩)
  · exact Ends.pure (.inr ⟨_, rfl, good⟩)

end Shape

namespace Realizer
open Shape (Has)

/-- In this environment the realizer ends with a value of the shape, or fails as it has to. -/
def Computes (s : Shape) (env : Env) (r : Realizer) : Prop := Ends s.Has fun fuel => r.eval fuel env

section Computes

variable {env : Env} {s a b : Shape} {r l : Realizer}
variable {x y : String}

theorem computes_lookup {v : Value} (found : env.lookup x = some v) (good : s.Has v) :
    Computes s env (.lookup x) := by
  refine (Ends.pure good).deeper fun fuel => ?_
  simp only [eval, enter, found]

theorem computes_number (n : Nat) : Computes .number env (.number n) := by
  have number : Shape.number.Has (.number n) := ⟨n, rfl⟩
  exact (Ends.pure number).deeper fun _ => rfl

theorem computes_equality : Computes .equation env (.witness .equality) := by
  have equation : Shape.equation.Has (.witness .equality) := rfl
  exact (Ends.pure equation).deeper fun _ => rfl

theorem computes_primitive {p : Primitive} (good : s.Has (.partialApp p [])) :
    Computes s env (.primitive p) :=
  (Ends.pure good).deeper fun _ => rfl

theorem computes_fail {why : Failure} (h : why ∈ Failure.nonconstructive) : Computes s env (.fail why) :=
  (Ends.fail h).deeper fun _ => rfl

theorem computes_arith (left : Computes .number env l) (right : Computes .number env r) :
    Computes .number env (.add l r) ∧ Computes .number env (.mul l r) := by
  constructor <;> refine Ends.deeper (left.bind fun v hv => right.bind fun w hw => ?_) fun _ => rfl
  all_goals
    obtain ⟨m, rfl⟩ := hv
    obtain ⟨n, rfl⟩ := hw
    exact Ends.pure ⟨_, rfl⟩

theorem computes_succ (h : Computes .number env r) : Computes .number env (.succ r) := by
  refine Ends.deeper (h.bind fun v hv => ?_) fun _ => rfl
  obtain ⟨n, rfl⟩ := hv
  exact Ends.pure ⟨n + 1, rfl⟩

theorem computes_lambda (body : ∀ v, a.Has v → Computes b ((x, v) :: env) r) :
    Computes (.function a b) env (.lambda x r) := by
  have function : (Shape.function a b).Has (.closure x r env) := ⟨rfl, body⟩
  exact (Ends.pure function).deeper fun _ => rfl

theorem computes_apply (fn : Computes (.function a b) env l) (arg : Computes a env r) :
    Computes b env (.apply l r) :=
  Ends.deeper (fn.bind fun _ hf => arg.bind fun v hv => hf.2 v hv) fun _ => rfl

theorem computes_injectLeft (h : Computes a env r) : Computes (.either a b) env (.injectLeft r) :=
  Ends.deeper (h.bind fun v hv => Ends.pure (.inl ⟨v, rfl, hv⟩)) fun _ => rfl

theorem computes_injectRight (h : Computes b env r) : Computes (.either a b) env (.injectRight r) :=
  Ends.deeper (h.bind fun v hv => Ends.pure (.inr ⟨v, rfl, hv⟩)) fun _ => rfl

theorem computes_exist (proof : ∀ n, ¬ s.Has (.number n)) (number : Computes .number env l)
    (property : Computes s env r) : Computes (.exist s) env (.exist l r) := by
  refine Ends.deeper (number.bind fun v hv => ?_) fun _ => rfl
  obtain ⟨n, rfl⟩ := hv
  refine property.bind fun w hw => ?_
  cases w with
  | number k => exact (proof k hw).elim
  | _ => exact Ends.pure ⟨n, _, rfl, hw⟩

theorem computes_pair (left : Computes a env l) (right : Computes b env r) :
    Computes (.pair a b) env (.pair l r) :=
  Ends.deeper (left.bind fun v hv => right.bind fun w hw => Ends.pure ⟨v, w, rfl, hv, hw⟩) fun _ => rfl

theorem computes_sides (h : Computes (.pair a b) env r) :
    Computes a env (.left r) ∧ Computes b env (.right r) := by
  constructor <;> refine Ends.deeper (h.bind fun v hv => ?_) fun _ => rfl
  all_goals
    obtain ⟨v, w, rfl, left, right⟩ := hv
    exact Ends.pure ‹_›

theorem computes_switch {subject : Realizer} (either : Computes (.either a b) env subject)
    (left : ∀ v, a.Has v → Computes s ((x, v) :: env) l)
    (right : ∀ v, b.Has v → Computes s ((y, v) :: env) r) : Computes s env (.switch subject x l y r) := by
  refine Ends.deeper (either.bind fun v hv => ?_) fun _ => rfl
  rcases hv with ⟨v, rfl, good⟩ | ⟨v, rfl, good⟩
  · exact left v good
  · exact right v good

theorem computes_loop {bound base : Realizer} {i p : String} (bounded : Computes .number env bound)
    (zero : Computes s env base) (next : ∀ k v, s.Has v → Computes s ((p, v) :: (i, .number k) :: env) r) :
    Computes s env (.loop bound base i p r) := by
  refine Ends.deeper (bounded.bind fun v hv => ?_) fun _ => rfl
  obtain ⟨n, rfl⟩ := hv
  exact zero.bind fun v hv => Ends.iterate next n 0 hv

theorem computes_define {value : Realizer} (defined : Computes a env value)
    (rest : ∀ v, a.Has v → Computes s ((x, v) :: env) r) : Computes s env (.define x value r) :=
  Ends.deeper (defined.bind fun v hv => (rest v hv).sooner) fun _ => rfl

theorem computes_unpack {value : Realizer} (packed : Computes (.exist a) env value)
    (rest : ∀ k w, a.Has w → Computes s ((y, w) :: (x, .number k) :: env) r) :
    Computes s env (.unpack x y value r) := by
  refine Ends.deeper (packed.bind fun v hv => ?_) fun _ => rfl
  obtain ⟨k, w, rfl, good⟩ := hv
  exact (rest k w good).sooner

end Computes

theorem after_append (r : Realizer) (bs bs' : List Binding) :
    r.after (bs ++ bs') = (r.after bs').after bs := by
  induction bs with
  | nil => rfl
  | cons b bs ih => cases b <;> simp only [cons_append, after, ih]

end Realizer

namespace Env
open Shape (Has)

/-- Every name of a value in the scope has a value of the right shape. -/
def Fits (env : Env) (scope : Scope) : Prop :=
  ∀ x t, scope.find? x = some (.proof t) ∨ scope.find? x = some (.arithmetic t) →
    ∃ v, env.lookup x = some v ∧ t.shape.Has v

section Fits

variable {env : Env} {scope : Scope}

theorem Fits.insert (h : env.Fits scope) (x : String) {t : Formula} {e : Scope.Entry} {v : Value}
    (tagged : Scope.tag t = .ok e) (good : t.shape.Has v) : Fits ((x, v) :: env) (scope.insert x e) := by
  intro y u found
  rw [Scope.find?_insert] at found
  by_cases new : y = x
  · subst new
    rw [if_pos rfl] at found
    have typed : u = t := by
      rw [← Scope.type_of_tag tagged]
      rcases found with found | found <;> cases found <;> rfl
    exact ⟨v, lookup_cons_self, typed ▸ good⟩
  · rw [if_neg new] at found
    obtain ⟨w, known, good⟩ := h y u found
    refine ⟨w, ?_, good⟩
    rwa [lookup_cons, beq_false_of_ne new]

theorem Fits.insert_number (h : env.Fits scope) (x : String) (n : Nat) :
    Fits ((x, .number n) :: env) (scope.insert x (.arithmetic (.var x))) :=
  h.insert x (t := .var x) rfl ⟨n, rfl⟩

/-- A name for a type is not the name of a value. -/
theorem Fits.insert_type (h : env.Fits scope) (x : String) {e : Scope.Entry}
    (type : ∀ t, e ≠ .proof t ∧ e ≠ .arithmetic t) : env.Fits (scope.insert x e) := by
  intro y u found
  rw [Scope.find?_insert] at found
  split at found
  · rcases found with found | found <;> cases found
    · exact ((type u).1 rfl).elim
    · exact ((type u).2 rfl).elim
  · exact h y u found

theorem Fits.swap {x y : String} {v w : Value} (h : Fits ((x, v) :: (y, w) :: env) scope)
    (ne : x ≠ y) : Fits ((y, w) :: (x, v) :: env) scope := by
  intro z u found
  obtain ⟨a, known, good⟩ := h z u found
  refine ⟨a, ?_, good⟩
  rw [← known]
  simp only [lookup_cons]
  by_cases first : z = x
  · subst first
    rw [beq_false_of_ne ne]
  · rw [beq_false_of_ne first]

end Fits
end Env

namespace Axiom

/-- The value a name has before the program starts. -/
def given (name : String) : String × Value :=
  (name, (find? name).elim .undefined fun a => .partialApp a.realizer [])

theorem env_eq : env = ["succNotZero", "succInj", "mulZero", "mulSucc", "eqTrans", "eqSymm",
    "eqSym", "eqRefl", "addZero", "addSucc"].map given := by
  unfold env
  simp [list, List.mergeSort, given, find?]

theorem lookup_env {x : String} {a : Axiom} (known : find? x = some a) :
    env.lookup x = some (.partialApp a.realizer []) := by
  have each : ∀ a ∈ list, env.lookup a.name = some (.partialApp a.realizer []) := by
    rw [env_eq]
    simp only [list, forall_mem_cons]
    refine ⟨rfl, rfl, rfl, rfl, rfl, rfl, rfl, rfl, rfl, rfl, forall_mem_nil _⟩
  have named : a.name = x := by simpa using find?_some known
  rw [← named]
  exact each a (mem_of_find?_eq_some known)

theorem statement_has {a : Axiom} (mem : a ∈ list) : a.statement.shape.Has (.partialApp a.realizer []) := by
  have each : ∀ a ∈ list, a.statement.shape.Has (.partialApp a.realizer []) := by
    simp only [list, forall_mem_cons]
    have law₁ : (Shape.functions [.number] .equation).Has (.partialApp (.equality 1) []) :=
      Shape.has_equality (cons_ne_nil _ _)
    have law₂ : (Shape.functions [.number, .number] .equation).Has (.partialApp (.equality 2) []) :=
      Shape.has_equality (cons_ne_nil _ _)
    have third : (Shape.functions [.number, .number, .equation] .equation).Has
        (.partialApp (.argument 3 2) []) := Shape.has_argument (i := 2) (by decide)
    have fourth : (Shape.functions [.number, .number, .number, .equation, .equation] .equation).Has
        (.partialApp (.argument 5 3) []) := Shape.has_argument (i := 3) (by decide)
    exact ⟨law₁, third, third, fourth, third, Shape.has_succNotZero, law₁, law₂, law₁, law₂,
      forall_mem_nil _⟩
  exact each a mem

theorem env_fits : env.Fits scope := by
  intro x t found
  have proof : ∃ a, find? x = some a ∧ t = a.statement := by
    rcases found with found | found
    · rcases mem_scope (Scope.mem_of_find? found) with ⟨-, type⟩ | ⟨a, known, entry⟩
      · cases type
      · cases entry
        exact ⟨a, known, rfl⟩
    · rcases mem_scope (Scope.mem_of_find? found) with ⟨-, type⟩ | ⟨a, -, entry⟩
      · cases type
      · cases entry
  obtain ⟨a, known, rfl⟩ := proof
  exact ⟨_, lookup_env known, statement_has (mem_of_find?_eq_some known)⟩

end Axiom
end Peano
