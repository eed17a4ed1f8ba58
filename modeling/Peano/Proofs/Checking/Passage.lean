import Peano.Judgement.Elaboration
namespace Peano.Judgement
open Syntax (Name Expr Loop Block Switch Case Statement TypeExpr Rename TypeParam Place)

def Stands (scope : Scope) (t : TypeExpr) (f : Formula) : Prop := Resolve.resolve scope t = (f, [])

/-- The same for a type that may have been left out. -/
def Asserts (scope : Scope) : Option TypeExpr → Option Formula → Prop
  | none, f => f = none
  | some t, f => ∃ g, Stands scope t g ∧ f = some g

/-- A type may stand for another one. -/
def Fits (a b : Formula) : Prop := Formula.equal a b = .ok true

def Applies (fn arg t : Formula) : Prop := Formula.apply fn arg = .ok (.ok t)

/-- The domain of a function with parameter `x`, and what is expected of its body. -/
def FunctionExpects (x : String) (declared require : Option Formula) (domain : Formula)
    (expected : Option Formula) : Prop :=
  match require with
  | none => declared = some domain ∧ expected = none
  | some (.arrow y d c) => domain = declared.getD d ∧
      expected = some (if d.isNat && y != x then c.rewrite y (.var x) else c)
  | some _ => False

/-- A written result type takes the place of what is expected. -/
def ResultExpects (scope : Scope) (expected : Option Formula) : Option TypeExpr → Option Formula → Prop
  | none, required => required = expected
  | some t, required => ∃ g, Stands scope t g ∧ required = some g

/-- What a loop states about its counter `i`. -/
def LoopStates (i : String) (declared require : Option Formula) (bound statement : Formula) : Prop :=
  match bound, require with
  | .var x, some required => statement = required.rewrite x (.var i)
  | _, _ => declared = some statement

/-- What a pair of a number and a proof states about the number. -/
def WitnessStates (scope : Scope) (number property : String) (require : Option Formula)
    (statement : Formula) : Option TypeExpr → Prop
  | some t => Stands (scope.insert number (.arithmetic (.var number))) t statement
  | none => require = some (.struct number property statement)

/-- The proof in a pair, and the type ascribed to it. -/
def proofPart : Expr → Expr × Option TypeExpr
  | .ascribe proof t _ => (proof, some t)
  | w => (w, none)

def PairExpects : Option Formula → Option Formula → Option Formula → Prop
  | none, l, r => l = none ∧ r = none
  | some (.and a b), l, r => l = some a ∧ r = some b
  | some _, _, _ => False

def flipped : Option Formula → Option Formula
  | some (.eq l r) => some (.eq r l)
  | _ => none

/-- What is expected of the second of two chained equations. -/
def TransExpects (require : Option Formula) (l r : Formula) (expected : Option Formula) : Prop :=
  match require with
  | some (.eq l' r') => Fits l' l ∧ expected = some (.eq r r') ∨
      Formula.equal l' l = .ok false ∧ expected = none
  | _ => expected = none

/-- A term applies a function to both sides of an equation. -/
inductive MapCall : Expr → Expr → Expr → Prop
  | method {x a : Expr} {field : Name} {p q : Place} (named : field.text = "map" ∨ field.text = "congr") :
    MapCall (.call (.member x field q) a p) a x
  | function {f : Name} {a b : Expr} {p q : Place} (named : f.text = "eqMap") :
    MapCall (.call (.call (.name f) b q) a p) b a

/-- Whether a call of this is more than the application of a function. -/
def isBuiltin : Expr → Bool
  | .member _ field _ => ["symm", "sym", "trans", "map", "congr"].contains field.text
  | .name x => ["succ", "makeLeft", "makeRight", "ring", "neverElim"].contains x.text
  | .call (.name x) _ _ => ["eqMap", "replaceAll"].contains x.text
  | _ => false

/-- The names of the two numbers in the law that equal numbers share a property. -/
def leibnizLeft (property : Formula) : String := unusedName "L" [property]

def leibnizRight (property : Formula) : String :=
  unusedName "R" [property, .var (leibnizLeft property)]

/-- What comes up during a check. -/
inductive Event where
  /-- A term has a type, before it is compared with what is required of it. -/
  | checked (scope : Scope) (require : Option Formula) (type : Formula)
  | reached (scope : Scope)
  | sorried
  /-- A name is bound to a number. -/
  | numbered (scope : Scope) (name : String)
  | substituted (t : Formula) (x : String) (u : Formula)
  | compared (a b : Formula)
  /-- An equation with left side `found` is continued to one with left side `wanted`. -/
  | chained (wanted found : Formula)
  | iterated (bound : Formula)
  /-- Something of type `value` is paired with a proof of `statement`. -/
  | witnessed (value statement : Formula)
  | replaced (by_ : Formula)
  /-- A pair of this type is taken apart, and its number is called `target`. -/
  | unpacked (type : Formula) (target : String)
  /-- The property is taken out before the number. -/
  | reversed (number target property : String) (statement : Formula)
  /-- A block that bound these numbers ends with a value of this type. -/
  | concluded (isProgram : Bool) (numbers : List String) (type : Formula)

/-- What checking finds out. `seen` are the scopes that the statements of a block lead to. -/
inductive Finding where
  | term (scope : Scope) (e : Expr) (require : Option Formula) (t : Typed)
  | rule (scope : Scope) (e : Expr) (require : Option Formula) (t : Typed)
  | switch (scope : Scope) (s : Switch) (require : Option Formula) (t : Typed)
  | block (scope : Scope) (isProgram : Bool) (b : Block) (require : Option Formula)
    (seen : List Scope) (t : Typed)
  | statements (isProgram : Bool) (before : Progressed) (ss : List Statement)
    (require : Option Formula) (seen : List Scope) (t : Typed)
  | statement (isProgram : Bool) (before : Progressed) (s : Statement) (numbers : List String)
    (after : Progressed)
  | logs (scope : Scope) (args : List Expr)

/-- The primitive that proves a function type: that of the first lemma that states the type, or one that
computes nothing if the type ends in an equation. -/
def Shortcut.primitive? (t : Formula) : Option Primitive :=
  ((lemmas.find? fun l => (t.equal l.1).toOption.getD false).map Prod.snd).or <|
    match arrows t with
    | (n, .eq ..) => some (.equality n)
    | _ => none

/-- The primitive that takes the place of what realizes a term of type `t`. -/
def replacement? (cfg : Settings) (isName : Bool) (t : Formula) : Option Primitive :=
  match cfg.shortcuts && !isName, t with
  | true, .arrow .. => Shortcut.primitive? t
  | _, _ => none

/-- What was inferred meets the requirement, which then is the type. -/
structure Recovers (cfg : Settings) (isName : Bool) (require : Option Formula) (inferred final : Typed) :
    Prop where
  fits : ∀ r, require = some r → Fits inferred.type r
  type : final.type = require.getD inferred.type
  realizer : final.realizer = (replacement? cfg isName final.type).elim inferred.realizer .primitive

theorem Recovers.realizer_eq {cfg : Settings} {isName : Bool} {require : Option Formula}
    {inferred final : Typed} (h : Recovers cfg isName require inferred final) (plain : cfg.shortcuts = false) :
    final.realizer = inferred.realizer := by
  rw [h.realizer, show replacement? cfg isName final.type = none by simp [replacement?, plain]]
  rfl

/-- Names keep what realizes them. -/
def isName : Expr → Bool
  | .name _ => true
  | _ => false

variable (cfg : Settings) (ok : Event → Prop) in
inductive Passes : Finding → Prop
  -- terms and blocks
  | judged {scope e require inferred final} (rule : Passes (.rule scope e require inferred))
    (recovers : Recovers cfg (isName e) require inferred final)
    (checked : ok (.checked scope require inferred.type)) :
    Passes (.term scope e require final)
  | block {scope b require seen t} (inside : Passes (.block scope false b require seen t)) :
    Passes (.term scope (.block b) require t)
  | body {scope isProgram b require seen inferred final}
    (inside : Passes (.statements isProgram ⟨scope, []⟩ b.statements require seen inferred))
    (recovers : Recovers cfg false require inferred final)
    (checked : isProgram = false → ok (.checked scope require inferred.type)) :
    Passes (.block scope isProgram b require seen final)
  -- names, numerals and arithmetic
  | sorried {scope x require} (named : x.text = "sorry") (sorried : ok .sorried) :
    Passes (.rule scope (.name x) require ⟨.any, .witness .sorried⟩)
  | name {scope x require t} (named : x.text ≠ "sorry")
    (found : scope.find? x.text = some (.proof t) ∨ scope.find? x.text = some (.arithmetic t)) :
    Passes (.rule scope (.name x) require ⟨t, .lookup x.text⟩)
  | numeral {scope digits p require} :
    Passes (.rule scope (.numeral digits p) require (numeralRule digits))
  | add {scope l r p require a b} (left : Passes (.term scope l none a))
    (right : Passes (.term scope r none b))
    (numbers : a.type.isArithmetic = true ∧ b.type.isArithmetic = true) :
    Passes (.rule scope (.arith .add l r p) require
      ⟨.add a.type b.type, .add a.realizer b.realizer⟩)
  | mul {scope l r p require a b} (left : Passes (.term scope l none a))
    (right : Passes (.term scope r none b))
    (numbers : a.type.isArithmetic = true ∧ b.type.isArithmetic = true) :
    Passes (.rule scope (.arith .mul l r p) require
      ⟨.mul a.type b.type, .mul a.realizer b.realizer⟩)
  | succ {scope f a q require t} (named : f.text = "succ")
    (argument : Passes (.term scope a none t)) (number : t.type.isArithmetic = true) :
    Passes (.rule scope (.call (.name f) a q) require ⟨.succ t.type, .succ t.realizer⟩)
  -- functions
  | lambda {scope x d r b p require declared domain expected required entry t}
    (declares : Asserts scope d declared)
    (plan : FunctionExpects x.text declared require domain expected)
    (enters : Scope.tag (if domain.isNat then .var x.text else domain) = .ok entry)
    (result : ResultExpects (scope.insert x.text entry) expected r required)
    (inside : Passes (.term (scope.insert x.text entry) b required t))
    (numbered : domain.isNat = true → ok (.numbered scope x.text)) :
    Passes (.rule scope (.lambda x d r b p) require
      ⟨.arrow x.text domain t.type, .lambda x.text t.realizer⟩)
  | applyAll {scope f a p require x c u v} (plain : isBuiltin f = false)
    (fn : Passes (.term scope f none u)) (arrow : u.type = .arrow x .nat c)
    (argument : Passes (.term scope a none v)) (number : v.type.isArithmetic = true)
    (substituted : ok (.substituted c x v.type)) :
    Passes (.rule scope (.call f a p) require ⟨c.rewrite x v.type, .apply u.realizer v.realizer⟩)
  | apply {scope f a p require x d c u v} (plain : isBuiltin f = false)
    (fn : Passes (.term scope f none u)) (arrow : u.type = .arrow x d c)
    (implies : d.isNat = false) (argument : Passes (.term scope a (some d) v)) :
    Passes (.rule scope (.call f a p) require ⟨c, .apply u.realizer v.realizer⟩)
  | applyAny {scope f a p require u} (plain : isBuiltin f = false)
    (fn : Passes (.term scope f none u)) (any : u.type = .any) :
    Passes (.rule scope (.call f a p) require ⟨.any, .fail .callOfAny⟩)
  -- equations
  | symm {scope x field q p require l r t} (named : field.text = "symm" ∨ field.text = "sym")
    (subject : Passes (.term scope x (flipped require) t)) (equation : t.type = .eq l r) :
    Passes (.rule scope (.emptyCall (.member x field q) p) require ⟨.eq r l, .witness .equality⟩)
  | trans {scope x field a q p require expected l r l' r' u v} (named : field.text = "trans")
    (first : Passes (.term scope x none u)) (equation : u.type = .eq l r)
    (expects : TransExpects require l r expected)
    (second : Passes (.term scope a expected v)) (equation' : v.type = .eq l' r')
    (meets : Fits r l') :
    Passes (.rule scope (.call (.member x field q) a p) require ⟨.eq l r', .witness .equality⟩)
  | transRung {scope x field a q p b c expected l r l' r' u v} (named : field.text = "trans")
    (first : Passes (.term scope x none u)) (equation : u.type = .eq l r)
    (expects : TransExpects (some (.eq b c)) l r expected)
    (second : Passes (.term scope a expected v)) (rung : v.type = .rung l' r')
    (meets : Fits (.eq r c) (.rung l' r')) (compared : ok (.compared (.eq r c) (.rung l' r')))
    (chained : ok (.chained b l)) :
    Passes (.rule scope (.call (.member x field q) a p) (some (.eq b c))
      ⟨.eq b c, .witness .equality⟩)
  | mapSucc {scope e fn equation require l r t} (call : MapCall e fn equation)
    (succ : isSucc fn = true) (subject : Passes (.term scope equation none t))
    (equated : t.type = .eq l r) (numbers : l.isArithmetic = true ∧ r.isArithmetic = true) :
    Passes (.rule scope e require ⟨.eq (.succ l) (.succ r), .witness .equality⟩)
  | map {scope e fn equation require x d c l r l' r' u t} (call : MapCall e fn equation)
    (succ : isSucc fn = false) (function : Passes (.term scope fn none u))
    (arrow : u.type = .arrow x d c) (numeric : c.isArithmetic = true)
    (subject : Passes (.term scope equation none t)) (equated : t.type = .eq l r)
    (left : Applies (.arrow x d c) l l') (right : Applies (.arrow x d c) r r') :
    Passes (.rule scope e require ⟨.eq l' r', .witness .equality⟩)
  | replaceAll {scope f b a q p require x r t u} (named : f.text = "replaceAll")
    (equation : Passes (.term scope a none t)) (equated : t.type = .eq (.var x) r)
    (proof : Passes (.term scope b none u)) (replaced : ok (.replaced r))
    (substituted : ok (.substituted u.type x r)) :
    Passes (.rule scope (.call (.call (.name f) b q) a p) require ⟨u.type.rewrite x r, u.realizer⟩)
  | ring {scope f a p require l r t} (named : f.text = "ring")
    (argument : Passes (.term scope a none t)) (equation : t.type = .eq l r) :
    Passes (.rule scope (.call (.name f) a p) require ⟨.rung l r, t.realizer⟩)
  | ringAny {scope f a p require t} (named : f.text = "ring")
    (argument : Passes (.term scope a none t)) (any : t.type = .any) :
    Passes (.rule scope (.call (.name f) a p) require ⟨.any, t.realizer⟩)
  | ringAlone {scope f p require} (named : f.text = "ring") :
    Passes (.rule scope (.emptyCall (.name f) p) require ringAlone)
  -- pairs and sides
  | pair {scope l r p require left right a b} (expects : PairExpects require left right)
    (first : Passes (.term scope l left a)) (second : Passes (.term scope r right b)) :
    Passes (.rule scope (.pair l r p) require ⟨.and a.type b.type, .pair a.realizer b.realizer⟩)
  | left {scope x field p require l r t} (named : field.text = "left")
    (subject : Passes (.term scope x none t)) (both : t.type = .and l r) :
    Passes (.rule scope (.member x field p) require ⟨l, .left t.realizer⟩)
  | right {scope x field p require l r t} (named : field.text = "right")
    (subject : Passes (.term scope x none t)) (both : t.type = .and l r) :
    Passes (.rule scope (.member x field p) require ⟨r, .right t.realizer⟩)
  | makeLeft {scope f a p l r t} (named : f.text = "makeLeft")
    (argument : Passes (.term scope a (some l) t)) :
    Passes (.rule scope (.call (.name f) a p) (some (.or l r)) ⟨.or l r, .injectLeft t.realizer⟩)
  | makeRight {scope f a p l r t} (named : f.text = "makeRight")
    (argument : Passes (.term scope a (some r) t)) :
    Passes (.rule scope (.call (.name f) a p) (some (.or l r)) ⟨.or l r, .injectRight t.realizer⟩)
  | neverElim {scope f a p required t} (named : f.text = "neverElim")
    (argument : Passes (.term scope a (some .never) t)) :
    Passes (.rule scope (.call (.name f) a p) (some required) ⟨required, .fail .neverElim⟩)
  | ascribe {scope x t p require asserted u} (stands : Stands scope t asserted)
    (subject : Passes (.term scope x (some asserted) u)) :
    Passes (.rule scope (.ascribe x t p) require ⟨asserted, u.realizer⟩)
  | record {scope x v y w p require statement n q} (value : Passes (.term scope v none n))
    (states : WitnessStates scope x.text y.text require statement (proofPart w).2)
    (proof : Passes (.term scope (proofPart w).1 (some (statement.rewrite x.text n.type)) q))
    (witnessed : ok (.witnessed n.type statement))
    (substituted : ok (.substituted statement x.text n.type)) :
    Passes (.rule scope (.record x v y w p) require
      ⟨.struct x.text y.text statement, .exist n.realizer q.realizer⟩)
  -- built-in functions at a type
  | makeLeftAt {scope f l r q p require a b} (named : f.text = "makeLeft")
    (left : Stands scope l a) (right : Stands scope r b) :
    Passes (.rule scope (.generic f (.binary .or l r q) p) require
      ⟨.arrow "_" a (.or a b), .primitive .injectLeft⟩)
  | makeRightAt {scope f l r q p require a b} (named : f.text = "makeRight")
    (left : Stands scope l a) (right : Stands scope r b) :
    Passes (.rule scope (.generic f (.binary .or l r q) p) require
      ⟨.arrow "_" b (.or a b), .primitive .injectRight⟩)
  | neverElimAt {scope f t p require a} (named : f.text = "neverElim") (stands : Stands scope t a) :
    Passes (.rule scope (.generic f t p) require ⟨.arrow "_" .never a, .fail .neverElimInstance⟩)
  | excludedMiddleAt {scope f t p require a} (named : f.text = "excludedMiddle")
    (stands : Stands scope t a) :
    Passes (.rule scope (.generic f t p) require ⟨.or a (.not a), .fail .excludedMiddle⟩)
  | replaceAt {scope f x p require param property} (named : f.text = "replace")
    (found : scope.find? x.text = some (.generic [⟨param, .number⟩] property))
    (left : ok (.substituted property param (.var (leibnizLeft property))))
    (right : ok (.substituted property param (.var (leibnizRight property)))) :
    Passes (.rule scope (.generic f (.name x) p) require
      ⟨leibniz param property, .primitive (.argument 4 3)⟩)
  -- induction and case analysis
  | loop {scope l require declared statement entry seen first bound base step}
    (start : Passes (.term scope l.counter.value (some .zero) first))
    (bounded : Passes (.term scope l.bound none bound))
    (declares : Asserts (scope.insert l.counter.name.text (.arithmetic (.var l.counter.name.text)))
      l.proof.assertion declared)
    (states : LoopStates l.counter.name.text declared require bound.type statement)
    (zero : Passes (.term scope l.proof.value
      (some (statement.rewrite l.counter.name.text .zero)) base))
    (enters : Scope.tag statement = .ok entry) (next : Passes (.block
      ((scope.insert l.counter.name.text (.arithmetic (.var l.counter.name.text))).insert
        l.proof.name.text entry)
      false l.body (some (statement.rewrite l.counter.name.text (.succ (.var l.counter.name.text))))
      seen step))
    (numbered : ok (.numbered scope l.counter.name.text)) (iterated : ok (.iterated bound.type))
    (atZero : ok (.substituted statement l.counter.name.text .zero))
    (atNext : ok (.substituted statement l.counter.name.text (.succ (.var l.counter.name.text))))
    (atBound : ok (.substituted statement l.counter.name.text bound.type)) :
    Passes (.rule scope (.loop l) require ⟨statement.rewrite l.counter.name.text bound.type,
        .loop bound.realizer base.realizer l.counter.name.text l.proof.name.text step.realizer⟩)
  | switch {scope s require t} (cases : Passes (.switch scope s require t)) :
    Passes (.rule scope (.switch s) require t)
  | cases {scope s require l r first second leftEntry rightEntry leftSeen rightSeen t a b}
    (subject : Passes (.term scope s.subject none t)) (either : t.type = .or l r)
    (leftCase : s.cases.find? (·.tag.text == "left") = some first)
    (rightCase : s.cases.find? (·.tag.text == "right") = some second)
    (leftEnters : Scope.tag l = .ok leftEntry)
    (left : Passes (.block (scope.insert first.binding.text leftEntry) false first.body
      require leftSeen a))
    (rightEnters : Scope.tag r = .ok rightEntry)
    (right : Passes (.block (scope.insert second.binding.text rightEntry) false second.body
      (some (require.getD a.type)) rightSeen b)) :
    Passes (.switch scope s require ⟨a.type, .switch t.realizer first.binding.text a.realizer
      second.binding.text b.realizer⟩)
  | casesAny {scope s require t} (subject : Passes (.term scope s.subject none t))
    (any : t.type = .any) :
    Passes (.switch scope s require ⟨.any, .fail .switchOnAny⟩)
  -- statements
  | fallOff {before require} : Passes (.statements true before [] require [] ⟨.any, .number 1337⟩)
  | leave {isProgram before j q v p rest require t}
    (value : Passes (.term before.scope v require t)) :
    Passes (.statements isProgram before (.leave j q v p :: rest) require []
      ⟨t.type, t.realizer.after before.bindings⟩)
  | leaveBy {isProgram before s rest require t}
    (cases : Passes (.switch before.scope s require t)) :
    Passes (.statements isProgram before (.switch s :: rest) require []
      ⟨t.type, t.realizer.after before.bindings⟩)
  | skip {isProgram before p rest require seen t}
    (remaining : Passes (.statements isProgram before rest require seen t)) :
    Passes (.statements isProgram before (.empty p :: rest) require seen t)
  | next {isProgram before s numbers after rest require seen t}
    (statement : Passes (.statement isProgram before s numbers after))
    (reached : ok (.reached after.scope))
    (remaining : Passes (.statements isProgram after rest require seen t))
    (concluded : ok (.concluded isProgram numbers t.type)) :
    Passes (.statements isProgram before (s :: rest) require (after.scope :: seen) t)
  | define {isProgram before d asserted entry t} (asserts : Asserts before.scope d.assertion asserted)
    (value : Passes (.term before.scope d.value asserted t))
    (enters : Scope.tag t.type = .ok entry) :
    Passes (.statement isProgram before (.define d) [] ⟨before.scope.insert d.name.text entry,
        before.bindings ++ [.define d.name.text t.realizer]⟩)
  | unpack {isProgram before first second v p number property statement entry t}
    (value : Passes (.term before.scope v none t))
    (struct : t.type = .struct number property statement)
    (fields : first.field.text = number ∧ second.field.text = property)
    (enters : Scope.tag (statement.rewrite number (.var first.target.text)) = .ok entry)
    (numbered : ok (.numbered before.scope first.target.text))
    (unpacked : ok (.unpacked t.type first.target.text))
    (substituted : ok (.substituted statement number (.var first.target.text))) :
    Passes (.statement isProgram before (.destructure first second v p) [first.target.text]
      ⟨(before.scope.insert first.target.text (.arithmetic (.var first.target.text))).insert
          second.target.text entry,
        before.bindings ++ [.unpack first.target.text second.target.text t.realizer]⟩)
  | unpackReversed {isProgram before first second v p number property statement entry t}
    (value : Passes (.term before.scope v none t))
    (struct : t.type = .struct number property statement)
    (fields : first.field.text = property ∧ second.field.text = number)
    (enters : Scope.tag statement = .ok entry)
    (numbered : ok (.numbered before.scope second.target.text))
    (unpacked : ok (.unpacked t.type second.target.text))
    (reversed : ok (.reversed number second.target.text first.target.text statement)) :
    Passes (.statement isProgram before (.destructure first second v p) [second.target.text]
      ⟨(before.scope.insert first.target.text entry).insert second.target.text
          (.arithmetic (.var second.target.text)),
        before.bindings ++ [.unpack second.target.text first.target.text t.realizer]⟩)
  | typedef {isProgram before x t p type} (stands : Stands before.scope t type) :
    Passes (.statement isProgram before (.typedef x t p) []
      { before with scope := before.scope.insert x.text (.typedef type) })
  | generic {isProgram before x ps t p params inner body}
    (opens : genericParams before.scope ps = .ok (params, inner)) (stands : Stands inner t body) :
    Passes (.statement isProgram before (.generic x ps t p) []
      { before with scope := before.scope.insert x.text (.generic params body) })
  | log {before args p} (arguments : Passes (.logs before.scope args)) :
    Passes (.statement true before (.log args p) [] before)
  | misplacedLog {before args p} : Passes (.statement false before (.log args p) [] before)
  | logged {scope} : Passes (.logs scope [])
  | logging {scope e rest t} (value : Passes (.term scope e none t))
    (remaining : Passes (.logs scope rest)) :
    Passes (.logs scope (e :: rest))

/-- By whichever rule there is such a finding, it has a property if the premises have it. -/
def Conveys (cfg : Settings) (ok : Event → Prop) (P : Finding → Prop) (j : Finding) : Prop :=
  ∀ h : Passes cfg ok j, h.below (motive := fun j _ => P j) → P j

/-- Whether there are few rules for a term. -/
def isSimple : Expr → Bool
  | .lambda .. | .call .. | .generic .. | .loop _ => false
  | _ => true

theorem Passes.conveyed {cfg : Settings} {ok : Event → Prop} {P : Finding → Prop}
    (step : ∀ j, Conveys cfg ok P j) {j : Finding} (h : Passes cfg ok j) : P j :=
  h.brecOn fun j h below => step j h below

end Peano.Judgement
