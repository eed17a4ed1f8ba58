import Peano.Proofs.Checking.Clean
import Peano.Proofs.Resolve
namespace Peano.Judgement
open Syntax (Name Expr Loop Block Switch Case Statement TypeExpr Rename TypeParam Place)

variable {strict : Bool} {cfg : Settings} {scope : Scope} {require : Option Formula} {p q : Place}

/-- Anything may come up, but no use of `sorry` in a strict check. -/
def Allowed (strict : Bool) (ev : Event) : Prop := strict = true → ev ≠ .sorried

theorem allowed {ev : Event} (h : ev ≠ .sorried) : Allowed strict ev := fun _ => h

abbrev Passed (strict : Bool) (cfg : Settings) (j : Finding) : Prop := Passes cfg (Allowed strict) j

abbrev Passing (strict : Bool) (cfg : Settings) (scope : Scope) (e : Expr) (m : Option Formula → Noting Typed) : Prop :=
  ∀ require, Yields strict (m require) fun t => Passed strict cfg (.term scope e require t)

/-- The same for a term of which nothing is required. -/
abbrev Inferring (strict : Bool) (cfg : Settings) (scope : Scope) (e : Expr) (m : Noting Typed) : Prop :=
  Yields strict m fun t => Passed strict cfg (.term scope e none t)

/-- The same for a block inside the program, in every scope. -/
abbrev Bodied (strict : Bool) (cfg : Settings) (b : Block) (m : Scope → Option Formula → Noting Typed) : Prop :=
  ∀ inner require, Yields strict (m inner require) fun t =>
    ∃ seen, Passed strict cfg (.block inner false b require seen t)

/-- Whatever the rule of the term comes to passes. -/
abbrev Ruling (strict : Bool) (cfg : Settings) (scope : Scope) (require : Option Formula) (e : Expr)
    (m : Checking Typed) : Prop :=
  Checking.Yields strict m fun t => Passed strict cfg (.rule scope e require t)

section Steps

variable {α : Type} {e : Error} {k : Unit → Checking α} {Q : α → Prop}

theorem same_yields (a b : Formula) : Yields strict (same a b) fun r => Formula.equal a b = .ok r :=
  .compared fun _ h => h

theorem reports_yield (reports : List Resolve.Report) :
    Yields strict (reports.forM fun r => report r.place (.type r.error)) fun _ => reports = [] := by
  induction reports with
  | nil => exact .pure rfl
  | cons r rest ih =>
    exact .bind .report fun _ => ih.mono fun _ _ no => no.elim

theorem resolveType_yields (scope : Scope) (t : TypeExpr) :
    Yields strict (resolveType scope t) (Stands scope t) := by
  unfold resolveType Stands
  generalize Resolve.resolve scope t = resolved
  obtain ⟨f, reports⟩ := resolved
  refine .bind (reports_yield reports) fun _ => .pure fun none => ?_
  rw [none]

theorem resolveOption_yields (scope : Scope) (t : Option TypeExpr) :
    Yields strict (resolveType? scope t) (Asserts scope t) := by
  cases t with
  | none => exact .pure rfl
  | some t => exact .map ((resolveType_yields scope t).mono fun f h => ⟨f, h, rfl⟩)

theorem tagged_yields (t : Formula) : Checking.Yields strict (tagged t) fun e => Scope.tag t = .ok e := by
  unfold tagged
  cases Scope.tag t with
  | ok e => exact .pure rfl
  | error why => exact .throw

theorem applied_yields (fn arg : Formula) : Checking.Yields strict (applied fn arg) (Applies fn arg) := by
  refine .premise (.compared fun _ h => h) fun result => ?_
  cases result with
  | ok t => exact .pure id
  | error why => exact .throw

theorem throw_bind {β : Type} {f : β → Checking α} : Checking.Yields strict (throw e >>= f) Q := by
  intro n b n' run clean
  cases run
  exact ⟨clean, nofun⟩

theorem guard_yields {c : Prop} [Decidable c] (hk : Checking.Yields strict (k ()) fun t => c → Q t) :
    Checking.Yields strict (if c then k () else throw e >>= k) Q := by
  split
  · exact hk.mono fun _ h => h ‹_›
  · exact throw_bind

theorem same_guard {a b : Formula} (hk : Checking.Yields strict (k ()) fun t => Fits a b → Q t) :
    Checking.Yields strict (do
      let r ← liftM (same a b)
      if r then k () else throw e >>= k) Q := by
  refine .premise (same_yields a b) fun r => guard_yields ?_
  exact hk.mono fun t h yes eq => h (eq.trans (congrArg _ yes))

theorem note_then {r : Record} (hk : Checking.Yields strict (k ()) Q) :
    Checking.Yields strict (liftM (note r) >>= k) Q :=
  .premise .note fun _ => hk.mono fun _ h _ => h

end Steps

section Terms

theorem meets_yields (t : Formula) (require : Option Formula) :
    Yields strict (meets t require) fun _ => True := by
  cases require with
  | none => exact .pure trivial
  | some r => exact (same_yields t r).mono fun _ _ => trivial

theorem nameRule_passes (x : Name) :
    Ruling strict cfg scope require (.name x) (nameRule scope require x) := by
  unfold nameRule
  split
  case isTrue h =>
    have named : x.text = "sorry" := by simpa using h
    refine note_then (.bind (P := fun _ => strict = false) ?_ fun _ =>
      .pure fun lax => .sorried named (by simp [Allowed, lax]))
    intro n a n' run clean
    cases run
    -- a strict check that has used `sorry` is not clean
    have lax : strict = false := by
      cases strict with
      | false => rfl
      | true => cases clean.2 rfl
    exact ⟨⟨clean.1, fun h => by cases h.symm.trans lax⟩, fun _ _ => ⟨rfl, lax⟩⟩
  case isFalse h =>
    have named : x.text ≠ "sorry" := by simpa using h
    split
    · exact .throw
    next t found =>
      exact note_then (.pure (.name named (.inl found)))
    next t found =>
      exact note_then (.pure (.name named (.inr found)))
    · exact .throw

variable {l r : Expr} {left right : Noting Typed}

theorem arithRule_passes (op : Syntax.ArithOp) (hl : Inferring strict cfg scope l left)
    (hr : Inferring strict cfg scope r right) :
    Ruling strict cfg scope require (.arith op l r p) (arithRule op left right) := by
  refine .premise hl fun a => ?_
  refine .premise hr fun b => guard_yields (guard_yields ?_)
  cases op with
  | add => exact .pure fun hb ha second first => .add first second ⟨ha, hb⟩
  | mul => exact .pure fun hb ha second first => .mul first second ⟨ha, hb⟩

theorem pairRule_passes {left right : Option Formula → Noting Typed} (hl : Passing strict cfg scope l left)
    (hr : Passing strict cfg scope r right) :
    Ruling strict cfg scope require (.pair l r p) (pairRule require left right) := by
  unfold pairRule
  split
  case h_3 => exact throw_bind
  all_goals
    refine .premise (hl _) fun a => ?_
    refine .premise (hr _) fun b => ?_
    exact .pure fun second first => .pair ⟨rfl, rfl⟩ first second

/-- One side of a pair, if it is what is required. -/
def offered (require : Option Formula) (side : Typed) : Checking Typed :=
  match require with
  | none => pure side
  | some required => do
    if ← same required side.type then return side
    throw (.memberMismatch required side.type)

theorem memberRule_passes {x : Expr} {field : Name} {subject : Noting Typed}
    (hx : Inferring strict cfg scope x subject) :
    Ruling strict cfg scope require (.member x field p) (memberRule require field.text subject) := by
  refine .premise hx fun t => ?_
  split
  next a b both =>
    have side (u : Typed) (h : Passed strict cfg (.term scope x none t) →
        Passed strict cfg (.rule scope (.member x field p) require u)) :
        Checking.Yields strict (offered require u) fun s =>
          Passed strict cfg (.term scope x none t) →
            Passed strict cfg (.rule scope (.member x field p) require s) := by
      cases require with
      | none => exact .pure h
      | some required =>
        refine .premise (same_yields _ _) fun r => ?_
        cases r with
        | true => exact .pure fun _ => h
        | false => exact .throw
    by_cases isLeft : field.text = "left"
    · rw [isLeft]
      exact side ⟨a, .left t.realizer⟩ fun h => .left isLeft h both
    by_cases isRight : field.text = "right"
    · rw [isRight]
      exact side ⟨b, .right t.realizer⟩ fun h => .right isRight h both
    · simp only
      exact throw_bind
  · exact .throw

theorem ascriptionRule_passes {x : Expr} {t : TypeExpr} {subject : Option Formula → Noting Typed}
    (hx : Passing strict cfg scope x subject) :
    Ruling strict cfg scope require (.ascribe x t p) (ascriptionRule scope require t subject) := by
  refine .premise (resolveType_yields scope t) fun asserted => ?_
  cases require with
  | none =>
    refine .premise (hx (some asserted)) fun u => same_guard ?_
    exact .pure fun _ inside stands => .ascribe stands inside
  | some required =>
    refine same_guard (.premise (hx (some asserted)) fun u => same_guard ?_)
    exact .pure fun _ inside _ stands => .ascribe stands inside

/-- What a witness states once it is clear what is required of it. -/
def stated (scope : Scope) (number : String) (ascribed : Option TypeExpr) (required : Option Formula) :
    Checking Formula :=
  match ascribed with
  | some t => do
    let asserted ← resolveType (scope.insert number (.arithmetic (.var number))) t
    unless ← meets asserted required do throw .ascriptionInStruct
    return asserted
  | none =>
    match required with
    | some t => return t
    | none => throw .structUnconstrained

theorem witnessStatement_yields (number property : String) (want : Option (String × String × Formula))
    (ascribed : Option TypeExpr) :
    Checking.Yields strict (witnessStatement scope number property want ascribed) fun statement =>
      WitnessStates scope number property (want.map fun (n, p, t) => .struct n p t) statement ascribed := by
  unfold witnessStatement
  have rest (require required : Option Formula)
      (known : ∀ t, required = some t → require = some (.struct number property t)) :
      Checking.Yields strict (stated scope number ascribed required) fun statement =>
        WitnessStates scope number property require statement ascribed := by
    cases ascribed with
    | some t =>
      refine .premise (resolveType_yields _ t) fun g => ?_
      refine .premise (meets_yields g required) fun r => ?_
      exact guard_yields (.pure fun _ _ stands => stands)
    | none =>
      cases required with
      | some t => exact .pure (known t rfl)
      | none => exact .throw
  cases want with
  | none => exact rest none none (by rintro t ⟨⟩)
  | some want =>
    obtain ⟨n, p, t⟩ := want
    by_cases h : (n == number && p == property)
    · have named : n = number ∧ p = property := by simpa using h
      obtain ⟨rfl, rfl⟩ := named
      simp only [h]
      exact rest _ (some t) (by rintro u ⟨⟩; rfl)
    · simp only [h]
      exact throw_bind

theorem witnessRule_passes {x y : Name} {v w : Expr}
    {value proof : Option Formula → Noting Typed} (hv : Passing strict cfg scope v value)
    (hw : Passing strict cfg scope (proofPart w).1 proof) :
    Ruling strict cfg scope require (.record x v y w p)
      (witnessRule scope require x.text y.text (proofPart w).2 value proof) := by
  unfold witnessRule
  split
  case h_3 => exact throw_bind
  all_goals
    refine .premise (hv none) fun n => ?_
    refine .bind (witnessStatement_yields _ _ _ _) fun statement => ?_
    refine .premise (hw _) fun q => same_guard ?_
    exact .pure fun _ inside states value =>
      .record value states inside (allowed nofun) (allowed nofun)

end Terms

section Binders

variable {body : Scope → Option Formula → Noting Typed} {check : Block → Scope → Option Formula → Noting Typed}

theorem functionRequirement_yields (x : String) (declared require : Option Formula) :
    Checking.Yields strict (functionRequirement x declared require) fun r =>
      ∀ domain, r.1 = some domain → FunctionExpects x declared require domain r.2 := by
  unfold functionRequirement FunctionExpects
  split
  · exact .pure fun domain h => ⟨h, rfl⟩
  · cases declared with
    | none => exact .pure fun domain h => ⟨(Option.some.inj h).symm, rfl⟩
    | some t => exact same_guard (.pure fun _ domain h => ⟨(Option.some.inj h).symm, rfl⟩)
  · exact .throw

theorem resultRequirement_yields (scope : Scope) (expected : Option Formula) (t : Option TypeExpr) :
    Checking.Yields strict (resultRequirement scope expected t) (ResultExpects scope expected t) := by
  cases t with
  | none => exact .pure rfl
  | some t =>
    refine .premise (resolveType_yields scope t) fun g => ?_
    cases expected with
    | none => exact .pure fun h => ⟨g, h, rfl⟩
    | some expected => exact same_guard (.pure fun _ h => ⟨g, h, rfl⟩)

theorem lambdaRule_passes {x : Name} {d r : Option TypeExpr}
    {b : Expr}
    (hbody : ∀ inner, Passing strict cfg inner b (body inner)) :
    Ruling strict cfg scope require (.lambda x d r b p) (lambdaRule scope require x d r q body) := by
  refine .premise (resolveOption_yields scope d) fun declared => ?_
  refine .bind (functionRequirement_yields x.text declared require) fun plan => ?_
  obtain ⟨domain, expected⟩ := plan
  cases domain with
  | none => exact .throw
  | some domain =>
    refine .bind (tagged_yields _) fun entry => ?_
    refine .bind (resultRequirement_yields _ expected r) fun required => ?_
    refine note_then (note_then ?_)
    refine .premise (hbody _ required) fun t => ?_
    cases required with
    | none =>
      exact .pure fun inside result enters plan declares =>
        .lambda declares (plan domain rfl) enters result inside fun _ => allowed nofun
    | some required =>
      exact same_guard (.pure fun _ inside result enters plan declares =>
        .lambda declares (plan domain rfl) enters result inside fun _ => allowed nofun)

theorem LoopStates.of_declared {i : String} {bound t : Formula}
    (plain : ∀ x required, bound = .var x → require = some required → False) :
    LoopStates i (some t) require bound t := by
  unfold LoopStates
  split
  · exact (plain _ _ rfl rfl).elim
  · rfl

theorem loopStatement_yields (i p : String) (declared require : Option Formula) (bound : Formula) :
    Checking.Yields strict (loopStatement i p declared require bound)
      (LoopStates i declared require bound) := by
  unfold loopStatement
  split
  · cases declared with
    | none => exact .pure rfl
    | some t => exact same_guard (.pure fun _ => rfl)
  next plain =>
    cases declared with
    | none => exact .throw
    | some t => exact .pure (LoopStates.of_declared plain)

theorem loopRule_passes (l : Loop) {compared stepped : Name}
    {start bound base : Option Formula → Noting Typed}
    (hstart : Passing strict cfg scope l.counter.value start)
    (hbound : Passing strict cfg scope l.bound bound)
    (hbase : Passing strict cfg scope l.proof.value base)
    (hbody : Bodied strict cfg l.body body) :
    Ruling strict cfg scope require (.loop l) (loopRule scope require
      ⟨l.counter.name, l.proof.name, compared, stepped, q⟩ l.counter.assertion l.proof.assertion
      start bound base body) := by
  refine guard_yields ?_
  refine .premise (hstart _) fun first => same_guard ?_
  refine .premise (hbound none) fun bound => ?_
  refine .premise (resolveOption_yields _ _) fun declared => ?_
  refine .bind (loopStatement_yields _ _ _ _ _) fun statement => ?_
  refine .premise (hbase _) fun base => same_guard ?_
  refine guard_yields (guard_yields ?_)
  refine .bind (tagged_yields _) fun entry => ?_
  refine note_then (note_then (note_then (note_then (note_then (note_then ?_)))))
  refine .premise (hbody _ _) fun step => same_guard ?_
  refine .pure fun _ next enters _ _ _ zero states declares bounded _ start _ => ?_
  obtain ⟨seen, next⟩ := next
  exact .loop start bounded declares states zero enters next (allowed nofun) (allowed nofun)
    (allowed nofun) (allowed nofun) (allowed nofun)

def armOf (check : Block → Scope → Option Formula → Noting Typed) (c : Case) : Arm :=
  ⟨c.tag.text, c.binding, c.body.place, check c.body⟩

theorem armRule_yields {c : Case} {side : Formula} (hbody : Bodied strict cfg c.body (check c.body)) :
    Checking.Yields strict (armRule scope (armOf check c) side require) fun t =>
      ∃ entry seen, Scope.tag side = .ok entry ∧
        Passed strict cfg (.block (scope.insert c.binding.text entry) false c.body require seen t) := by
  refine .bind (tagged_yields side) fun entry => note_then (note_then ?_)
  refine .lift ((hbody _ _).mono fun t inside enters => ?_)
  obtain ⟨seen, inside⟩ := inside
  exact ⟨entry, seen, enters, inside⟩

theorem find_arm (check : Block → Scope → Option Formula → Noting Typed) (tag : String)
    (cases : List Case) : (cases.map (armOf check)).find? (·.tag == tag) =
      (cases.find? (·.tag.text == tag)).map (armOf check) := by
  rw [List.find?_map]
  rfl

theorem switchRule_passes (s : Switch) {subject : Noting Typed}
    (hsubject : Inferring strict cfg scope s.subject subject)
    (hbody : ∀ c ∈ s.cases, Bodied strict cfg c.body (check c.body)) :
    Checking.Yields strict (switchRule scope require subject (s.cases.map (armOf check))) fun t =>
      Passed strict cfg (.switch scope s require t) := by
  refine .premise hsubject fun t => ?_
  split
  next any =>
    exact .pure fun subject => .casesAny subject any
  next l r either =>
    refine guard_yields ?_
    rw [find_arm, find_arm]
    cases leftCase : s.cases.find? (·.tag.text == "left") with
    | none => exact .throw
    | some first =>
      cases rightCase : s.cases.find? (·.tag.text == "right") with
      | none => exact .throw
      | some second =>
        have hfirst := hbody first (List.mem_of_find?_eq_some leftCase)
        have hsecond := hbody second (List.mem_of_find?_eq_some rightCase)
        refine .bind (armRule_yields hfirst) fun a => ?_
        refine .bind (armRule_yields hsecond) fun b => same_guard ?_
        refine .premise (meets_yields _ _) fun _ => guard_yields ?_
        refine .pure fun _ _ _ right left _ subject => ?_
        obtain ⟨_, _, leftEnters, left⟩ := left
        obtain ⟨_, _, rightEnters, right⟩ := right
        exact .cases subject either leftCase rightCase leftEnters left rightEnters right
  · exact .throw

end Binders

section Calls

variable {x a : Expr} {f field : Name}
variable {subject : Noting Typed} {argument : Option Formula → Noting Typed}

theorem symmRule_passes {subject : Option Formula → Noting Typed}
    (named : field.text = "symm" ∨ field.text = "sym") (hx : Passing strict cfg scope x subject) :
    Ruling strict cfg scope require (.emptyCall (.member x field q) p) (symmRule require subject) := by
  refine .premise (hx (flipped require)) fun t => ?_
  split
  next l r equation =>
    exact .pure fun subject => .symm named subject equation
  · exact .throw

theorem TransExpects.of_other {l r : Formula} (other : ∀ l' r', require = some (.eq l' r') → False) :
    TransExpects require l r none := by
  unfold TransExpects
  split
  · exact (other _ _ rfl).elim
  · rfl

theorem transRequirement_yields (require : Option Formula) (l r : Formula) :
    Yields strict (transRequirement require l r) (TransExpects require l r) := by
  unfold transRequirement
  split
  next l' r' =>
    refine .bind (same_yields l' l) fun fits => ?_
    cases fits with
    | true => exact .pure fun h => .inl ⟨h, rfl⟩
    | false => exact .pure fun h => .inr ⟨h, rfl⟩
  next other =>
    exact .pure (TransExpects.of_other other)

/-- The ways to chain two equations. The first one satisfies `P`, and the second one, for what is expected
of it, `Q`. -/
inductive Chained (require : Option Formula) (P : Typed → Prop) (Q : Option Formula → Typed → Prop) :
    Typed → Prop
  | equation {u v expected l r l' r'} (first : P u) (equation : u.type = .eq l r)
    (expects : TransExpects require l r expected) (second : Q expected v) (equation' : v.type = .eq l' r')
    (meets : Fits r l') : Chained require P Q ⟨.eq l r', .witness .equality⟩
  | rung {u v expected l r l' r' b c} (first : P u) (equation : u.type = .eq l r)
    (expects : TransExpects require l r expected) (second : Q expected v) (rung : v.type = .rung l' r')
    (required : require = some (.eq b c)) (meets : Fits (.eq r c) (.rung l' r')) :
    Chained require P Q ⟨.eq b c, .witness .equality⟩

theorem transRule_yields {P : Typed → Prop} {Q : Option Formula → Typed → Prop}
    (hx : Yields strict subject P) (ha : ∀ expected, Yields strict (argument expected) (Q expected)) :
    Checking.Yields strict (transRule require subject (some argument)) (Chained require P Q) := by
  refine .premise hx fun u => ?_
  split
  next l r equation =>
    refine .premise (transRequirement_yields require l r)
      fun expected => ?_
    refine .premise (ha expected) fun v => ?_
    split
    next l' r' equation' =>
      exact same_guard (.pure fun meets second expects first =>
        .equation first equation expects second equation' meets)
    next l' r' rung =>
      cases require with
      | none => exact .throw
      | some required =>
        split
        · contradiction
        next b c h =>
          cases h
          exact same_guard (.pure fun meets second expects first =>
            .rung first equation expects second rung rfl meets)
        · exact .throw
    · exact .throw
  · exact .throw

theorem transRule_passes (named : field.text = "trans")
    (hx : Inferring strict cfg scope x subject) (ha : Passing strict cfg scope a argument) :
    Ruling strict cfg scope require (.call (.member x field q) a p)
      (transRule require subject (some argument)) := by
  refine (transRule_yields hx ha).mono fun t chained => ?_
  cases chained with
  | equation first equation expects second equation' meets =>
    exact .trans named first equation expects second equation' meets
  | rung first equation expects second rung required meets =>
    cases required
    exact .transRung named first equation expects second rung meets (allowed nofun) (allowed nofun)

theorem applies_succ {l t : Formula} (h : Applies succArrow l t) : l.isArithmetic ∧ t = .succ l := by
  unfold Applies Formula.apply succArrow at h
  split at h
  next x c arrow =>
    cases arrow
    split at h
    · cases h
      refine ⟨‹_›, ?_⟩
      rw [Formula.rewrite, Formula.rewrite, if_pos rfl]
    · cases h
  next d c none arrow =>
    cases arrow
    exact (none rfl).elim
  next none =>
    exact (none _ _ _ rfl).elim

theorem mapRule_passes {e fn equation : Expr} {function : Noting Typed} (call : MapCall e fn equation)
    (hfn : Inferring strict cfg scope fn function) (hx : Inferring strict cfg scope equation subject) :
    Ruling strict cfg scope require e (mapRule (if isSucc fn then none else some function) subject) := by
  have typed : Checking.Yields strict (mapFunction (if isSucc fn then none else some function)) fun g =>
      isSucc fn = true ∧ g = succArrow ∨ isSucc fn = false ∧ ∃ u x d c, c.isArithmetic ∧
        Passed strict cfg (.term scope fn none u) ∧ u.type = .arrow x d c ∧ g = .arrow x d c := by
    cases isSucc fn with
    | true => exact .pure (.inl ⟨rfl, rfl⟩)
    | false =>
      refine .premise hfn fun u => ?_
      split
      next x d c arrow =>
        split
        · exact .pure fun h => .inr ⟨rfl, u, x, d, c, ‹_›, h, arrow, rfl⟩
        · exact .throw
      · exact .throw
  refine .bind typed fun g => ?_
  refine .premise hx fun t => ?_
  split
  next l r equated =>
    refine .bind (applied_yields g l) fun l' => ?_
    refine .bind (applied_yields g r) fun r' => .pure ?_
    rintro right left subject (⟨succ, rfl⟩ | ⟨succ, u, x, d, c, numeric, function, arrow, rfl⟩)
    · obtain ⟨hl, rfl⟩ := applies_succ left
      obtain ⟨hr, rfl⟩ := applies_succ right
      exact .mapSucc call succ subject equated ⟨hl, hr⟩
    · exact .map call succ function arrow numeric subject equated left right
  · exact .throw

theorem replaceAllRule_passes {b : Expr}
    {proof equation : Noting Typed} (named : f.text = "replaceAll")
    (hb : Inferring strict cfg scope b proof) (ha : Inferring strict cfg scope a equation) :
    Ruling strict cfg scope require (.call (.call (.name f) b q) a p) (replaceAllRule proof equation) := by
  refine .premise ha fun t => ?_
  split
  next x r equated =>
    refine .premise hb fun u => ?_
    exact .pure fun proof equation =>
      .replaceAll named equation equated proof (allowed nofun) (allowed nofun)
  · exact .throw
  · exact .throw

theorem succRule_passes {argument : Noting Typed} (named : f.text = "succ")
    (ha : Inferring strict cfg scope a argument) :
    Ruling strict cfg scope require (.call (.name f) a p) (succRule argument) := by
  refine .premise ha fun t => guard_yields ?_
  exact .pure fun number argument => .succ named argument number

theorem ringRule_passes {argument : Noting Typed} (named : f.text = "ring")
    (ha : Inferring strict cfg scope a argument) :
    Ruling strict cfg scope require (.call (.name f) a p) (ringRule argument) := by
  refine .premise ha fun t => ?_
  split
  next any =>
    exact .pure fun argument => .ringAny named argument any
  next l r equation =>
    exact .pure fun argument => .ring named argument equation
  · exact .throw

theorem neverElimRule_passes (named : f.text = "neverElim") (ha : Passing strict cfg scope a argument) :
    Ruling strict cfg scope require (.call (.name f) a p) (neverElimRule require argument) := by
  cases require with
  | none => exact .throw
  | some required =>
    refine .premise (ha _) fun t => same_guard ?_
    exact .pure fun _ argument => .neverElim named argument

theorem injectionRule_passes (named : f.text = "makeLeft" ∨ f.text = "makeRight")
    (ha : Passing strict cfg scope a argument) :
    Ruling strict cfg scope require (.call (.name f) a p) (injectionRule f.text require argument) := by
  unfold injectionRule
  split
  · exact .throw
  · refine .premise (ha _) fun t => same_guard ?_
    rcases named with named | named
    · rw [named]
      exact .pure fun _ argument => .makeLeft named argument
    · rw [named]
      exact .pure fun _ argument => .makeRight named argument
  · exact .throw

theorem applicationRule_passes {fn : Noting Typed}
    (plain : isBuiltin x = false) (hx : Inferring strict cfg scope x fn)
    (ha : Passing strict cfg scope a argument) :
    Ruling strict cfg scope require (.call x a p) (applicationRule fn argument) := by
  refine .premise hx fun u => ?_
  split
  next any =>
    exact .pure fun fn => .applyAny plain fn any
  next y d c arrow =>
    refine .premise (ha _) fun v => ?_
    refine .bind (applied_yields _ _) fun t => .pure ?_
    intro applies argument fn
    unfold Applies Formula.apply at applies
    split at applies
    next y' c' h =>
      cases h
      split at applies
      · cases applies
        exact .applyAll plain fn arrow argument ‹_› (allowed nofun)
      · cases applies
    next y' d' c' notNat h =>
      cases h
      have implies : d.isNat = false := by
        cases d <;> first | rfl | exact (notNat rfl).elim
      rw [implies] at argument
      split at applies
      · cases applies
        exact .apply plain fn arrow implies argument
      · cases applies
      · cases applies
    next h =>
      exact (h _ _ _ rfl).elim
  · exact .throw

end Calls

section Instances

variable {f : Name}

theorem stands_or {l r : TypeExpr} {whole : Formula}
    (h : Stands scope (.binary .or l r q) whole) :
    ∃ a b, Stands scope l a ∧ Stands scope r b ∧ whole = .or a b := by
  obtain ⟨a, b, left, right, result⟩ := stands_binary h
  cases result
  exact ⟨a, b, left, right, rfl⟩

theorem injectionInstance_passes {t : TypeExpr} (isRight : Bool)
    (named : f.text = if isRight then "makeRight" else "makeLeft") :
    Ruling strict cfg scope require (.generic f t p) (injectionInstance scope isRight f.text t) := by
  unfold injectionInstance
  split
  · refine .premise (resolveType_yields _ _) fun side => ?_
    refine .premise (resolveType_yields _ _) fun whole => ?_
    refine .pure fun stands sideStands => ?_
    obtain ⟨a, b, left, right, rfl⟩ := stands_or stands
    cases isRight with
    | true =>
      obtain rfl : side = b := congrArg Prod.fst (sideStands.symm.trans right)
      exact .makeRightAt named left right
    | false =>
      obtain rfl : side = a := congrArg Prod.fst (sideStands.symm.trans left)
      exact .makeLeftAt named left right
  · exact .throw

theorem replaceInstance_passes {t : TypeExpr}
    (named : f.text = "replace") :
    Ruling strict cfg scope require (.generic f t p) (replaceInstance scope t) := by
  unfold replaceInstance
  split
  · split
    · exact .throw
    next param body found =>
      exact .pure (.replaceAt named found (allowed nofun) (allowed nofun))
    all_goals exact .throw
  · exact .throw

theorem genericRule_passes (t : TypeExpr) :
    Ruling strict cfg scope require (.generic f t p) (genericRule scope f.text t) := by
  unfold genericRule
  split
  next named =>
    exact injectionInstance_passes false named
  next named =>
    exact injectionInstance_passes true named
  next named =>
    refine .premise (resolveType_yields _ _) fun a => ?_
    exact .pure fun stands => .neverElimAt named stands
  · exact replaceInstance_passes ‹_›
  next named =>
    refine .premise (resolveType_yields _ _) fun a => ?_
    exact .pure fun stands => .excludedMiddleAt named stands
  · exact .throw

end Instances

end Peano.Judgement
