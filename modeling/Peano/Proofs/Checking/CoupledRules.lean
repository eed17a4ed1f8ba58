import Peano.Proofs.Checking.Coupling
import Peano.Proofs.Checking.Elaboration
namespace Peano
open List

namespace Resolve
open Syntax (TypeExpr Place)

def Report.bare (r : Report) : Report := ⟨none, r.error⟩

/-- What a resolution comes to, with reports that have no places. -/
def bareReports {α : Type} (r : α × List Report) : α × List Report := (r.1, r.2.map Report.bare)

theorem settle_bare (place : Place) (r : Except Error Formula × List Report) :
    settle none (bareReports r) = bareReports (settle place r) := by
  obtain ⟨outcome, reports⟩ := r
  cases outcome with
  | ok f => rfl
  | error e => simp [bareReports, settle, Report.bare]

theorem settled_bare {scope : Scope} {t : TypeExpr}
    (h : resolveNode scope t.bare = bareReports (resolveNode scope t)) :
    settle t.bare.place (resolveNode scope t.bare) = bareReports (settle t.place (resolveNode scope t)) := by
  rw [TypeExpr.place_bare, h, settle_bare t.place]

mutual

theorem resolveNode_bare (scope : Scope) : (t : TypeExpr) →
    resolveNode scope t.bare = bareReports (resolveNode scope t)
  | .name n => rfl
  | .numeral digits p => rfl
  | .arrow x d c p => by
    simp only [TypeExpr.bare, resolveNode, settled_bare (resolveNode_bare _ d),
      settled_bare (resolveNode_bare _ c)]
    simp [bareReports, Syntax.Name.bare]
  | .binary op l r p => by
    simp only [TypeExpr.bare, resolveNode, settled_bare (resolveNode_bare _ l),
      settled_bare (resolveNode_bare _ r)]
    simp [bareReports]
  | .call f a p => by
    simp only [TypeExpr.bare, resolveNode, settled_bare (resolveNode_bare _ a), Syntax.Name.bare]
    split <;> rfl
  | .record x t y u p => by
    simp only [TypeExpr.bare, resolveNode, settled_bare (resolveNode_bare _ t),
      settled_bare (resolveNode_bare _ u), bareReports, map_append]
    rfl
  | .not t p => by
    simp only [TypeExpr.bare, resolveNode, settled_bare (resolveNode_bare _ t)]
    simp [bareReports]
  | .generic f args p => by
    have count : (Syntax.bareTypes args).length = args.length := by
      rw [Syntax.bareTypes_eq, length_map]
    simp only [TypeExpr.bare, resolveNode, Syntax.Name.bare, count, instantiate_bare scope f.text args]
    split
    · rfl
    · split <;> rfl
    · rfl

theorem instantiate_bare (scope : Scope) (generic : String) : (args : List TypeExpr) → ∀ index body slots,
    instantiate scope generic index body slots (Syntax.bareTypes args) =
      bareReports (instantiate scope generic index body slots args)
  | [] => by
    intro index body slots
    rw [Syntax.bareTypes, instantiate]
    rfl
  | arg :: args => by
    intro index body slots
    cases slots with
    | nil => rfl
    | cons slot slots =>
      simp only [Syntax.bareTypes, instantiate, settled_bare (resolveNode_bare _ arg),
        instantiate_bare scope generic args]
      simp only [bareReports]
      split
      · rfl
      · simp

end

theorem resolve_bare (scope : Scope) (t : TypeExpr) : resolve scope t.bare = bareReports (resolve scope t) :=
  settled_bare (resolveNode_bare scope t)

end Resolve

namespace Judgement
open Syntax (Name Place TypeExpr Rename TypeParam)
open Record (Repair)
open Coupling (Outcome name_place name_text)
open Coupling.Checks (lift premise conclude thrown guarded comparing noting)

variable {C : Coupling} {L M N : Multiset Repair} {loud : Bool} {scope : Scope} {require : Option Formula}

section Steps

theorem meets_couples (t : Formula) (require : Option Formula) :
    C.Rel false 0 Eq (meets t require) (meets t require) := by
  cases require with
  | none => exact .pure rfl
  | some r => exact C.compares _

theorem resolve_seen (scope : Scope) (t : TypeExpr) : Resolve.resolve scope (C.type t) =
    ((Resolve.resolve scope t).1, (Resolve.resolve scope t).2.map (seen C.blurs Resolve.Report.bare)) := by
  unfold Coupling.type seen
  cases C.blurs with
  | true => exact Resolve.resolve_bare scope t
  | false => simp

theorem reports_couple (reports : List Resolve.Report) :
    C.Rel false 0 Eq (reports.forM fun r => report r.place (.type r.error))
      ((reports.map (seen C.blurs Resolve.Report.bare)).forM fun r => report r.place (.type r.error)) := by
  induction reports with
  | nil => exact .pure rfl
  | cons r rest ih =>
    have bare (blurs : Bool) : seen blurs Resolve.Report.bare r = ⟨seen blurs (fun _ => none) r.place, r.error⟩ := by
      cases blurs <;> rfl
    rw [map_cons, bare]
    exact (Coupling.Rel.report r.place rfl).after fun _ => ih

theorem resolveType_couples (scope : Scope) (t : TypeExpr) :
    C.Rel false 0 Eq (resolveType scope t) (resolveType scope (C.type t)) := by
  unfold resolveType
  rw [resolve_seen]
  exact (reports_couple _).after fun _ => .pure rfl

theorem type?_none : C.type? none = none := by
  unfold Coupling.type? seen
  cases C.blurs <;> rfl

theorem type?_some (t : TypeExpr) : C.type? (some t) = some (C.type t) := by
  unfold Coupling.type? Coupling.type seen
  cases C.blurs <;> rfl

theorem resolveOption_couples (scope : Scope) (t : Option TypeExpr) :
    C.Rel false 0 (fun f f' => f = f' ∧ f.isSome = t.isSome) (resolveType? scope t)
      (resolveType? scope (C.type? t)) := by
  cases t with
  | none =>
    rw [type?_none]
    exact .pure ⟨rfl, rfl⟩
  | some t =>
    rw [type?_some]
    exact (resolveType_couples scope t).map fun _ _ same => ⟨congrArg some same, rfl⟩

section

variable {α : Type} {S : α → α → Prop}

theorem resolvingType {t : TypeExpr} {f g : Formula → Checking α} (hf : ∀ t, C.Checks M S (f t) (g t)) :
    C.Checks M S (liftM (resolveType scope t) >>= f) (liftM (resolveType scope (C.type t)) >>= g) :=
  (lift (resolveType_couples scope t)).after hf

theorem resolving {t : Option TypeExpr} {f g : Option Formula → Checking α}
    (hf : ∀ declared, C.Checks M S (f declared) (g declared)) :
    C.Checks M S (liftM (resolveType? scope t) >>= f) (liftM (resolveType? scope (C.type? t)) >>= g) := by
  have same : C.Rel false 0 Eq (resolveType? scope t) (resolveType? scope (C.type? t)) := by
    have known := (resolveOption_couples (C := C) scope t).map (S := Eq) (h := id) fun _ _ => And.left
    rwa [id_map, id_map] at known
  exact (lift same).after hf

end

theorem tagged_couples (t : Formula) : C.Checks 0 Eq (tagged t) (tagged t) := by
  unfold tagged
  cases Scope.tag t with
  | ok e => exact .pure rfl
  | error why => exact .throw rfl

theorem applied_couples (fn arg : Formula) : C.Checks 0 Eq (applied fn arg) (applied fn arg) := by
  refine (lift (C.compares _)).after fun result => ?_
  cases result with
  | ok t => exact .pure rfl
  | error why => exact .throw rfl

end Steps

section Terms

variable {left left' right right' : Noting Typed}

theorem nameRule_couples (x : Name) :
    C.Checks 0 C.Same (nameRule scope require x) (nameRule scope require (C.name x)) := by
  unfold nameRule
  rw [name_text, name_place]
  split
  · refine noting (.hover _ _) (Coupling.Checks.after ?_ fun _ => .equal)
    exact .lift (C.modifies (fun _ => rfl) fun _ _ => rfl)
  · split
    · exact .throw rfl
    · exact noting (.hover _ _) .equal
    · exact noting (.hover _ _) .equal
    · exact .throw rfl

theorem arithRule_couples (op : Syntax.ArithOp) (hl : C.Premise L left left')
    (hr : C.Premise M right right') :
    C.Checks (L + M) C.Same (arithRule op left right) (arithRule op left' right') := by
  refine premise hl fun _ _ _ l => conclude hr fun _ _ _ r => guarded rfl (guarded rfl ?_)
  cases op with
  | add => exact .pure ⟨rfl, fun exact => congrArg₂ Realizer.add (l exact) (r exact)⟩
  | mul => exact .pure ⟨rfl, fun exact => congrArg₂ Realizer.mul (l exact) (r exact)⟩

theorem pairRule_couples {left left' right right' : Option Formula → Noting Typed}
    (hl : C.Premises L left left') (hr : C.Premises M right right') :
    C.Checks (L + M) C.Same (pairRule require left right) (pairRule require left' right') := by
  unfold pairRule
  split
  case h_3 => exact thrown rfl
  all_goals
    refine premise (hl _) fun _ _ _ l => conclude (hr _) fun _ _ _ r => ?_
    exact .pure ⟨rfl, fun exact => congrArg₂ Realizer.pair (l exact) (r exact)⟩

theorem memberRule_couples {field : String} {subject subject' : Noting Typed}
    (hx : C.Premise L subject subject') :
    C.Checks L C.Same (memberRule require field subject) (memberRule require field subject') := by
  refine conclude hx fun t x x' like => ?_
  cases t with
  | and l r =>
    have finish {side side' : Typed} (alike : C.Same side side') :
        C.Checks 0 C.Same (offered require side) (offered require side') := by
      unfold offered
      rw [alike.1]
      cases require with
      | none => exact .pure alike
      | some required =>
        refine (lift (C.compares _)).after fun r => ?_
        cases r with
        | true => exact .pure alike
        | false => exact .throw rfl
    dsimp only
    split
    · exact finish ⟨rfl, fun exact => congrArg Realizer.left (like exact)⟩
    · exact finish ⟨rfl, fun exact => congrArg Realizer.right (like exact)⟩
    · exact thrown rfl
  | _ => exact .throw rfl

theorem ascriptionRule_couples {t : TypeExpr} {subject subject' : Option Formula → Noting Typed}
    (hx : C.Premises L subject subject') : C.Checks L C.Same (ascriptionRule scope require t subject)
      (ascriptionRule scope require (C.type t) subject') := by
  refine resolvingType fun asserted => ?_
  cases require with
  | none => exact conclude (hx _) fun _ _ _ like => comparing rfl (.pure ⟨rfl, like⟩)
  | some required => exact comparing rfl (conclude (hx _) fun _ _ _ like => comparing rfl (.pure ⟨rfl, like⟩))

theorem witnessStatement_couples (number property : String) (want : Option (String × String × Formula))
    (ascribed : Option TypeExpr) : C.Checks 0 Eq (witnessStatement scope number property want ascribed)
      (witnessStatement scope number property want (C.type? ascribed)) := by
  unfold witnessStatement
  have rest (required : Option Formula) : C.Checks 0 Eq (stated scope number ascribed required)
      (stated scope number (C.type? ascribed) required) := by
    cases ascribed with
    | some t =>
      rw [type?_some]
      refine resolvingType fun g => ?_
      exact (lift (meets_couples g required)).after fun _ => guarded rfl (.pure rfl)
    | none =>
      rw [type?_none]
      cases required with
      | some t => exact .pure rfl
      | none => exact .throw rfl
  cases want with
  | none => exact rest none
  | some want =>
    obtain ⟨n, p, t⟩ := want
    dsimp only
    split
    · exact rest (some t)
    · exact thrown rfl

theorem witnessRule_couples {number property : String} (ascribed : Option TypeExpr)
    {value value' proof proof' : Option Formula → Noting Typed} (hv : C.Premises L value value')
    (hw : C.Premises M proof proof') :
    C.Checks (L + M) C.Same (witnessRule scope require number property ascribed value proof)
      (witnessRule scope require number property (C.type? ascribed) value' proof') := by
  unfold witnessRule
  split
  case h_3 => exact thrown rfl
  all_goals
    refine premise (hv none) fun type _ _ v => ?_
    refine (witnessStatement_couples number property _ ascribed).after fun statement => ?_
    refine conclude (hw _) fun _ _ _ w => comparing rfl (.pure ⟨rfl, fun exact => ?_⟩)
    rw [v exact, w exact]

end Terms

section Binders

variable {body body' : Scope → Option Formula → Noting Typed}

theorem functionRequirement_couples (x : String) (declared require : Option Formula) :
    C.Checks 0 Eq (functionRequirement x declared require) (functionRequirement x declared require) := by
  unfold functionRequirement
  split
  · exact .pure rfl
  · cases declared with
    | none => exact .pure rfl
    | some t => exact comparing rfl (.pure rfl)
  · exact .throw rfl

theorem resultRequirement_couples (expected : Option Formula) (t : Option TypeExpr) :
    C.Checks 0 Eq (resultRequirement scope expected t) (resultRequirement scope expected (C.type? t)) := by
  cases t with
  | none =>
    rw [type?_none]
    exact .pure rfl
  | some t =>
    rw [type?_some]
    refine resolvingType fun g => ?_
    cases expected with
    | none => exact .pure rfl
    | some expected => exact comparing rfl (.pure rfl)

theorem lambdaRule_couples {x : Name} {d r : Option TypeExpr} {q : Place}
    (hbody : ∀ inner, C.Premises L (body inner) (body' inner)) :
    C.Checks L C.Same (lambdaRule scope require x d r q body)
      (lambdaRule scope require (C.name x) (C.type? d) (C.type? r) (C.place q) body') := by
  unfold lambdaRule
  rw [name_text, name_place]
  refine resolving fun declared => ?_
  refine (functionRequirement_couples x.text declared require).after fun plan => ?_
  obtain ⟨domain, expected⟩ := plan
  cases domain with
  | none => exact .throw rfl
  | some domain =>
    refine (tagged_couples _).after fun entry => ?_
    refine (resultRequirement_couples expected r).after fun required => ?_
    refine noting (.defined _ _ _) (noting (.hover _ _) ?_)
    refine conclude (hbody _ required) fun t b b' like => ?_
    have done : C.Checks 0 C.Same (pure ⟨.arrow x.text domain t, .lambda x.text b⟩)
        (pure ⟨.arrow x.text domain t, .lambda x.text b'⟩) :=
      .pure ⟨rfl, fun exact => congrArg (Realizer.lambda x.text) (like exact)⟩
    cases required with
    | none => exact done
    | some required => exact comparing rfl done

theorem isCounterType_seen (t : Option TypeExpr) : isCounterType (C.type? t) = isCounterType t := by
  unfold Coupling.type? seen
  cases C.blurs with
  | false => rfl
  | true =>
    cases t with
    | none => rfl
    | some t => cases t <;> rfl

theorem loopStatement_couples (i p : String) (declared : Option Formula) (bound : Formula) :
    C.Checks 0 Eq (loopStatement i p declared require bound) (loopStatement i p declared require bound) := by
  unfold loopStatement
  split
  · cases declared with
    | none => exact .pure rfl
    | some t => exact comparing rfl (.pure rfl)
  · cases declared with
    | none => exact .throw rfl
    | some t => exact .pure rfl

theorem loopRule_couples (names : LoopNames) {counterType proofType : Option TypeExpr}
    {start start' bound bound' base base' : Option Formula → Noting Typed} {B : Multiset Repair}
    (hstart : C.Premises L start start') (hbase : C.Premises M base base')
    (hbound : C.Premises N bound bound') (hbody : ∀ inner, C.Premises B (body inner) (body' inner)) :
    C.Checks (L + M + N + B) C.Same (loopRule scope require names counterType proofType start bound base body)
      (loopRule scope require ⟨C.name names.counter, C.name names.proof, C.name names.compared,
        C.name names.stepped, C.place names.bodyPlace⟩ (C.type? counterType) (C.type? proofType)
        start' bound' base' body') := by
  have order : L + M + N + B = L + (N + (M + B)) := by
    rw [add_assoc, add_assoc, add_left_comm M N B]
  unfold loopRule
  simp only [isCounterType_seen, name_text, name_place, order]
  refine guarded rfl (premise (hstart _) fun _ _ _ _ => comparing rfl ?_)
  refine premise (hbound none) fun _ _ _ bounds => resolving fun declared => ?_
  refine (loopStatement_couples _ _ _ _).after fun statement => ?_
  refine premise (hbase _) fun _ _ _ zero => comparing rfl (guarded rfl (guarded rfl ?_))
  refine (tagged_couples _).after fun entry => ?_
  refine noting (.defined _ _ _) (noting (.defined _ _ _) ?_)
  refine noting (.hover _ _) (noting (.hover _ _) (noting (.hover _ _) (noting (.hover _ _) ?_)))
  refine conclude (hbody _ _) fun _ _ _ next => comparing rfl (.pure ⟨rfl, fun exact => ?_⟩)
  rw [bounds exact, zero exact, next exact]

/-- Arms whose bodies are checked together. -/
structure Coupling.Arms (C : Coupling) (L : Multiset Repair) (a a' : Arm) : Prop where
  tag : a'.tag = a.tag
  binding : a'.binding = C.name a.binding
  bodyPlace : a'.bodyPlace = C.place a.bodyPlace
  check : ∀ inner, C.Premises L (a.check inner) (a'.check inner)

theorem armRule_couples {a a' : Arm} {side : Formula} (h : C.Arms L a a') :
    C.Checks L C.Same (armRule scope a side require) (armRule scope a' side require) := by
  unfold armRule
  rw [h.binding, h.bodyPlace, name_text, name_place]
  exact (tagged_couples side).after fun entry =>
    noting (.defined _ _ _) (noting (.hover _ _) (.lift (h.check _ _)))

/-- Two tags are found at two different arms. -/
theorem found_apart {ι : Type} {tag : ι → String} {c d x y : ι}
    (left : [c, d].find? (tag · == "left") = some x)
    (right : [c, d].find? (tag · == "right") = some y) : x = c ∧ y = d ∨ x = d ∧ y = c := by
  have tagLeft : tag x = "left" := by simpa using find?_some left
  have tagRight : tag y = "right" := by simpa using find?_some right
  have differ : x ≠ y := by
    rintro rfl
    exact absurd (tagLeft.symm.trans tagRight) (by decide)
  have hx : x = c ∨ x = d := by simpa using mem_of_find?_eq_some left
  have hy : y = c ∨ y = d := by simpa using mem_of_find?_eq_some right
  grind

theorem find_armTag {ι : Type} {cases : List ι} {arm : ι → Arm} {tags : ι → String} (tag : String)
    (h : ∀ c ∈ cases, (arm c).tag = tags c) :
    (cases.map arm).find? (·.tag == tag) = (cases.find? (tags · == tag)).map arm := by
  induction cases with
  | nil => rfl
  | cons c rest ih =>
    have here : (arm c).tag = tags c := h c mem_cons_self
    have later := ih fun d hd => h d (mem_cons_of_mem _ hd)
    rw [map_cons, find?_cons, find?_cons, here, later]
    cases tags c == tag <;> rfl

/-- Of two arms each is gone through once, in one order or the other. -/
theorem switchRule_couples {ι : Type} {cases : List ι} {arm arm' : ι → Arm}
    {budget : ι → Multiset Repair} {subject subject' : Noting Typed}
    (hs : C.Premise L subject subject') (harm : ∀ c ∈ cases, C.Arms (budget c) (arm c) (arm' c)) :
    C.Checks (L + (cases.map budget).sum) C.Same (switchRule scope require subject (cases.map arm))
      (switchRule scope require subject' (cases.map arm')) := by
  have find (tag : String) := find_armTag tag fun c (_ : c ∈ cases) => rfl (a := (arm c).tag)
  have find' (tag : String) := find_armTag tag fun c hc => (harm c hc).tag
  refine premise hs fun t s s' like => ?_
  cases t with
  | any => exact .equal
  | or l r =>
    dsimp only
    rw [length_map, length_map, find, find, find', find']
    by_cases two : cases.length = 2
    · rw [if_pos two, if_pos two]
      cases first : cases.find? (fun c => (arm c).tag == "left") with
      | none => exact .throw rfl
      | some a =>
        cases second : cases.find? (fun c => (arm c).tag == "right") with
        | none => exact .throw rfl
        | some b =>
          have left := harm a (mem_of_find?_eq_some first)
          have right := harm b (mem_of_find?_eq_some second)
          obtain ⟨c, d, rfl⟩ := length_eq_two.1 two
          have budgets : ([c, d].map budget).sum = budget a + (budget b + 0) := by
            obtain ⟨rfl, rfl⟩ | ⟨rfl, rfl⟩ := found_apart first second
            · simp
            · simp [add_comm]
          simp only [Option.map_some, budgets, left.binding, right.binding, name_text]
          refine (armRule_couples left).bind ?_
          rintro ⟨t, _⟩ ⟨_, _⟩ ⟨rfl, one⟩
          refine (armRule_couples right).bind ?_
          rintro ⟨u, _⟩ ⟨_, _⟩ ⟨rfl, two⟩
          refine comparing rfl ((lift (meets_couples _ _)).after fun _ => guarded rfl ?_)
          refine .pure ⟨rfl, fun exact => ?_⟩
          rw [like exact, one exact, two exact]
    · rw [if_neg two, if_neg two]
      exact thrown rfl
  | _ => exact .throw rfl

end Binders

section Calls

variable {subject subject' equation equation' : Noting Typed}
variable {argument argument' : Option Formula → Noting Typed}

theorem symmRule_couples {subject subject' : Option Formula → Noting Typed}
    (hx : C.Premises L subject subject') :
    C.Checks L C.Same (symmRule require subject) (symmRule require subject') := by
  refine conclude (hx _) fun t _ _ _ => ?_
  cases t with
  | eq l r => exact .equal
  | _ => exact .throw rfl

theorem transRequirement_couples (l r : Formula) :
    C.Rel false 0 Eq (transRequirement require l r) (transRequirement require l r) := by
  unfold transRequirement
  split
  · refine (C.compares _).after fun fits => ?_
    cases fits with
    | true | false => exact .pure rfl
  · exact .pure rfl

theorem transRule_couples_none (hx : C.Premise L subject subject') :
    C.Checks L C.Same (transRule require subject none) (transRule require subject' none) := by
  refine conclude hx fun t _ _ _ => ?_
  cases t <;> exact .throw rfl

theorem transRule_couples (hx : C.Premise L subject subject') (ha : C.Premises M argument argument') :
    C.Checks (L + M) C.Same (transRule require subject (some argument))
      (transRule require subject' (some argument')) := by
  refine premise hx fun t _ _ _ => ?_
  cases t with
  | eq l r =>
    refine (lift (transRequirement_couples l r)).after fun expected => ?_
    refine conclude (ha expected) fun u _ _ _ => ?_
    cases u with
    | eq l' r' => exact comparing rfl .equal
    | rung l' r' =>
      dsimp only
      split
      · exact .throw rfl
      · exact comparing rfl .equal
      · exact .throw rfl
    | _ => exact .throw rfl
  | _ => exact .throw rfl

theorem mapRule_couples {function function' : Noting Typed} (isSucc : Bool)
    (hf : C.Premise L function function') (hx : C.Premise M equation equation') :
    C.Checks (L + M) C.Same (mapRule (if isSucc then none else some function) equation)
      (mapRule (if isSucc then none else some function') equation') := by
  have known : C.Checks L Eq (mapFunction (if isSucc then none else some function))
      (mapFunction (if isSucc then none else some function')) := by
    cases isSucc with
    | true => exact .pure rfl
    | false =>
      refine conclude hf fun t _ _ _ => ?_
      cases t with
      | arrow x d c =>
        dsimp only
        split
        · exact .pure rfl
        · exact .throw rfl
      | _ => exact .throw rfl
  refine known.bind ?_
  rintro g _ rfl
  refine conclude hx fun t _ _ _ => ?_
  cases t with
  | eq l r =>
    refine (applied_couples g _).after fun l => ?_
    exact (applied_couples g _).after fun r => .equal
  | _ => exact .throw rfl

theorem replaceAllRule_couples {proof proof' : Noting Typed} (hp : C.Premise L proof proof')
    (hx : C.Premise M equation equation') :
    C.Checks (L + M) C.Same (replaceAllRule proof equation) (replaceAllRule proof' equation') := by
  rw [add_comm]
  refine premise hx fun t _ _ _ => ?_
  dsimp only
  split
  · exact conclude hp fun _ _ _ like => .pure ⟨rfl, like⟩
  · exact .throw rfl
  · exact .throw rfl

theorem succRule_couples {argument argument' : Noting Typed} (ha : C.Premise L argument argument') :
    C.Checks L C.Same (succRule argument) (succRule argument') :=
  conclude ha fun _ _ _ like => guarded rfl (.pure ⟨rfl, fun exact => congrArg Realizer.succ (like exact)⟩)

theorem ringRule_couples {argument argument' : Noting Typed} (ha : C.Premise L argument argument') :
    C.Checks L C.Same (ringRule argument) (ringRule argument') := by
  refine conclude ha fun t _ _ like => ?_
  cases t with
  | any | eq l r => exact .pure ⟨rfl, like⟩
  | _ => exact .throw rfl

theorem neverElimRule_couples (ha : C.Premises L argument argument') :
    C.Checks L C.Same (neverElimRule require argument) (neverElimRule require argument') := by
  cases require with
  | none => exact .throw rfl
  | some required => exact conclude (ha _) fun _ _ _ _ => comparing rfl .equal

theorem injectionRule_couples (name : String) (ha : C.Premises L argument argument') :
    C.Checks L C.Same (injectionRule name require argument) (injectionRule name require argument') := by
  unfold injectionRule
  split
  · exact .throw rfl
  · refine conclude (ha _) fun _ _ _ like => comparing rfl (.pure ⟨rfl, fun exact => ?_⟩)
    rw [like exact]
  · exact .throw rfl

theorem applicationRule_couples {fn fn' : Noting Typed} (hf : C.Premise L fn fn')
    (ha : C.Premises M argument argument') :
    C.Checks (L + M) C.Same (applicationRule fn argument) (applicationRule fn' argument') := by
  refine premise hf fun t _ _ f => ?_
  cases t with
  | any => exact .equal
  | arrow x d c =>
    refine conclude (ha _) fun _ _ _ a => (applied_couples _ _).after fun t => .pure ⟨rfl, fun exact => ?_⟩
    rw [f exact, a exact]
  | _ => exact .throw rfl

theorem genericRule_couples (name : String) (t : TypeExpr) :
    C.Checks 0 C.Same (genericRule scope name t) (genericRule scope name (C.type t)) := by
  have injection (isRight : Bool) : C.Checks 0 C.Same
      (injectionInstance scope isRight name t) (injectionInstance scope isRight name (C.type t)) := by
    have side (l r : TypeExpr) : (if isRight then C.type r else C.type l) = C.type (if isRight then r else l) := by
      cases isRight <;> rfl
    cases t with
    | binary op l r p =>
      have parts : C.type (.binary op l r p) = .binary op (C.type l) (C.type r) (C.place p) := by
        unfold Coupling.type Coupling.place seen
        cases C.blurs <;> rfl
      unfold injectionInstance
      rw [parts]
      cases op with
      | or =>
        dsimp only
        rw [side, ← parts]
        refine resolvingType fun part => ?_
        exact resolvingType fun whole => .equal
      | _ => exact .throw rfl
    | _ =>
      unfold Coupling.type seen injectionInstance
      cases C.blurs <;> exact .throw rfl
  have replace : C.Checks 0 C.Same (replaceInstance scope t) (replaceInstance scope (C.type t)) := by
    cases t with
    | name x =>
      have parts : C.type (.name x) = .name (C.name x) := by
        unfold Coupling.type Coupling.name seen
        cases C.blurs <;> rfl
      unfold replaceInstance
      rw [parts]
      dsimp only
      rw [name_text]
      split
      · exact .throw rfl
      · exact .equal
      all_goals exact .throw rfl
    | _ =>
      unfold Coupling.type seen replaceInstance
      cases C.blurs <;> exact .throw rfl
  unfold genericRule
  split
  · exact injection false
  · exact injection true
  · exact resolvingType fun _ => .equal
  · exact replace
  · exact resolvingType fun _ => .equal
  · exact .throw rfl

end Calls

section Recovery

variable {cfg : Settings} {place : Place} {isName : Bool}

theorem lemma_couples (t : Formula) (lemmas : List (Formula × Primitive)) :
    C.Rel false 0 Eq (Shortcut.lemma? t lemmas) (Shortcut.lemma? t lemmas) := by
  induction lemmas with
  | nil => exact .pure rfl
  | cons entry rest ih =>
    refine (C.compares _).after fun fits => ?_
    cases fits with
    | true => exact .pure rfl
    | false => exact ih

theorem finished_couples (type : Formula) {r r' : Realizer} (like : C.Exact → r = r') :
    C.Rel false 0 C.Same (finished cfg isName type r) (finished cfg isName type r') := by
  have shortcut : C.Rel false 0 (fun q q' => C.Exact → q = q') (Shortcut.realizer type r)
      (Shortcut.realizer type r') := by
    refine (lemma_couples type _).after fun found => ?_
    cases found with
    | some p => exact .pure fun _ => rfl
    | none =>
      dsimp only
      split
      · exact .pure fun _ => rfl
      · exact .pure like
  unfold finished
  split
  · exact shortcut.before fun _ _ same => .pure ⟨rfl, same⟩
  · exact .pure ⟨rfl, like⟩

theorem recover_couples {inferred inferred' : Checking Typed}
    (h : C.Rel loud L (Outcome C.Same) inferred.run inferred'.run) :
    C.Rel loud L C.Same (recover cfg place isName require inferred)
      (recover cfg (C.place place) isName require inferred') := by
  refine h.before ?_
  rintro (e | ⟨t, r⟩) (e' | ⟨t', r'⟩) same
  · obtain ⟨rfl, fair⟩ := same
    exact (Coupling.Rel.report place fair).after fun _ => C.louder (finished_couples _ fun _ => rfl)
  · exact same.elim
  · exact same.elim
  · obtain ⟨rfl, like⟩ : t = t' ∧ _ := same
    cases require with
    | none => exact C.louder (finished_couples _ like)
    | some required =>
      refine (C.compares _).after fun fits => ?_
      cases fits with
      | true => exact C.louder (finished_couples _ like)
      | false => exact (Coupling.Rel.report place rfl).after fun _ => C.louder (finished_couples _ like)

theorem judge_couples {rule rule' : Checking Typed} (h : C.Checks L C.Same rule rule') :
    C.Rel false L C.Same (judge cfg place isName require rule)
      (judge cfg (C.place place) isName require rule') :=
  recover_couples (noting (.required _ _ _) h)

end Recovery

section Statements

variable {isProgram : Bool} {visible : Place} {before before' : Progressed}

/-- What a statement fails with is not the kind of a statement. -/
def Blames (failed : Option Error) : Prop := ∀ e ∈ failed, e.isEnding = false

theorem Blames.none : Blames none := nofun

theorem Blames.some {e : Error} (h : e.isEnding = false) : Blames (some e) := by
  intro e' he
  cases he
  exact h

theorem reportAt_couples (place : Place) {failed : Option Error} (h : Blames failed) :
    C.Rel false 0 Eq (reportAt place failed) (reportAt (C.place place) failed) := by
  cases failed with
  | none => exact .pure rfl
  | some e => exact .report place (h e rfl)

/-- As many definitions, and the same ones if they have to be. -/
def Coupling.Bindings (C : Coupling) (bs bs' : List Binding) : Prop :=
  bs.length = bs'.length ∧ (C.Exact → bs = bs')

/-- Two blocks have come to the same. -/
structure Coupling.Alike (C : Coupling) (p p' : Progressed) : Prop where
  scope : p.scope = p'.scope
  bindings : C.Bindings p.bindings p'.bindings

/-- A statement has come to the same, or has failed with the same. -/
def Coupling.Stepped (C : Coupling) (r r' : Progressed × Option Error) : Prop :=
  C.Alike r.1 r'.1 ∧ r.2 = r'.2 ∧ Blames r.2

theorem bind_couples {b b' : Binding} {bs bs' : List Binding} (like : C.Exact → b = b')
    (before : C.Bindings bs bs') :
    C.Rel isProgram 0 C.Bindings (Judgement.bind isProgram b bs) (Judgement.bind isProgram b' bs') := by
  have added : C.Bindings (bs ++ [b]) (bs' ++ [b']) := by
    refine ⟨?_, fun exact => by rw [before.2 exact, like exact]⟩
    rw [length_append, length_append, before.1]
    rfl
  cases isProgram with
  | true =>
    have noted := (C.defines like).before (S := C.Bindings) fun _ _ _ => .pure added
    exact noted
  | false => exact .pure added

theorem defineRule_couples {x : Name} {assertion : Option TypeExpr}
    {value value' : Option Formula → Noting Typed} (alike : C.Alike before before')
    (hv : ∀ require : Option Formula, require.isSome = assertion.isSome →
      C.Rel false L C.Same (value require) (value' require)) :
    C.Rel isProgram L C.Stepped (defineRule isProgram visible x assertion value before)
      (defineRule isProgram (C.place visible) (C.name x) (C.type? assertion) value' before') := by
  unfold defineRule
  rw [alike.scope, name_text, name_place, ← zero_add L]
  refine (C.louder (resolveOption_couples _ _)).bind ?_
  rintro asserted _ ⟨rfl, written⟩
  refine (C.louder (hv asserted written)).before ?_
  rintro ⟨t, r⟩ ⟨_, r'⟩ ⟨rfl, like⟩
  refine (C.notes (.hover _ _)).after fun _ => ?_
  cases Scope.tag (asserted.getD t) with
  | error why => exact .pure ⟨alike, rfl, .some rfl⟩
  | ok entry =>
    have like (exact : C.Exact) := congrArg (Binding.define x.text) (like exact)
    have done {bs bs' : List Binding} (bindings : C.Bindings bs bs') :
        C.Stepped (⟨before'.scope.insert x.text entry, bs⟩, none) (⟨_, bs'⟩, none) :=
      ⟨⟨rfl, bindings⟩, rfl, .none⟩
    cases isProgram with
    | true => exact (bind_couples like alike.bindings).before fun _ _ h => .pure (done h)
    | false =>
      refine (C.notes (.defined _ _ _)).after fun _ => ?_
      exact (bind_couples like alike.bindings).before fun _ _ h => .pure (done h)

theorem rename_seen (r : Rename) : (seen C.blurs Rename.bare r).field.text = r.field.text ∧
    (seen C.blurs Rename.bare r).target = C.name r.target := by
  unfold Coupling.name seen
  cases C.blurs with
  | false => exact ⟨rfl, rfl⟩
  | true =>
    obtain ⟨field, new⟩ := r
    cases new <;> exact ⟨rfl, rfl⟩

theorem takeField_couples (number property : String) (statement : Formula) (r : Rename) (t : Taken) :
    C.Rel false 0 (fun taken taken' => taken = taken' ∧ Blames taken.2)
      (takeField visible number property statement r t)
      (takeField (C.place visible) number property statement (seen C.blurs Rename.bare r) t) := by
  unfold takeField
  simp only [(rename_seen r).1, (rename_seen r).2, name_text, name_place]
  split
  · exact .pure ⟨rfl, .some rfl⟩
  · refine (C.notes (.defined _ _ _)).after fun _ => (C.notes (.hover _ _)).after fun _ => ?_
    split
    · exact .pure ⟨rfl, .some rfl⟩
    · exact .pure ⟨rfl, .none⟩

theorem destructureRule_couples {first second : Rename} {value value' : Noting Typed}
    (alike : C.Alike before before') (hv : C.Premise L value value') :
    C.Rel isProgram L C.Stepped (destructureRule isProgram visible first second value before)
      (destructureRule isProgram (C.place visible) (seen C.blurs Rename.bare first)
        (seen C.blurs Rename.bare second) value' before') := by
  unfold destructureRule
  rw [alike.scope]
  refine (C.louder hv).before ?_
  rintro ⟨t, r⟩ ⟨_, r'⟩ ⟨rfl, like⟩
  cases t with
  | struct number property statement =>
    refine (C.louder (takeField_couples number property statement first _)).before ?_
    rintro ⟨one, failed⟩ _ ⟨rfl, blames⟩
    cases failed with
    | some e => exact .pure ⟨⟨rfl, alike.bindings⟩, rfl, blames⟩
    | none =>
      refine (C.louder (takeField_couples number property statement second one)).before ?_
      rintro ⟨two, failed⟩ _ ⟨rfl, blames⟩
      cases failed with
      | some e => exact .pure ⟨⟨rfl, alike.bindings⟩, rfl, blames⟩
      | none =>
        dsimp only
        split
        · refine (bind_couples (fun exact => ?_) alike.bindings).before fun _ _ bindings =>
            .pure ⟨⟨rfl, bindings⟩, rfl, .none⟩
          exact congrArg (Binding.unpack _ _) (like exact)
        · exact .pure ⟨⟨rfl, alike.bindings⟩, rfl, .some rfl⟩
  | _ => exact .pure ⟨alike, rfl, .some rfl⟩

theorem genericParams_bare (scope : Scope) (ps : List TypeParam) :
    genericParams scope (ps.map TypeParam.bare) = genericParams scope ps := by
  induction ps generalizing scope with
  | nil => rfl
  | cons p rest ih =>
    rw [map_cons, genericParams]
    simp only [ih]
    rfl

theorem genericParams_blames {scope : Scope} {ps : List TypeParam} {e : Error}
    (h : genericParams scope ps = .error e) : e.isEnding = false := by
  induction ps generalizing scope with
  | nil => cases h
  | cons p rest ih =>
    rw [genericParams] at h
    split at h
    case h_3 =>
      cases h
      rfl
    all_goals
      simp only [Bind.bind, Except.bind] at h
      split at h
      next opens =>
        cases h
        exact ih opens
      · cases h

theorem genericRuleFor_couples (scope : Scope) (x : Name) (ps : List TypeParam) (t : TypeExpr) :
    C.Rel false 0 (fun r r' => r = r' ∧ Blames r.2) (genericRuleFor x ps t scope)
      (genericRuleFor (C.name x) (seen C.blurs (List.map TypeParam.bare) ps) (C.type t) scope) := by
  have params : genericParams scope (seen C.blurs (List.map TypeParam.bare) ps) = genericParams scope ps := by
    cases C.blurs with
    | true => exact genericParams_bare scope ps
    | false => rfl
  unfold genericRuleFor
  rw [params, name_text]
  cases opens : genericParams scope ps with
  | error e => exact .pure ⟨rfl, .some (genericParams_blames opens)⟩
  | ok opened =>
    obtain ⟨params, inner⟩ := opened
    exact (resolveType_couples inner t).after fun _ => .pure ⟨rfl, .none⟩

theorem exerciseRule_couples (exercise : Option Exercise) (scope : Scope) :
    C.Rel false 0 Eq (exerciseRule exercise scope) (exerciseRule exercise scope) := by
  unfold exerciseRule
  cases exercise with
  | none => exact .pure rfl
  | some e =>
    dsimp only
    split
    · refine (C.compares _).after fun typed => ?_
      exact C.modifies (fun _ => rfl) fun _ _ => rfl
    · exact C.modifies (fun _ => rfl) fun _ _ => rfl

end Statements

end Judgement
end Peano
