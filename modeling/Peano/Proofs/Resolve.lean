import Peano.Proofs.Checking.Passage
namespace Peano.Judgement
open Syntax (TypeExpr Place TypeOp)
open Resolve (resolve resolveNode instantiate Slot arithmeticSide binderEntry resolveBinary resolveStruct)

variable {scope : Scope} {f : Formula} {p : Place}
variable {x g : Syntax.Name}

attribute [local simp] resolveNode

theorem stands_iff {t : TypeExpr} : Stands scope t f ↔ resolveNode scope t = (.ok f, []) := by
  unfold Stands resolve Resolve.settle
  split
  next g reports h =>
    simp [h]
  next e reports h =>
    simp [h]

theorem stands_name (h : Stands scope (.name x) f) : f = .nat ∨ f = .never ∨
      scope.find? x.text = some (.arithmetic f) ∨ scope.find? x.text = some (.typedef f) := by
  rw [stands_iff, resolveNode] at h
  unfold Resolve.resolveName at h
  split at h
  · cases h; exact .inl rfl
  split at h
  · cases h; exact .inr (.inl rfl)
  split at h
  · cases h
  · cases h; exact .inr (.inr (.inl ‹_›))
  · cases h; exact .inr (.inr (.inr ‹_›))
  · cases h

theorem stands_numeral {digits : String} (h : Stands scope (.numeral digits p) f) :
    f = .numeral (Syntax.digitsValue digits) := by
  cases h
  rfl

theorem stands_pair (s s' : Scope) (t u : TypeExpr) (g : Formula → Formula → Except Resolve.Error Formula)
    (h : (g (resolve s t).1 (resolve s' u).1, (resolve s t).2 ++ (resolve s' u).2) = (.ok f, [])) :
    ∃ a b, Stands s t a ∧ Stands s' u b ∧ g a b = .ok f := by
  obtain ⟨result, none⟩ := Prod.mk.inj h
  obtain ⟨left, right⟩ := List.append_eq_nil_iff.1 none
  exact ⟨_, _, Prod.ext rfl left, Prod.ext rfl right, result⟩

theorem stands_arrow {d c : TypeExpr} (h : Stands scope (.arrow x d c p) f) :
    ∃ a b, Stands scope d a ∧ Stands (scope.insert x.text (binderEntry x.text a)) c b ∧
      f = .arrow x.text a b := by
  rw [stands_iff] at h
  obtain ⟨a, b, left, right, result⟩ := stands_pair scope
    (scope.insert x.text (binderEntry x.text (resolve scope d).1)) d c
    (fun a b => .ok (.arrow x.text a b)) h
  cases result
  have domain : (resolve scope d).1 = a := congrArg Prod.fst left
  exact ⟨a, b, left, domain ▸ right, rfl⟩

theorem stands_binary {op : TypeOp} {l r : TypeExpr} (h : Stands scope (.binary op l r p) f) :
    ∃ a b, Stands scope l a ∧ Stands scope r b ∧ resolveBinary op a b = .ok f := by
  rw [stands_iff] at h
  exact stands_pair scope scope l r _ h

theorem resolveBinary_mem {op : TypeOp} {a b : Formula} (h : resolveBinary op a b = .ok f) :
    f ∈ [.and a b, .or a b, .eq a b, .not (.eq a b), .add a b, .mul a b] := by
  have sides {c : Formula} (h : (do
        arithmeticSide "left" op a
        arithmeticSide "right" op b
        return c : Except Resolve.Error Formula) = .ok f) : f = c := by
    cases left : arithmeticSide "left" op a with
    | error e => rw [left] at h; cases h
    | ok _ =>
      cases right : arithmeticSide "right" op b with
      | error e => rw [left, right] at h; cases h
      | ok _ => rw [left, right] at h; cases h; rfl
  cases op with
  | and | or => cases h; simp
  | equal => simp [sides (c := .eq a b) h]
  | unequal => simp [sides (c := .not (.eq a b)) h]
  | add => simp [sides (c := .add a b) h]
  | mul => simp [sides (c := .mul a b) h]

theorem stands_record {y : Syntax.Name} {t u : TypeExpr} (h : Stands scope (.record x t y u p) f) :
    ∃ s, Stands scope t .nat ∧ Stands (scope.insert x.text (.arithmetic (.var x.text))) u s ∧
      f = .struct x.text y.text s := by
  rw [stands_iff] at h
  obtain ⟨a, b, left, right, result⟩ := stands_pair scope
    (if (resolve scope t).1.isNat then
      scope.insert x.text (binderEntry x.text (resolve scope t).1) else scope) t u
    (resolveStruct x.text y.text) h
  have first : (resolve scope t).1 = a := congrArg Prod.fst left
  rw [first] at right
  unfold resolveStruct at result
  split at result
  · cases result
  split at result
  case isFalse => cases result
  case isTrue nat =>
    cases result
    have : a = .nat := by cases a <;> first | rfl | cases nat
    subst this
    exact ⟨b, left, right, rfl⟩

theorem stands_not {t : TypeExpr} (h : Stands scope (.not t p) f) : ∃ a, Stands scope t a ∧ f = .not a := by
  obtain ⟨result, none⟩ := Prod.mk.inj h
  cases result
  exact ⟨_, Prod.ext rfl none, rfl⟩

theorem stands_call {a : TypeExpr} (h : Stands scope (.call g a p) f) :
    ∃ b, Stands scope a b ∧ b.isArithmetic ∧ f = .succ b := by
  rw [stands_iff, resolveNode] at h
  split at h
  · cases h
  · obtain ⟨result, none⟩ := Prod.mk.inj h
    have stands : Stands scope a (resolve scope a).1 := Prod.ext rfl none
    change (if (resolve scope a).1.isArithmetic then Except.ok (resolve scope a).1.succ
      else _) = _ at result
    split at result
    · cases result
      exact ⟨_, stands, ‹_›, rfl⟩
    · cases result

theorem stands_generic {args : List TypeExpr} (h : Stands scope (.generic g args p) f) :
    ∃ params body, scope.find? g.text = some (.generic params body) ∧ params.length = args.length ∧
      instantiate scope g.text 0 body (params.map fun q => ⟨q, q.name⟩) args = (.ok f, []) := by
  rw [stands_iff, resolveNode] at h
  split at h
  · cases h
  · split at h
    · exact ⟨_, _, ‹_›, ‹_›, h⟩
    · cases h
  · cases h

theorem instantiate_cons {generic : String} {index : Nat} {body : Formula} {slot : Slot}
    {slots : List Slot} {arg : TypeExpr} {args : List TypeExpr}
    (h : instantiate scope generic index body (slot :: slots) (arg :: args) = (.ok f, [])) :
    ∃ provided, Stands scope arg provided ∧ Resolve.checkArgument generic index slot.param provided = .ok () ∧
      instantiate scope generic (index + 1)
        ((Resolve.avoid provided body slots).1.rewrite slot.current provided)
        (Resolve.avoid provided body slots).2 args = (.ok f, []) := by
  rw [instantiate] at h
  dsimp only at h
  split at h
  · cases h
  · obtain ⟨result, none⟩ := Prod.mk.inj h
    obtain ⟨before, after⟩ := List.append_eq_nil_iff.1 none
    exact ⟨_, Prod.ext rfl before, ‹_›, Prod.ext result after⟩

end Peano.Judgement
