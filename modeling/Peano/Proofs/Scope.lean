import Peano.Axiom
namespace Peano
open List

namespace Scope

theorem find?_insert (s : Scope) (x y : String) (e : Entry) :
    (s.insert x e).find? y = if y = x then some e else s.find? y := by
  unfold insert find?
  rw [lookup_cons]
  by_cases h : y = x
  · rw [if_pos h, h, BEq.rfl]
  · rw [if_neg h, beq_false_of_ne h]

theorem mem_of_find? {s : Scope} {x : String} {e : Entry} (h : s.find? x = some e) : (x, e) ∈ s := by
  induction s with
  | nil => cases h
  | cons p rest ih =>
    obtain ⟨y, f⟩ := p
    have found : (insert rest y f).find? x = some e := h
    rw [find?_insert] at found
    split at found
    · cases found
      exact mem_cons.2 (.inl (by rw [‹x = y›]))
    · exact mem_cons_of_mem _ (ih found)

theorem forall_insert {P : String → Entry → Prop} {s : Scope} {x : String} {e : Entry} (new : P x e)
    (old : ∀ y f, s.find? y = some f → P y f) : ∀ y f, (s.insert x e).find? y = some f → P y f := by
  intro y f found
  rw [find?_insert] at found
  split at found
  · cases found
    exact ‹y = x› ▸ new
  · exact old y f found

theorem type_of_tag {t : Formula} {e : Entry} (h : tag t = .ok e) : e.type = t := by
  unfold tag at h
  split at h <;> cases h <;> rfl

end Scope

namespace Axiom

def binding (name : String) : String × Scope.Entry :=
  (name, if name = "any" then .typedef .any else .proof ((find? name).elim .hole (·.statement)))

theorem scope_eq : scope = ["succNotZero", "succInj", "mulZero", "mulSucc", "eqTrans", "eqSymm",
    "eqSym", "eqRefl", "any", "addZero", "addSucc"].map binding := by
  unfold scope Scope.ofEntries
  simp [list, List.mergeSort, binding, find?]

theorem mem_scope {x : String} {e : Scope.Entry} (h : (x, e) ∈ scope) :
    x = "any" ∧ e = .typedef .any ∨ ∃ a, find? x = some a ∧ e = .proof a.statement := by
  rw [scope_eq] at h
  obtain ⟨name, listed, bound⟩ := mem_map.1 h
  unfold binding at bound
  split at bound
  next any =>
    cases bound
    exact .inl ⟨any, rfl⟩
  · cases bound
    have known : (find? x).isSome := by
      clear h
      revert x
      decide
    obtain ⟨a, found⟩ := Option.isSome_iff_exists.1 known
    exact .inr ⟨a, found, by rw [found]; rfl⟩

end Axiom
end Peano
