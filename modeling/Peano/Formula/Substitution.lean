import Peano.Formula.Basic
namespace Peano.Formula

/-- Whether a name occurs free. Every arrow hides its name, in its domain too. -/
def isFree (name : String) : Formula → Bool
  | .var x | .typeVar x => x == name
  | .arrow x d c => x != name && (isFree name d || isFree name c)
  | .struct n _ p => n != name && isFree name p
  | .succ t => isFree name t
  | .add l r | .mul l r | .eq l r | .and l r | .or l r | .rung l r => isFree name l || isFree name r
  | _ => false

/-- A name without the digits at its end. -/
def stem (name : String) : String :=
  String.ofList ((name.toList.reverse.dropWhile Char.isDigit).reverse)

/-- The first of `base_i`, `base_(i+1)`, ... that is free in none of the formulas, if one of the
first `fuel` is; else the one after those. -/
def firstFree (base : String) (ts : List Formula) : Nat → Nat → String
  | 0, i => s!"{base}_{i}"
  | fuel + 1, i =>
    let candidate := s!"{base}_{i}"
    if ts.any (isFree candidate) then firstFree base ts fuel (i + 1) else candidate

/-- A name that is free in none of the formulas. Among more names than there are nodes one is
unused. -/
def freshName (name : String) (ts : List Formula) : String :=
  firstFree (stem name) ts (ts.foldr (fun t n => t.size + n) 1) 2

/-- Replaces a name by a variable; the number of nodes stays. -/
def renameSized (t : Formula) (x y : String) : { u : Formula // u.size = t.size } :=
  match t with
  | .var z => ⟨.var (if z = x then y else z), rfl⟩
  | .typeVar z => if z = x then ⟨.var y, rfl⟩ else ⟨.typeVar z, rfl⟩
  | .struct n p s =>
    if n = x then ⟨.struct n p s, rfl⟩
    else if n = y then
      let fresh := freshName n [.var y, s, .var p]
      let ⟨s₁, h₁⟩ := renameSized s n fresh
      let s₂ := renameSized s₁ x y
      ⟨.struct fresh p s₂.1, by simp [size, h₁, s₂.2]⟩
    else
      let s₁ := renameSized s x y
      ⟨.struct n p s₁.1, by simp [size, s₁.2]⟩
  | .arrow z .nat c =>
    if z = x then ⟨.arrow z .nat c, rfl⟩
    else if z = y then
      let fresh := freshName z [.var y, c]
      let ⟨c₁, h₁⟩ := renameSized c z fresh
      let c₂ := renameSized c₁ x y
      ⟨.arrow fresh .nat c₂.1, by simp [size, h₁, c₂.2]⟩
    else
      let c₁ := renameSized c x y
      ⟨.arrow z .nat c₁.1, by simp [size, c₁.2]⟩
  | .arrow z d c =>
    let d₁ := renameSized d x y
    let c₁ := renameSized c x y
    ⟨.arrow z d₁.1 c₁.1, by simp [size, d₁.2, c₁.2]⟩
  | .succ s =>
    let s₁ := renameSized s x y
    ⟨.succ s₁.1, by simp [size, s₁.2]⟩
  | .add l r =>
    let l₁ := renameSized l x y
    let r₁ := renameSized r x y
    ⟨.add l₁.1 r₁.1, by simp [size, l₁.2, r₁.2]⟩
  | .mul l r =>
    let l₁ := renameSized l x y
    let r₁ := renameSized r x y
    ⟨.mul l₁.1 r₁.1, by simp [size, l₁.2, r₁.2]⟩
  | .eq l r =>
    let l₁ := renameSized l x y
    let r₁ := renameSized r x y
    ⟨.eq l₁.1 r₁.1, by simp [size, l₁.2, r₁.2]⟩
  | .and l r =>
    let l₁ := renameSized l x y
    let r₁ := renameSized r x y
    ⟨.and l₁.1 r₁.1, by simp [size, l₁.2, r₁.2]⟩
  | .or l r =>
    let l₁ := renameSized l x y
    let r₁ := renameSized r x y
    ⟨.or l₁.1 r₁.1, by simp [size, l₁.2, r₁.2]⟩
  | .rung l r =>
    let l₁ := renameSized l x y
    let r₁ := renameSized r x y
    ⟨.rung l₁.1 r₁.1, by simp [size, l₁.2, r₁.2]⟩
  | .zero => ⟨.zero, rfl⟩
  | .nat => ⟨.nat, rfl⟩
  | .never => ⟨.never, rfl⟩
  | .any => ⟨.any, rfl⟩
  | .hole => ⟨.hole, rfl⟩
termination_by t.size
decreasing_by all_goals simp only [size]; omega

def rename (t : Formula) (x y : String) : Formula := (renameSized t x y).1

theorem size_rename (t : Formula) (x y : String) : (rename t x y).size = t.size :=
  (renameSized t x y).2

def rewrite (t : Formula) (x : String) (u : Formula) : Formula :=
  match t with
  | .var z => if z = x then u else .var z
  | .typeVar z => if z = x then u else .typeVar z
  | .struct n p s =>
    if n = x then .struct n p s
    else if isFree n u then
      let fresh := freshName n [u, s, .var p]
      .struct fresh p (rewrite (rename s n fresh) x u)
    else .struct n p (rewrite s x u)
  | .arrow z .nat c =>
    if z = x then .arrow z .nat c
    else if isFree z u then
      let fresh := freshName z [u, c]
      .arrow fresh .nat (rewrite (rename c z fresh) x u)
    else .arrow z .nat (rewrite c x u)
  | .arrow z d c => .arrow z (rewrite d x u) (rewrite c x u)
  | .succ s => .succ (rewrite s x u)
  | .add l r => .add (rewrite l x u) (rewrite r x u)
  | .mul l r => .mul (rewrite l x u) (rewrite r x u)
  | .eq l r => .eq (rewrite l x u) (rewrite r x u)
  | .and l r => .and (rewrite l x u) (rewrite r x u)
  | .or l r => .or (rewrite l x u) (rewrite r x u)
  | .rung l r => .rung (rewrite l x u) (rewrite r x u)
  | .zero => .zero
  | .nat => .nat
  | .never => .never
  | .any => .any
  | .hole => .hole
termination_by t.size
decreasing_by all_goals simp only [size_rename, size]; omega

end Peano.Formula
