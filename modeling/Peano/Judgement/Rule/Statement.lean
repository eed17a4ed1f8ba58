import Peano.Judgement.Record
namespace Peano.Judgement
open Syntax (Name Rename TypeParam TypeExpr Place)

/-- What a block has come to: what is in scope, and its definitions so far. -/
structure Progressed where
  scope : Scope
  bindings : List Binding

/-- Where a name is in scope that a statement of a block defines. -/
def visibleAfter (statement block : Place) : Place :=
  match statement, block with
  | some s, some b => some ⟨s.stop, b.stop⟩
  | _, _ => none

/-- Adds a definition; those of the program itself are noted for its logs. -/
def bind (isProgram : Bool) (b : Binding) (bindings : List Binding) : Noting (List Binding) := do
  if isProgram then modify fun n => { n with setup := n.setup.push b }
  return bindings ++ [b]

/-- A definition. With a written type the name has that type, whatever the value's is. -/
def defineRule (isProgram : Bool) (visible : Place) (name : Name) (assertion : Option TypeExpr)
    (value : Option Formula → Noting Typed) (before : Progressed) : Noting (Progressed × Option Error) := do
  let asserted ← resolveType? before.scope assertion
  let v ← value asserted
  let type := asserted.getD v.type
  note (.hover name.place v.type)
  match Scope.tag type with
  | .error why => return (before, some (.untaggable why))
  | .ok entry =>
    unless isProgram do note (.defined visible name.text type)
    let bindings ← bind isProgram (.define name.text v.realizer) before.bindings
    return (⟨before.scope.insert name.text entry, bindings⟩, none)

/-- The fields taken out of a pair so far: the names of the number and of the property, and how
fields are renamed. -/
structure Taken where
  scope : Scope
  number : Option String
  property : Option String
  renamed : List (String × String)

def takeField (visible : Place) (number property : String) (statement : Formula) (r : Rename)
    (t : Taken) : Noting (Taken × Option Error) := do
  let target := r.target
  let found : Option (Formula × Taken) :=
    if r.field.text == number then
      some (.var target.text, { t with
        number := some target.text
        renamed := t.renamed ++ [(r.field.text, target.text)] })
    else if r.field.text == property then
      some (t.renamed.foldl (fun s (x, y) => s.rewrite x (.var y)) statement,
        { t with property := some target.text })
    else none
  match found with
  | none => return (t, some (.fieldNotInStruct r.field.text (.struct number property statement)))
  | some (type, t) =>
    note (.defined visible target.text type)
    note (.hover target.place type)
    match Scope.tag type with
    | .error why => return (t, some (.untaggable why))
    | .ok entry => return ({ t with scope := t.scope.insert target.text entry }, none)

def destructureRule (isProgram : Bool) (visible : Place) (first second : Rename)
    (value : Noting Typed) (before : Progressed) : Noting (Progressed × Option Error) := do
  let v ← value
  match v.type with
  | .struct number property statement =>
    let (t, failed) ← takeField visible number property statement first ⟨before.scope, none, none, []⟩
    if let some e := failed then return ({ before with scope := t.scope }, some e)
    let (t, failed) ← takeField visible number property statement second t
    if let some e := failed then return ({ before with scope := t.scope }, some e)
    match t.number, t.property with
    | some n, some p =>
      let bindings ← bind isProgram (.unpack n p v.realizer) before.bindings
      return (⟨t.scope, bindings⟩, none)
    | _, _ => return ({ before with scope := t.scope }, some .incompleteDestructuring)
  | other => return (before, some (.notAStruct other))

def genericParams (scope : Scope) : List TypeParam → Except Error (List Scope.Param × Scope)
  | [] => .ok ([], scope)
  | p :: rest => do
    let x := p.name.text
    let (constraint, type) : Scope.Constraint × Formula ← match p.constraint.text with
      | "N" => .ok (.number, .var x)
      | "Prop" => .ok (.statement, .typeVar x)
      | _ => .error .parameterConstraint
    let (params, inner) ← genericParams (scope.insert x (.typedef type)) rest
    return (⟨x, constraint⟩ :: params, inner)

def genericRuleFor (name : Name) (params : List TypeParam) (type : TypeExpr) (scope : Scope) :
    Noting (Scope × Option Error) := do
  match genericParams scope params with
  | .error e => return (scope, some e)
  | .ok (params, inner) =>
    let body ← resolveType inner type
    return (scope.insert name.text (.generic params body), none)

/-- How far the program has come with its exercise. -/
def exerciseRule (exercise : Option Exercise) (scope : Scope) : Noting Unit := do
  match exercise with
  | none => pure ()
  | some e =>
    let found := scope.find? e.name
    let typed ← match found with
      | some (.proof t) => same t e.statement
      | _ => pure false
    modify fun n =>
      { n with progress := { n.progress with isDefined := found.isSome, isTyped := typed } }

end Peano.Judgement
