namespace Peano.Toml

/-- A path of names, from the outermost table on. -/
abbrev Key := List String

/-- Numbers with a fraction, dates and times are not told apart. -/
inductive Value where
  | text (s : String)
  | integer (n : Int)
  | boolean (b : Bool)
  | other
  | array (items : List Value)
  | table (entries : List (String × Value))
  | tables (items : List (List (String × Value)))
  deriving Repr, Inhabited

abbrev Table := List (String × Value)

namespace Table

/-- Puts a value in place of that of a name, or at the end. -/
def put (t : Table) (name : String) (v : Value) : Table :=
  match t with
  | [] => [(name, v)]
  | (n, w) :: rest => if n = name then (name, v) :: rest else (n, w) :: put rest name v

def change (t : Table) (path : Key) (f : Table → Option Table) : Option Table :=
  match path with
  | [] => f t
  | name :: rest =>
    match t.lookup name with
    | some (.table inner) => (change inner rest f).map fun u => put t name (.table u)
    | some (.tables items) => do
      let u ← change (← items.getLast?) rest f
      return put t name (.tables (items.dropLast ++ [u]))
    | _ => none

end Table

/-- A document under construction. A table that was only passed through may still be written out, and an
array may be replaced. -/
structure Draft where
  root : Table := []
  passed : List Key := []
  arrays : List Key := []
  keys : List Key := []

namespace Draft

def note (d : Draft) (key : Key) : Draft := { d with keys := d.keys ++ [key] }

def pass (d : Draft) (key : Key) : Draft := { d with passed := key :: d.passed }

def unpass (d : Draft) (key : Key) : Draft := { d with passed := d.passed.filter (· ≠ key) }

def has (d : Draft) (path : Key) (name : String) : Bool :=
  ((d.root.change path fun t => if (t.lookup name).isSome then some t else none)).isSome

def mapRoot (d : Draft) (f : Table → Option Table) : Option Draft :=
  (f d.root).map fun root => { d with root }

def set (d : Draft) (path : Key) (name : String) (v : Value) : Option Draft :=
  let key := path ++ [name]
  if d.has path name then
    if d.arrays.contains key then
      (d.unpass key).mapRoot (Table.change · path fun t => some (t.put name v))
    else if d.passed.contains key then some (d.unpass key)
    else none
  else d.mapRoot (Table.change · path fun t => some (t.put name v))

/-- Makes the tables on the way to a path, as far as they are missing. -/
def reach (d : Draft) (done : Key) : Key → Option Draft
  | [] => some d
  | name :: rest => do
    let here := done ++ [name]
    if d.has done name then
      let _ ← d.root.change here some
      d.reach here rest
    else
      let d ← d.mapRoot (Table.change · done fun t => some (t.put name (.table [])))
      (d.pass here).reach here rest

def startTable (d : Draft) (key : Key) : Option Draft := do
  let name ← key.getLast?
  let d ← d.reach [] key.dropLast
  d.set key.dropLast name (.table [])

/-- Starts one more table in the list of tables at a path. -/
def startItem (d : Draft) (key : Key) : Option Draft := do
  let name ← key.getLast?
  let d ← d.reach [] key.dropLast
  d.mapRoot (Table.change · key.dropLast fun t => match t.lookup name with
    | none => some (t.put name (.tables [[]]))
    | some (.tables items) => some (t.put name (.tables (items ++ [[]])))
    | some _ => none)

def passThrough (d : Draft) (path : Key) (names : Key) : Option (Draft × Key) :=
  match names with
  | [] => some (d, path)
  | name :: rest => do
    let here := path ++ [name]
    let d ← (d.pass here).startTable here
    d.passThrough here rest

def markArray (d : Draft) (key : Key) : Draft := { d with arrays := key :: d.arrays }

def unmarkArray (d : Draft) (key : Key) : Draft := { d with arrays := d.arrays.filter (· ≠ key) }

end Draft
end Peano.Toml
