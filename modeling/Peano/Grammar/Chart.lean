import Std.Data.TreeSet
import Peano.Grammar.Basic
namespace Peano.Grammar

variable {ν τ : Type} [DecidableEq ν] [Ord ν]
variable (g : Grammar ν τ)

/-- The first `dot` symbols of a rule stand between token `origin` and the column of the item. -/
structure Item where
  rule : Nat
  dot : Nat
  origin : Nat
  deriving DecidableEq, Repr, Ord

def Item.advance (it : Item) : Item := { it with dot := it.dot + 1 }

/-- The items of a column in the order in which they were added, and which of them wait for a
nonterminal. -/
structure Column (ν : Type) [DecidableEq ν] [Ord ν] where
  items : Array Item := #[]
  seen : Std.TreeSet Item := ∅
  waiting : Std.TreeMap ν (Array Item) := ∅

def next? (it : Item) : Option (Symbol ν τ) := (g.rhs it.rule)[it.dot]?

def lhs? (rule : Nat) : Option ν := g.rules[rule]?.map (·.lhs)

def Column.waitingFor (c : Column ν) (n : ν) : Array Item := c.waiting.getD n #[]

def Column.add (c : Column ν) (it : Item) : Column ν :=
  if c.seen.contains it then c
  else
    { items := c.items.push it
      seen := c.seen.insert it
      waiting :=
        match next? g it with
        | some (.nonterminal n) => c.waiting.insert n ((c.waiting.getD n #[]).push it)
        | _ => c.waiting }

def Column.addAll (c : Column ν) (items : List Item) : Column ν := items.foldl (fun c it => c.add g it) c

/-- The items that an item asks for: those that wait for what it completes, or all that may begin
where it stands. -/
def additions (earlier : Array (Column ν)) (c : Column ν) (it : Item) : List Item :=
  match next? g it with
  | none =>
    match lhs? g it.rule with
    | some n => (((earlier[it.origin]?).getD c).waitingFor n).toList.map Item.advance
    | none => []
  | some (.terminal ..) => []
  | some (.nonterminal n) =>
    (g.rulesFor n).map (fun r => ⟨r, 0, earlier.size⟩) ++ if g.isNullable n then [it.advance] else []

/-- Steps through the items from number `k` on, those added meanwhile included. -/
def Column.close (g : Grammar ν τ) (earlier : Array (Column ν)) : Nat → Nat → Column ν → Column ν
  | 0, _, c => c
  | fuel + 1, k, c =>
    match c.items[k]? with
    | some it => close g earlier fuel (k + 1) (c.addAll g (additions g earlier c it))
    | none => c

/-- How many different items a column after `earlier` columns may hold. -/
def itemBound (earlier : Nat) : Nat :=
  g.rules.toList.foldr (fun r n => (r.rhs.length + 1) * (earlier + 1) + n) 0

def Column.closure (earlier : Array (Column ν)) (c : Column ν) : Column ν :=
  c.close g earlier (itemBound g earlier.size + 1) 0

/-- The item behind the token, if the token is one it asks for. -/
def Item.across? (t : τ) (it : Item) : Option Item :=
  match next? g it with
  | some (.terminal _ accepts) => if accepts t then some it.advance else none
  | _ => none

/-- The items of the next column that come from reading a token. -/
def Column.scan (c : Column ν) (t : τ) : Column ν :=
  Column.addAll g {} (c.items.toList.filterMap (Item.across? g t))

def Column.expected (c : Column ν) : List String :=
  let labels := c.items.toList.filterMap fun it =>
    match next? g it with
    | some (.terminal label _) => some label
    | _ => none
  labels.eraseDups.mergeSort (· ≤ ·)

def firstColumn (start : ν) : Column ν :=
  (Column.addAll g {} ((g.rulesFor start).map fun r => ⟨r, 0, 0⟩)).closure g #[]

/-- A chart, or the number of the token no item gets across and the labels expected there. -/
def extend (g : Grammar ν τ) (columns : Array (Column ν)) (last : Column ν) :
    List τ → Except (Nat × List String) (Array (Column ν))
  | [] => .ok (columns.push last)
  | t :: rest =>
    let next := last.scan g t
    if next.items.isEmpty then .error (columns.size, last.expected g)
    else
      let columns := columns.push last
      extend g columns (next.closure g columns) rest

def chart (start : ν) (tokens : List τ) : Except (Nat × List String) (Array (Column ν)) :=
  extend g #[] (firstColumn g start) tokens

structure Stretch (ν : Type) where
  name : ν
  start : Nat
  stop : Nat
  deriving DecidableEq, Ord

structure Beginning (ν : Type) where
  name : ν
  start : Nat
  deriving DecidableEq, Ord

def Stretch.beginning (s : Stretch ν) : Beginning ν := ⟨s.name, s.start⟩

/-- For a nonterminal and a start all the stops up to which it is completed. -/
abbrev Stops (ν : Type) [DecidableEq ν] [Ord ν] := Std.TreeMap (Beginning ν) (Array Nat)

def Stops.add (stops : Stops ν) (s : Stretch ν) : Stops ν :=
  let old := stops.getD s.beginning #[]
  if s.stop ∈ old then stops else stops.insert s.beginning (old.push s.stop)

/-- The stretch that an item of column `j` completes. -/
def Item.stretch? (j : Nat) (it : Item) : Option (Stretch ν) :=
  match next? g it, lhs? g it.rule with
  | none, some n => some ⟨n, it.origin, j⟩
  | _, _ => none

def stretchesOf (columns : Array (Column ν)) : List (Stretch ν) :=
  columns.toList.zipIdx.flatMap fun (c, j) => c.items.toList.filterMap (Item.stretch? g j)

/-- What a chart completes, and how often. -/
structure Completions (ν : Type) [DecidableEq ν] [Ord ν] where
  count : Nat
  stops : Stops ν

def completions (columns : Array (Column ν)) : Completions ν :=
  let all := stretchesOf g columns
  ⟨all.length, all.foldl Stops.add ∅⟩

end Peano.Grammar
