import Peano.Grammar.Chart
namespace Peano.Grammar

variable {ν τ : Type} [DecidableEq ν] [Ord ν]

/-- A node carries the number of its rule. -/
inductive Tree (τ : Type) where
  | leaf (token : τ)
  | node (rule : Nat) (kids : List (Tree τ))
  deriving Inhabited

/-- A number of derivations, as far as it matters. -/
inductive Amount where
  | none
  | one
  | many
  deriving DecidableEq, Repr

namespace Amount

def add : Amount → Amount → Amount
  | .none, x => x
  | x, .none => x
  | _, _ => .many

def mul : Amount → Amount → Amount
  | .none, _ => .none
  | _, .none => .none
  | .one, .one => .one
  | _, _ => .many

end Amount

/-- How many derivations a stretch has, as far as it is known. -/
inductive Entry where
  | pending
  | known (amount : Amount)

/-- The rest of a rule from `dot` on, over the tokens from `start` to `stop`. -/
structure Remainder where
  rule : Nat
  dot : Nat
  start : Nat
  stop : Nat
  deriving DecidableEq, Ord

structure Memo (ν : Type) [Ord ν] where
  stretches : Std.TreeMap (Stretch ν) Entry := ∅
  remainders : Std.TreeMap Remainder Amount := ∅

abbrev Counting (ν : Type) [Ord ν] := StateM (Memo ν)

/-- Where a part of a stretch may stop. -/
def Completions.stopsWithin (c : Completions ν) (stop : Nat) (n : ν) (start : Nat) : List Nat :=
  (c.stops.getD ⟨n, start⟩ #[]).toList.filter (· ≤ stop)

/-- Sums over what is given, and stops as soon as there are many if it may be hasty. -/
def sumOver (hasty : Bool) (ways : Nat → Counting ν Amount) : Amount → List Nat → Counting ν Amount
  | total, [] => pure total
  | total, k :: rest => do
    let total := total.add (← ways k)
    if hasty && total == .many then pure .many
    else sumOver hasty ways total rest

/-- The ways to read a first part up to a stop and the others from there on. -/
def dividedAt (first others : Nat → Counting ν Amount) (stop : Nat) : Counting ν Amount := do
  match ← first stop with
  | .none => pure .none
  | amount => pure (amount.mul (← others stop))

section
variable (g : Grammar ν τ) (tokens : Array τ) (done : Completions ν)

/-- The number of ways to read the tokens from `start` to `stop` as the symbols of `rule` from `dot`
on. -/
def restAmount (amount : Stretch ν → Counting ν Amount) (rule stop : Nat) :
    List (Symbol ν τ) → Nat → Nat → Counting ν Amount
  | [], _, start => pure (if start = stop then .one else .none)
  | s :: rest, dot, start => do
    match (← get).remainders[(⟨rule, dot, start, stop⟩ : Remainder)]? with
    | some known => pure known
    | none =>
      let total ← match s with
        | .terminal _ accepts =>
          match tokens[start]? with
          | some t =>
            if start < stop && accepts t then restAmount amount rule stop rest (dot + 1) (start + 1)
            else pure .none
          | none => pure .none
        | .nonterminal n =>
          sumOver true (dividedAt (fun m => amount ⟨n, start, m⟩)
            (fun m => restAmount amount rule stop rest (dot + 1) m)) .none (done.stopsWithin stop n start)
      modify fun memo =>
        { memo with remainders := memo.remainders.insert ⟨rule, dot, start, stop⟩ total }
      pure total

/-- The number of derivations of a stretch. A stretch met again while it is being counted has many.
The fuel bounds how deep distinct stretches nest. -/
def amount : Nat → Stretch ν → Counting ν Amount
  | 0, _ => pure .many
  | fuel + 1, s => do
    match (← get).stretches[s]? with
    | some .pending => pure .many
    | some (.known found) => pure found
    | none =>
      if s.stop ∈ done.stops.getD s.beginning #[] then
        modify fun memo => { memo with stretches := memo.stretches.insert s .pending }
        let parts r := restAmount tokens done (amount fuel) r s.stop (g.rhs r) 0 s.start
        let found ← sumOver false parts .none (g.rulesFor s.name)
        modify fun memo => { memo with stretches := memo.stretches.insert s (.known found) }
        pure found
      else pure .none

end

/-- How the walk along a derivation goes wrong. -/
inductive Stray (ν : Type) where
  | underived (stretch : Stretch ν)
  | lost (lhs : ν) (start : Nat)
  | beyond (index : Nat)
  deriving DecidableEq

def Stray.message (name : ν → String) : Stray ν → String
  | .underived ⟨n, start, stop⟩ => s!"earley: no derivation of {name n} over [{start},{stop})"
  | .lost n start => s!"earley: lost derivation of {name n} at {start}"
  | .beyond index => s!"runtime error: index out of range [{index}]"

inductive Failure (ν : Type) where
  | unfinished
  | ambiguous
  | unexpected (index : Nat) (expected : List String)
  | stray (s : Stray ν)
  deriving DecidableEq

def Failure.message (name : ν → String) (tokens : List String) : Failure ν → String
  | .unfinished => "earley: input ended before a complete parse"
  | .ambiguous => "earley: ambiguous input"
  | .unexpected index expected =>
    let word := tokens.getD index ""
    s!"earley: unexpected token {word} at {index}" ++
      if expected.isEmpty then "" else " (expected " ++ String.intercalate ", " expected ++ ")"
  | .stray s => s.message name

/-- How derivations get values: what a token is worth, and what some rules make of the values of their
parts. -/
structure Actions (τ α ε : Type) where
  token : τ → α
  list : List α → α
  action? : Nat → Option (List α → Except ε α)

/-- What a rule makes of the values of its parts. Without an action it hands on the value of its only
part, or the list of them all. -/
def Actions.node {α ε : Type} (acts : Actions τ α ε) (rule : Nat) (values : List α) : Except ε α :=
  match acts.action? rule, values with
  | some action, _ => action values
  | none, [v] => .ok v
  | none, _ => .ok (acts.list values)

inductive NoValue (ν ε : Type) where
  | failure (f : Failure ν)
  | action (e : ε)
  deriving DecidableEq

abbrev Walking (ν ε : Type) [Ord ν] := ExceptT (NoValue ν ε) (Counting ν)

def goAstray {α ε : Type} (s : Stray ν) : Walking ν ε α := throw (.failure (.stray s))

/-- The first one that there is a way for. -/
def firstOf? (ways : Nat → Counting ν Amount) : List Nat → Counting ν (Option Nat)
  | [] => pure none
  | k :: rest => do
    match ← ways k with
    | .none => firstOf? ways rest
    | _ => pure (some k)

section
variable {α ε : Type} (g : Grammar ν τ) (acts : Actions τ α ε) (tokens : Array τ) (done : Completions ν)
variable (amount : Stretch ν → Counting ν Amount)

/-- Walks along the symbols of `rule` from `dot` on. Terminals are not compared again. -/
def walkRest (walk : Stretch ν → Walking ν ε α) (lhs : ν) (rule stop : Nat) :
    List (Symbol ν τ) → Nat → Nat → Walking ν ε (List α)
  | [], _, _ => pure []
  | .terminal .. :: rest, dot, start =>
    match tokens[start]? with
    | some t => do
      let values ← walkRest walk lhs rule stop rest (dot + 1) (start + 1)
      pure (acts.token t :: values)
    | none => goAstray (.beyond start)
  | .nonterminal n :: rest, dot, start => do
    let others m := restAmount tokens done amount rule stop rest (dot + 1) m
    match ← firstOf? (dividedAt (fun m => amount ⟨n, start, m⟩) others) (done.stopsWithin stop n start) with
    | some m =>
      let value ← walk ⟨n, start, m⟩
      let values ← walkRest walk lhs rule stop rest (dot + 1) m
      pure (value :: values)
    | none => goAstray (.lost lhs start)

/-- Walks along the derivation of a stretch by the first rule and the first stops that counting allows,
and makes its value on the way. The fuel bounds how deep distinct stretches nest. -/
def walk : Nat → Stretch ν → Walking ν ε α
  | 0, s => goAstray (.underived s)
  | fuel + 1, s => do
    let parts r := restAmount tokens done amount r s.stop (g.rhs r) 0 s.start
    match ← firstOf? parts (g.rulesFor s.name) with
    | some r =>
      let values ← walkRest acts tokens done amount (walk fuel) s.name r s.stop (g.rhs r) 0 s.start
      match acts.node r values with
      | .ok v => pure v
      | .error e => throw (.action e)
    | none => goAstray (.underived s)

end

/-- The counts that stretches get, with fuel for as many as are completed. -/
def amountOf (g : Grammar ν τ) (tokens : List τ) (done : Completions ν) : Stretch ν → Counting ν Amount :=
  amount g tokens.toArray done (done.count + 1)

/-- What is known of tokens that have exactly one derivation. -/
def recognize (g : Grammar ν τ) (start : ν) (tokens : List τ) : Except (Failure ν) (Completions ν × Memo ν) :=
  match chart g start tokens with
  | .error (index, expected) => .error (.unexpected index expected)
  | .ok columns =>
    let done := completions g columns
    match (amountOf g tokens done ⟨start, 0, tokens.length⟩).run {} with
    | (.none, _) => .error .unfinished
    | (.many, _) => .error .ambiguous
    | (.one, memo) => .ok (done, memo)

def follow {α ε : Type} (g : Grammar ν τ) (acts : Actions τ α ε) (start : ν) (tokens : List τ)
    (done : Completions ν) (memo : Memo ν) : Except (NoValue ν ε) α :=
  let whole := walk g acts tokens.toArray done (amountOf g tokens done) (done.count + 1)
    ⟨start, 0, tokens.length⟩
  (whole.run.run memo).1

def interpret {α ε : Type} (g : Grammar ν τ) (acts : Actions τ α ε) (start : ν) (tokens : List τ) :
    Except (NoValue ν ε) α :=
  match recognize g start tokens with
  | .error f => .error (.failure f)
  | .ok (done, memo) => follow g acts start tokens done memo

/-- A tree is the value of the derivation that it stands for. -/
def treeActions : Actions τ (Tree τ) Empty where
  token := .leaf
  list := .node 0
  action? rule := some fun kids => .ok (.node rule kids)

def parse (g : Grammar ν τ) (start : ν) (tokens : List τ) : Except (Failure ν) (Tree τ) :=
  match interpret g treeActions start tokens with
  | .ok tree => .ok tree
  | .error (.failure f) => .error f
  | .error (.action e) => e.elim

end Peano.Grammar
