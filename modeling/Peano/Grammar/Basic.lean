import Std.Data.TreeMap
import Peano.Text.Quoted
namespace Peano

namespace Grammar

variable {ν τ : Type}

/-- A terminal accepts some tokens and has a label for messages. -/
inductive Symbol (ν τ : Type) where
  | nonterminal (name : ν)
  | terminal (label : String) (accepts : τ → Bool)

structure Rule (ν τ : Type) where
  lhs : ν
  rhs : List (Symbol ν τ)

def Symbol.nonterminal? : Symbol ν τ → Option ν
  | .nonterminal n => some n
  | .terminal .. => none

/-- A part of a rule whose terminals are data. -/
inductive Part (ν κ : Type) where
  | phrase (name : ν)
  | token (terminal : κ)
  deriving DecidableEq, Repr

def Part.symbol {κ : Type} (label : κ → String) (accepts : κ → τ → Bool) : Part ν κ → Symbol ν τ
  | .phrase n => .nonterminal n
  | .token k => .terminal (label k) (accepts k)

/-- The nonterminals a rule mentions, its left-hand side first. -/
def Rule.mentions (r : Rule ν τ) : List ν := r.lhs :: r.rhs.filterMap Symbol.nonterminal?

section
variable [DecidableEq ν]
variable (rules : List (Rule ν τ))

/-- Whether a symbol vanishes, given nonterminals that do. -/
def Symbol.vanishes (known : List ν) : Symbol ν τ → Bool
  | .nonterminal n => known.contains n
  | .terminal .. => false

/-- One pass over the rules: adds every left-hand side whose right-hand side vanishes. -/
def nullablePass (known : List ν) : List (Rule ν τ) → List ν
  | [] => known
  | r :: rest =>
    if !known.contains r.lhs && r.rhs.all (Symbol.vanishes known) then
      nullablePass (known ++ [r.lhs]) rest
    else nullablePass known rest

/-- Passes until one of them adds nothing, at most as many as there may be new nonterminals. -/
def nullablePasses (rules : List (Rule ν τ)) : Nat → List ν → List ν
  | 0, known => known
  | n + 1, known =>
    let more := nullablePass known rules
    if more.length = known.length then known else nullablePasses rules n more

def nullables : List ν := nullablePasses rules rules.length []

/-- The nonterminals of some rules in the order in which they are first mentioned. -/
def mentioned : List ν := (rules.flatMap Rule.mentions).eraseDups

/-- The left-hand sides of some rules, each once, in the order of the rules. -/
def heads : List ν := (rules.map Rule.lhs).eraseDups

end

/-- The numbers of the rules for each nonterminal, from rule number `i` on. -/
def indexRules [Ord ν] (i : Nat) (index : Std.TreeMap ν (List Nat)) :
    List (Rule ν τ) → Std.TreeMap ν (List Nat)
  | [] => index
  | r :: rest => indexRules (i + 1) (index.insert r.lhs (index.getD r.lhs [] ++ [i])) rest

end Grammar

/-- Rules with what is looked up in them all the time. -/
structure Grammar (ν τ : Type) [DecidableEq ν] [Ord ν] where
  rules : Array (Grammar.Rule ν τ)
  nullable : List ν
  index : Std.TreeMap ν (List Nat)
  nullable_eq : nullable = Grammar.nullables rules.toList
  index_eq : index = Grammar.indexRules 0 ∅ rules.toList

namespace Grammar

variable {ν τ : Type} [DecidableEq ν] [Ord ν]

def ofRules (rules : List (Rule ν τ)) : Grammar ν τ where
  rules := rules.toArray
  nullable := nullables rules
  index := indexRules 0 ∅ rules
  nullable_eq := rfl
  index_eq := rfl

def rulesFor (g : Grammar ν τ) (n : ν) : List Nat := g.index.getD n []

def rhs (g : Grammar ν τ) (rule : Nat) : List (Symbol ν τ) :=
  match g.rules[rule]? with
  | some r => r.rhs
  | none => []

def isNullable (g : Grammar ν τ) (n : ν) : Bool := g.nullable.contains n

/-- What makes a list of rules with named nonterminals no grammar. -/
inductive Defect where
  | emptySymbol (lhs : String)
  | noRules (name : String)
  deriving DecidableEq, Repr

def Defect.message : Defect → String
  | .emptySymbol lhs => "earley: rule " ++ lhs ++ ": empty symbol"
  | .noRules name => "earley: nonterminal " ++ Text.quote name ++ " has no rules"

def defect? (rules : List (Rule String τ)) : Option Defect :=
  let nameless (r : Rule String τ) : Bool := (r.rhs.filterMap Symbol.nonterminal?).contains ""
  match rules.find? nameless with
  | some r => some (.emptySymbol r.lhs)
  | none =>
    ((mentioned rules).find? fun n => !rules.any (·.lhs == n)).map .noRules

def ofNamedRules (rules : List (Rule String τ)) : Except Defect (Grammar String τ) :=
  match defect? rules with
  | some d => .error d
  | none => .ok (ofRules rules)

/-- The complaint about a start that has no rules. -/
def unknownStart? (g : Grammar String τ) (start : String) : Option String :=
  if (g.rulesFor start).isEmpty then some ("earley: unknown start symbol " ++ Text.quote start) else none

end Grammar
end Peano
