namespace Peano

/-- `arrow` with domain `nat` says "for all", any other arrow says "implies"; `struct` says "there is".
`rung` is an equation up to the laws of semirings, `any` fits everything and `hole` is a part that
was left out. -/
inductive Formula where
  | var (name : String)
  | zero
  | succ (of : Formula)
  | add (left right : Formula)
  | mul (left right : Formula)
  | nat
  | eq (left right : Formula)
  | and (left right : Formula)
  | or (left right : Formula)
  | arrow (name : String) (domain codomain : Formula)
  | struct (number property : String) (statement : Formula)
  | never
  | any
  | rung (left right : Formula)
  | typeVar (name : String)
  | hole
  deriving DecidableEq, Repr, Inhabited

namespace Formula

def not (t : Formula) : Formula := .arrow "_" t .never

def numeral : Nat → Formula
  | 0 => .zero
  | n + 1 => .succ (numeral n)

/-- The number a closed chain of successors stands for; `seen` successors stand before it. -/
def numeralFrom? (seen : Nat) : Formula → Option Nat
  | .zero => some seen
  | .succ t => numeralFrom? (seen + 1) t
  | _ => none

def numeral? (t : Formula) : Option Nat := numeralFrom? 0 t

def isArithmetic : Formula → Bool
  | .var _ | .zero | .succ _ | .add .. | .mul .. => true
  | _ => false

def isAny : Formula → Bool
  | .any => true
  | _ => false

def isNat : Formula → Bool
  | .nat => true
  | _ => false

def size : Formula → Nat
  | .succ t => t.size + 1
  | .add l r | .mul l r | .eq l r | .and l r | .or l r | .rung l r => l.size + r.size + 1
  | .arrow _ d c => d.size + c.size + 1
  | .struct _ _ p => p.size + 1
  | _ => 1

def text : Formula → String
  | .hole => "Any"
  | .any => "any"
  | .var x => x
  | .typeVar x => x
  | .zero => "0"
  | .succ t =>
    match numeral? (.succ t) with
    | some n => toString n
    | none => "succ(" ++ t.text ++ ")"
  | .nat => "N"
  | .never => "never"
  | .rung l r => "rung<(" ++ l.text ++ " == " ++ r.text ++ ")>"
  | .add l r => "(" ++ l.text ++ " + " ++ r.text ++ ")"
  | .mul l r => "(" ++ l.text ++ " * " ++ r.text ++ ")"
  | .eq l r => "(" ++ l.text ++ " == " ++ r.text ++ ")"
  | .and l r => "(" ++ l.text ++ " && " ++ r.text ++ ")"
  | .or l r => "(" ++ l.text ++ " || " ++ r.text ++ ")"
  | .struct n p t => "\x7b" ++ n ++ ": N; " ++ p ++ ": " ++ t.text ++ "\x7d"
  | .arrow _ (.eq l r) .never => "(" ++ l.text ++ " != " ++ r.text ++ ")"
  | .arrow x .nat c => "(" ++ x ++ ": N) => " ++ c.text
  | .arrow _ d .never => "!( " ++ d.text ++ " )"
  | .arrow x d c => "(" ++ x ++ ": " ++ d.text ++ ") => " ++ c.text

end Formula
end Peano
