namespace Peano.Text

inductive Attribute where
  | bold
  | faint
  | red
  | green
  | yellow
  | blue
  | cyan
  deriving DecidableEq, Repr

namespace Attribute

def code : Attribute → Nat
  | bold => 1
  | faint => 2
  | red => 31
  | green => 32
  | yellow => 33
  | blue => 34
  | cyan => 36

/-- Weights have a code that switches them off; colours go by switching everything off. -/
def offCode : Attribute → Nat
  | bold | faint => 22
  | _ => 0

end Attribute

def escapeSequence (codes : List Nat) : String :=
  "\x1b[" ++ String.intercalate ";" (codes.map toString) ++ "m"

def styled (colored : Bool) (attributes : List Attribute) (text : String) : String :=
  if colored then
    escapeSequence (attributes.map Attribute.code) ++ text ++
      escapeSequence (attributes.map Attribute.offCode)
  else text

end Peano.Text
