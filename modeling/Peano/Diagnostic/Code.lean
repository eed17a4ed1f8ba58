namespace Peano.Diagnostic

structure Code where
  number : UInt16
  deriving DecidableEq, Repr, Inhabited

namespace Code

def unknown : Code := ⟨0⟩
def unknownCharacter : Code := ⟨1001⟩
def illegalName : Code := ⟨1002⟩
def unterminatedComment : Code := ⟨1003⟩
def unexpectedToken : Code := ⟨2001⟩
def unexpectedEnd : Code := ⟨2002⟩
def ambiguous : Code := ⟨2003⟩
def invalidTag : Code := ⟨2004⟩
def typeError : Code := ⟨3001⟩
def notAssignable : Code := ⟨3002⟩
def unknownVariable : Code := ⟨3003⟩
def unknownGeneric : Code := ⟨3004⟩
def wrongReturnKind : Code := ⟨3005⟩
def missingReturn : Code := ⟨3006⟩
def shapeMismatch : Code := ⟨3007⟩
def badInduction : Code := ⟨3008⟩
def unconstrained : Code := ⟨3009⟩
def badTypeExpression : Code := ⟨3010⟩
def badDestructuring : Code := ⟨3011⟩
def builtinMisuse : Code := ⟨3012⟩
def loadError : Code := ⟨5001⟩

def family? (c : Code) : Option String :=
  match c.number.toNat / 1000 with
  | 1 => some "LEX"
  | 2 => some "SYN"
  | 3 => some "SEM"
  | 4 => some "RUN"
  | 5 => some "IO"
  | _ => none

def id (c : Code) : String :=
  match c.family? with
  | some letters => letters ++ toString c.number
  | none => "E0000"

def title (c : Code) : String :=
  match c.number with
  | 1000 => "Lexical information"
  | 1001 => "Unknown character"
  | 1002 => "Illegal identifier"
  | 1003 => "Unterminated block comment"
  | 2000 => "Syntax information"
  | 2001 => "Unexpected token"
  | 2002 => "Unexpected end of code"
  | 2003 => "Grammar ambiguity"
  | 2004 => "Invalid property for makeOr"
  | 3000 => "Type checking information"
  | 3001 => "Type error"
  | 3002 => "Type is not assignable"
  | 3003 => "Unknown variable"
  | 3004 => "Unknown generic"
  | 3005 => "Wrong terminal statement"
  | 3006 => "Block does not end in a terminal statement"
  | 3007 => "Value has the wrong shape"
  | 3008 => "Malformed for loop"
  | 3009 => "Type cannot be inferred"
  | 3010 => "Invalid type expression"
  | 3011 => "Invalid destructuring assignment"
  | 3012 => "Invalid use of a built-in"
  | 3013 => "Internal checker error"
  | 4000 => "Runtime information"
  | 4001 => "Runtime error"
  | 4002 => "Execution was killed"
  | 4003 => "Execution timed out"
  | 5000 => "I/O information"
  | 5001 => "I/O load file error"
  | 5002 => "Cache error"
  | 5003 => "Configuration error"
  | 5004 => "Unknown configuration key"
  | _ => "Unknown error"

def text (c : Code) : String := "[" ++ c.id ++ "]: " ++ c.title

end Code
end Peano.Diagnostic
