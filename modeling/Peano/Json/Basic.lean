import Peano.Text.Bytes
namespace Peano

inductive Json where
  | null
  | bool (b : Bool)
  | num (text : String)
  | str (s : String)
  | text (bs : Bytes)
  | arr (items : List Json)
  | obj (fields : List (String × Json))
  deriving Repr, Inhabited

namespace Json

def nat (n : Nat) : Json := .num (toString n)

def int (n : Int) : Json := .num (toString n)

def strs (items : List String) : Json := .arr (items.map .str)

/-- The members of an object that are present. -/
def present (fields : List (String × Option Json)) : Json :=
  .obj (fields.filterMap fun (name, value) => value.map (name, ·))

def get? (key : String) : Json → Option Json
  | .obj fields => (fields.reverse.find? (·.1 == key)).map (·.2)
  | _ => none

def isNull : Json → Bool
  | .null => true
  | _ => false

def asStr? : Json → Option String
  | .str s => some s
  | .text bs => some bs.toText
  | _ => none

def asBool? : Json → Option Bool
  | .bool b => some b
  | _ => none

def asArr? : Json → Option (List Json)
  | .arr items => some items
  | _ => none

/-- A number written without fraction and exponent. -/
def asInt? : Json → Option Int
  | .num t =>
    match t.toList with
    | '-' :: digits => if digits.all Char.isDigit then (String.ofList digits).toNat?.map (-Int.ofNat ·) else none
    | digits => if digits.all Char.isDigit then (String.ofList digits).toNat?.map Int.ofNat else none
  | _ => none

end Json
end Peano
