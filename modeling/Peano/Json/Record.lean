import Peano.Json.Basic
import Peano.Number.Decimal
import Peano.Text.Fold
namespace Peano.Json

/-- The members of one or more objects, in order. -/
abbrev Members := List (String × Json)

def members? : Json → Option Members
  | .null => some []
  | .obj fields => some fields
  | _ => none

namespace Members

variable (m : Members)

def all (name : String) : List Json :=
  (m.filter fun (key, _) => Text.sameFold key name).map (·.2)

/-- The last value given under a name, whatever it is. -/
def raw (name : String) : Option Json := (m.all name).getLast?

/-- Reads values one after the other, each in place of what was read before. -/
def fold {α : Type} (read : Json → α → Option α) (m : Members) (name : String) (start : α) : Option α :=
  (m.all name).foldlM (fun a j => read j a) start

/-- The same, where `null` stands for what was read before. -/
def foldKnown {α : Type} (read : Json → α → Option α) (m : Members) (name : String) (start : α) : Option α :=
  m.fold (fun j a => match j with
    | .null => some a
    | j => read j a) name start

def str (name : String) : Option String := m.foldKnown (fun j _ => j.asStr?) name ""

/-- A number without fraction and exponent that fits into 64 bits. -/
def int (name : String) : Option Int :=
  m.foldKnown (fun j _ => match j with
    | .num t => (Number.int64Of t).toOption
    | _ => none) name 0

def bool (name : String) : Option Bool := m.foldKnown (fun j _ => j.asBool?) name false

def bool? (name : String) : Option (Option Bool) :=
  fold (fun j _ => match j with
    | .null => some none
    | j => j.asBool?.map some) m name none

/-- The members of a record; those of later objects come after those of earlier ones. -/
def record (name : String) : Option Members := m.foldKnown (fun j a => (members? j).map (a ++ ·)) name []

def record? (name : String) : Option (Option Members) :=
  fold (fun j a => match j with
    | .null => some none
    | .obj fields => some (some (a.getD [] ++ fields))
    | _ => none) m name none

def records (name : String) : Option (List Members) :=
  fold (fun j _ => match j with
    | .null => some []
    | .arr items => items.mapM members?
    | _ => none) m name []

end Members

end Peano.Json
