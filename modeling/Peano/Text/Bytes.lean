namespace Peano

abbrev Bytes := List UInt8

namespace Text

/-- One step of reading UTF-8: a character, or a byte that belongs to none. -/
inductive Rune where
  | char (c : Char)
  | bad (b : UInt8)
  deriving DecidableEq, Repr

def Rune.shown : Rune → Char
  | .char c => c
  | .bad _ => '�'

def Rune.size : Rune → Nat
  | .char c => c.utf8Size
  | .bad _ => 1

def Rune.bytes : Rune → Bytes
  | .char c => (String.singleton c).toUTF8.toList
  | .bad b => [b]

/-- How many UTF-16 code units a rune takes. -/
def Rune.units : Rune → Nat
  | .char c => if c.toNat > 0xFFFF then 2 else 1
  | .bad _ => 1

def isTail (b : UInt8) : Bool := 0x80 ≤ b && b ≤ 0xBF

/-- The character with this code, if it is at least `least` and no surrogate. -/
def scalar? (least code : Nat) : Option Char :=
  if least ≤ code ∧ code.isValidChar then some (Char.ofNat code) else none

/-- The character that starts with byte `b` and goes on in `rest`, and how many bytes of `rest`
belong to it. -/
def leading? (b : UInt8) (rest : Bytes) : Option (Char × Nat) :=
  let high := b.toNat
  if high < 0x80 then some (Char.ofNat high, 0)
  else if high < 0xC0 then none
  else if high < 0xE0 then
    match rest with
    | c :: _ =>
      if isTail c then
        (scalar? 0x80 ((high - 0xC0) * 64 + (c.toNat - 0x80))).map (·, 1)
      else none
    | _ => none
  else if high < 0xF0 then
    match rest with
    | c :: d :: _ =>
      if isTail c && isTail d then
        (scalar? 0x800 (((high - 0xE0) * 64 + (c.toNat - 0x80)) * 64 + (d.toNat - 0x80))).map (·, 2)
      else none
    | _ => none
  else if high < 0xF8 then
    match rest with
    | c :: d :: e :: _ =>
      if isTail c && isTail d && isTail e then
        (scalar? 0x10000 ((((high - 0xF0) * 64 + (c.toNat - 0x80)) * 64 + (d.toNat - 0x80)) * 64 +
          (e.toNat - 0x80))).map (·, 3)
      else none
    | _ => none
  else none

def runes : Bytes → List Rune
  | [] => []
  | b :: rest =>
    match leading? b rest with
    | some (c, n) => .char c :: runes (rest.drop n)
    | none => .bad b :: runes rest
termination_by bs => bs.length
decreasing_by all_goals simp [List.length_drop]; try omega

end Text

namespace Bytes
open Text

def ofString (s : String) : Bytes := s.toUTF8.toList

/-- The text with U+FFFD for every byte that belongs to no character. -/
def toText (bs : Bytes) : String := String.ofList ((runes bs).map Rune.shown)

def isAscii (bs : Bytes) : Bool := bs.all (· < 0x80)

end Bytes
end Peano
