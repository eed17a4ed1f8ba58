import Peano.Text.Bytes
import Peano.Text.Printable
namespace Peano.Text

def hexDigits (width n : Nat) : String :=
  let digits := Nat.toDigits 16 n
  String.ofList (List.replicate (width - digits.length) '0' ++ digits)

def escapeChar (c : Char) : String :=
  if c == '"' then "\\\"" else if c == '\\' then "\\\\"
  else if isPrintable c then String.singleton c
  else match c.toNat with
    | 7 => "\\a"
    | 8 => "\\b"
    | 9 => "\\t"
    | 10 => "\\n"
    | 11 => "\\v"
    | 12 => "\\f"
    | 13 => "\\r"
    | n =>
      if n < 0x80 then "\\x" ++ hexDigits 2 n
      else if n < 0x10000 then "\\u" ++ hexDigits 4 n
      else "\\U" ++ hexDigits 8 n

def Rune.escaped : Rune → String
  | .char c => escapeChar c
  | .bad b => "\\x" ++ hexDigits 2 b.toNat

def quoteBytes (bs : Bytes) : String :=
  "\"" ++ String.join ((runes bs).map Rune.escaped) ++ "\""

def quote (s : String) : String :=
  "\"" ++ String.join (s.toList.map escapeChar) ++ "\""

end Peano.Text

namespace Peano.Bytes

def hex (bs : Bytes) : String := String.join (bs.map fun b => Text.hexDigits 2 b.toNat)

def ofHexChars : List Char → Bytes
  | a :: b :: rest => (Text.hexDigit a * 16 + Text.hexDigit b).toUInt8 :: ofHexChars rest
  | _ => []

def ofHex (s : String) : Bytes := ofHexChars s.toList

end Peano.Bytes
