import Peano.Json.Basic
import Peano.Text.Quoted
namespace Peano.Json
open Text

def escaped (web : Bool) (c : Char) : String :=
  match c with
  | '"' => "\\\""
  | '\\' => "\\\\"
  | '\n' => "\\n"
  | '\r' => "\\r"
  | '\t' => "\\t"
  | '\x08' => "\\b"
  | '\x0c' => "\\f"
  | _ =>
    if c.toNat < 0x20 || c.toNat == 0x2028 || c.toNat == 0x2029
        || (web && (c == '<' || c == '>' || c == '&')) then
      "\\u" ++ hexDigits 4 c.toNat
    else String.singleton c

def writeString (web : Bool) (s : String) : String :=
  "\"" ++ String.join (s.toList.map (escaped web)) ++ "\""

def writeBytes (web : Bool) (bs : Bytes) : String :=
  let piece : Rune → String
    | .char c => escaped web c
    | .bad _ => "\\ufffd"
  "\"" ++ String.join ((runes bs).map piece) ++ "\""

mutual

def compactWith (web : Bool) : Json → String
  | .null => "null"
  | .bool b => if b then "true" else "false"
  | .num t => t
  | .str s => writeString web s
  | .text bs => writeBytes web bs
  | .arr items => "[" ++ String.intercalate "," (compactItems web items) ++ "]"
  | .obj fields => "\x7b" ++ String.intercalate "," (compactFields web fields) ++ "\x7d"

def compactItems (web : Bool) : List Json → List String
  | [] => []
  | x :: xs => compactWith web x :: compactItems web xs

def compactFields (web : Bool) : List (String × Json) → List String
  | [] => []
  | (k, v) :: rest => (writeString web k ++ ":" ++ compactWith web v) :: compactFields web rest

end

def compact (j : Json) : String := compactWith false j

mutual

def indentedAt (margin : String) : Json → String
  | .arr items =>
    if items.isEmpty then "[]"
    else "[\n" ++ String.intercalate ",\n" (indentedItems (margin ++ "  ") items) ++ "\n" ++ margin ++ "]"
  | .obj fields =>
    if fields.isEmpty then "\x7b\x7d"
    else "\x7b\n" ++ String.intercalate ",\n" (indentedFields (margin ++ "  ") fields) ++ "\n" ++
      margin ++ "\x7d"
  | j => compactWith true j

def indentedItems (margin : String) : List Json → List String
  | [] => []
  | x :: xs => (margin ++ indentedAt margin x) :: indentedItems margin xs

def indentedFields (margin : String) : List (String × Json) → List String
  | [] => []
  | (k, v) :: rest =>
    (margin ++ writeString true k ++ ": " ++ indentedAt margin v) :: indentedFields margin rest

end

/-- The indented form, ended by a line break. -/
def indented (j : Json) : String := indentedAt "" j ++ "\n"

end Peano.Json
