import Peano.Text.Bytes
namespace Peano.Token

inductive Kind where
  | invalid | eof | ident | num
  | asWord | constWord | letWord | returnWord | continueWord | breakWord | forWord | switchWord
  | typeWord | extendsWord | functionWord
  | log
  | colon | fatArrow | semicolon | comma | dot | plusPlus | leftParen | rightParen | less | greater
  | leftBrace | rightBrace | equal | unequal | bang | plus | star | and | or | assign
  deriving DecidableEq, Repr, Inhabited

namespace Kind

def name : Kind → String
  | invalid => "Invalid"
  | eof => "EOF"
  | ident => "Ident"
  | num => "Num"
  | asWord => "as"
  | constWord => "const"
  | letWord => "let"
  | returnWord => "return"
  | continueWord => "continue"
  | breakWord => "break"
  | forWord => "for"
  | switchWord => "switch"
  | typeWord => "type"
  | extendsWord => "extends"
  | functionWord => "function"
  | log => "console.log"
  | colon => ":"
  | fatArrow => "=>"
  | semicolon => ";"
  | comma => ","
  | dot => "."
  | plusPlus => "++"
  | leftParen => "("
  | rightParen => ")"
  | less => "<"
  | greater => ">"
  | leftBrace => "\x7b"
  | rightBrace => "\x7d"
  | equal => "=="
  | unequal => "!="
  | bang => "!"
  | plus => "+"
  | star => "*"
  | and => "&&"
  | or => "||"
  | assign => "="

def isKeyword : Kind → Bool
  | asWord | constWord | letWord | returnWord | continueWord | breakWord | forWord | switchWord
  | typeWord | extendsWord | functionWord => true
  | _ => false

def isPunctuation : Kind → Bool
  | colon | fatArrow | semicolon | comma | dot | plusPlus | leftParen | rightParen | less | greater
  | leftBrace | rightBrace | equal | unequal | bang | plus | star | and | or | assign => true
  | _ => false

def ofWord (word : String) : Kind :=
  match word with
  | "as" => asWord
  | "const" => constWord
  | "let" => letWord
  | "return" => returnWord
  | "continue" => continueWord
  | "break" => breakWord
  | "for" => forWord
  | "switch" => switchWord
  | "type" => typeWord
  | "extends" => extendsWord
  | "function" => functionWord
  | "print" => log
  | _ => ident

end Kind

def illegalNames : List String :=
  ["constructor", "toString", "hasOwnProperty", "valueOf", "isPrototypeOf", "propertyIsEnumerable",
    "toLocaleString", "__proto__", "__defineGetter__", "__defineSetter__", "__lookupGetter__",
    "__lookupSetter__"]

end Peano.Token
