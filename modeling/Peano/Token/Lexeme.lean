import Peano.Source.Span
import Peano.Text.Quoted
import Peano.Token.Kind
namespace Peano.Token

variable (b : UInt8)

/-- What may stand between tokens. A block comment may miss its end. -/
inductive Spacing where
  | space
  | newline
  | lineComment
  | blockComment (closed : Bool)
  deriving DecidableEq, Repr

def Spacing.name : Spacing → String
  | .space => "space"
  | .newline => "newline"
  | .lineComment => "line-comment"
  | .blockComment _ => "block-comment"

inductive Lexeme.Class where
  | spacing (s : Spacing)
  | token (k : Kind)
  deriving DecidableEq, Repr

structure Lexeme where
  cls : Lexeme.Class
  text : Bytes
  deriving DecidableEq, Repr

def isWordStart : Bool :=
  b == 95 || (65 ≤ b && b ≤ 90) || (97 ≤ b && b ≤ 122)

def isDigit : Bool := 48 ≤ b && b ≤ 57

def isWordByte : Bool := isWordStart b || isDigit b

def isBlank : Bool := b == 32 || b == 9 || b == 13 || b == 12 || b == 11

def isSpaceOrNewline : Bool := isBlank b || b == 10

def countWhile (p : UInt8 → Bool) (bs : Bytes) : Nat := (bs.takeWhile p).length

/-- How long the rest of a block comment is, its end included, if it has one. -/
def commentLength? : Bytes → Option Nat
  | [] => none
  | 42 :: 47 :: _ => some 2
  | _ :: rest => (commentLength? rest).map (· + 1)

/-- How many bytes after the word `console` make it a logging token: blanks and line feeds, a dot,
blanks and line feeds, and the whole word `log`. -/
def logTail? (bs : Bytes) : Option Nat :=
  let before := countWhile isSpaceOrNewline bs
  match bs.drop before with
  | 46 :: rest =>
    let after := countWhile isSpaceOrNewline rest
    match rest.drop after with
    | 108 :: 111 :: 103 :: tail =>
      if tail.head?.any isWordByte then none else some (before + 1 + after + 3)
    | _ => none
  | _ => none

/-- A word: its class, and how many of the bytes after the first one belong to it. -/
def cutWord (rest : Bytes) : Lexeme.Class × Nat :=
  let more := countWhile isWordByte rest
  let word := Bytes.toText (b :: rest.take more)
  match if word == "console" then logTail? (rest.drop more) else none with
  | some tail => (.token .log, more + tail)
  | none => (.token (.ofWord word), more)

/-- A sign: the longest one that fits. Any other character is invalid, as a whole. -/
def cutSign (rest : Bytes) : Lexeme.Class × Nat :=
  match b, rest with
  | 61, 61 :: 61 :: _ => (.token .equal, 2)
  | 61, 61 :: _ => (.token .equal, 1)
  | 33, 61 :: 61 :: _ => (.token .unequal, 2)
  | 33, 61 :: _ => (.token .unequal, 1)
  | 61, 62 :: _ => (.token .fatArrow, 1)
  | 43, 43 :: _ => (.token .plusPlus, 1)
  | 38, 38 :: _ => (.token .and, 1)
  | 124, 124 :: _ => (.token .or, 1)
  | 58, _ => (.token .colon, 0)
  | 59, _ => (.token .semicolon, 0)
  | 44, _ => (.token .comma, 0)
  | 46, _ => (.token .dot, 0)
  | 40, _ => (.token .leftParen, 0)
  | 41, _ => (.token .rightParen, 0)
  | 60, _ => (.token .less, 0)
  | 62, _ => (.token .greater, 0)
  | 123, _ => (.token .leftBrace, 0)
  | 125, _ => (.token .rightBrace, 0)
  | 33, _ => (.token .bang, 0)
  | 43, _ => (.token .plus, 0)
  | 42, _ => (.token .star, 0)
  | 61, _ => (.token .assign, 0)
  | _, _ =>
    match Text.leading? b rest with
    | some (_, more) => (.token .invalid, more)
    | none => (.token .invalid, 0)

/-- A comment, if the bytes after a slash start one. -/
def cutComment? : Bytes → Option (Lexeme.Class × Nat)
  | 47 :: rest => some (.spacing .lineComment, 1 + countWhile (· != 10) rest)
  | 42 :: rest =>
    match commentLength? rest with
    | some n => some (.spacing (.blockComment true), 1 + n)
    | none => some (.spacing (.blockComment false), 1 + rest.length)
  | _ => none

/-- The class of the lexeme that starts with `b`, and how many bytes of `rest` belong to it. -/
def cut (rest : Bytes) : Lexeme.Class × Nat :=
  if isBlank b then (.spacing .space, countWhile isBlank rest)
  else if b == 10 then (.spacing .newline, countWhile (· == 10) rest)
  else if isWordStart b then cutWord b rest
  else if isDigit b then (.token .num, countWhile isDigit rest)
  else match if b == 47 then cutComment? rest else none with
    | some comment => comment
    | none => cutSign b rest

def lexemes : Bytes → List Lexeme
  | [] => []
  | b :: rest =>
    let piece := cut b rest
    ⟨piece.1, b :: rest.take piece.2⟩ :: lexemes (rest.drop piece.2)
termination_by bs => bs.length
decreasing_by simp only [List.length_drop, List.length_cons]; omega

inductive Fault where
  | unknownCharacter (text : Bytes)
  | illegalName (name : String)
  | unterminatedComment
  deriving DecidableEq, Repr

def Fault.message : Fault → String
  | .unknownCharacter text => "invalid syntax: unexpected character " ++ Text.quoteBytes text
  | .illegalName name =>
    "Identifier " ++ Text.quote name ++ " is illegal because of reasons. Use a different name."
  | .unterminatedComment => "unterminated block comment"

def Lexeme.fault? (l : Lexeme) : Option Fault :=
  match l.cls with
  | .token .invalid => some (.unknownCharacter l.text)
  | .token .ident =>
    let name := Bytes.toText l.text
    if illegalNames.contains name then some (.illegalName name) else none
  | .spacing (.blockComment false) => some .unterminatedComment
  | _ => none

/-- The faults of a run of lexemes that starts at `offset`, with the place of each. -/
def faultsFrom (offset : Nat) : List Lexeme → List (Source.Extent × Fault)
  | [] => []
  | l :: rest =>
    let stop := offset + l.text.length
    match l.fault? with
    | some f => (⟨offset, stop⟩, f) :: faultsFrom stop rest
    | none => faultsFrom stop rest

end Peano.Token

namespace Peano

namespace Token

/-- What stands before a token, piece by piece. -/
structure Trivia where
  spacing : Spacing
  extent : Source.Extent
  text : Bytes
  deriving DecidableEq, Repr

end Token

structure Token where
  kind : Token.Kind
  extent : Source.Extent
  text : Bytes
  leading : List Token.Trivia
  deriving DecidableEq, Repr, Inhabited

namespace Token

def name (t : Token) : String := Bytes.toText t.text

def isWord (word : String) (t : Token) : Bool := t.kind = .ident && t.name == word

/-- Gives every token the trivia before it; `held` is the trivia since the last token. The end of
the text is a token too. -/
def ofLexemes (offset : Nat) (held : List Trivia) : List Lexeme → List Token
  | [] => [⟨.eof, ⟨offset, offset⟩, [], held⟩]
  | l :: rest =>
    let stop := offset + l.text.length
    match l.cls with
    | .spacing s => ofLexemes stop (held ++ [⟨s, ⟨offset, stop⟩, l.text⟩]) rest
    | .token k => ⟨k, ⟨offset, stop⟩, l.text, held⟩ :: ofLexemes stop [] rest

def tokenize (content : Bytes) : List Token := ofLexemes 0 [] (lexemes content)

/-- The lexical faults of a text, in the order of their places. -/
def faults (content : Bytes) : List (Source.Extent × Fault) := faultsFrom 0 (lexemes content)

end Token
end Peano
