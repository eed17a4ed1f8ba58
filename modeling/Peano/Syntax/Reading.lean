import Peano.Diagnostic.Basic
import Peano.Syntax.Printer
import Peano.Syntax.Rules
namespace Peano.Syntax
open Source (Extent)

inductive SyntaxError where
  | lexical (extent : Extent) (fault : Token.Fault)
  | unexpectedEnd (extent : Extent)
  | unexpectedToken (token : Token) (expected : List String)
  | ambiguous (extent : Extent)
  | badTag (extent : Extent)
  | noMeaning (extent : Extent)
  deriving DecidableEq, Repr

def faultCode : Token.Fault → Diagnostic.Code
  | .unknownCharacter _ => .unknownCharacter
  | .illegalName _ => .illegalName
  | .unterminatedComment => .unterminatedComment

def faultDiagnostic (file : UInt32) (fault : Extent × Token.Fault) : Diagnostic :=
  .error (faultCode fault.2) (fault.1.inFile file) fault.2.message

def lexicalDiagnostics (file : UInt32) (content : Bytes) : List Diagnostic :=
  (Token.faults content).map (faultDiagnostic file)

namespace SyntaxError

def extent : SyntaxError → Extent
  | lexical e _ | unexpectedEnd e | ambiguous e | badTag e | noMeaning e => e
  | unexpectedToken t _ => t.extent

def message : SyntaxError → String
  | lexical _ fault => fault.message
  | unexpectedEnd _ => "Unexpected end of code. Forgot a ; at the end?"
  | unexpectedToken t _ => "Unexpected token " ++ Text.quoteBytes t.text
  | ambiguous _ => "Grammar ambiguity (parser bug). Try to add more parentheses."
  | badTag _ => "Invalid property for makeOr"
  | noMeaning _ => "The text has no meaning."

def code : SyntaxError → Diagnostic.Code
  | lexical _ fault => faultCode fault
  | unexpectedEnd _ => .unexpectedEnd
  | unexpectedToken .. => .unexpectedToken
  | ambiguous _ => .ambiguous
  | badTag _ => .invalidTag
  | noMeaning _ => .unknown

def expected : SyntaxError → List String
  | unexpectedToken _ labels => labels
  | _ => []

def diagnostic (file : UInt32) (e : SyntaxError) : Diagnostic :=
  let span := e.extent.inFile file
  { severity := .error
    code := e.code
    message := e.message
    primary := span
    notes :=
      if e.expected.isEmpty then []
      else [⟨span, "expected one of: " ++ String.intercalate " " e.expected⟩] }

end SyntaxError

/-- Why a derivation tree builds nothing. A tree of the grammar fails only by a bad tag. -/
inductive BuildError where
  | badTag (extent : Extent)
  | notOfGrammar

mutual

def build (n : Nonterminal) : Grammar.Tree Token → Except BuildError (Meaning n)
  | .leaf _ => .error .notOfGrammar
  | .node rule kids =>
    match productionTable[rule]? with
    | none => .error .notOfGrammar
    | some p =>
      if h : p.lhs = n then
        h ▸ buildKids p.rhs p.build none kids
      else .error .notOfGrammar

/-- Hands the parts of a production to its builder; `place` covers the parts so far. -/
def buildKids {α : Type} : (rhs : List Part) → Builder rhs (Place → Except BadTag α) → Place →
    List (Grammar.Tree Token) → Except BuildError α
  | [], f, place, [] =>
    match f place with
    | .ok v => .ok v
    | .error tag => .error (.badTag tag.extent)
  | .token _ :: rest, f, place, .leaf t :: kids =>
    buildKids rest (f t) (Extent.join place (some t.extent)) kids
  | .phrase n :: rest, f, place, kid :: kids =>
    match build n kid with
    | .ok v => buildKids rest (f v) (Extent.join place (Meaning.place n v)) kids
    | .error e => .error e
  | _, _, _, _ => .error .notOfGrammar

end

/-- The tokens before the mark of the end of the text, if there is one. -/
def words (tokens : List Token) : List Token :=
  match tokens.getLast? with
  | some ⟨.eof, _, _, _⟩ => tokens.dropLast
  | _ => tokens

def readTokens (start : Nonterminal) (tokens : List Token) : Except SyntaxError (Meaning start) :=
  let stop := (tokens.getLast?.map fun t => t.extent.stop).getD 0
  let atEnd : Extent := ⟨stop, stop⟩
  let words := words tokens
  let whole := (words.head?.map fun t => t.extent.cover atEnd).getD atEnd
  match grammar.parse start words with
  | .error .unfinished => .error (.unexpectedEnd atEnd)
  | .error .ambiguous => .error (.ambiguous whole)
  | .error (.unexpected index expected) =>
    match words[index]? with
    | some t => .error (.unexpectedToken t expected)
    | none => .error (.unexpectedEnd atEnd)
  | .error (.stray _) => .error (.noMeaning whole)
  | .ok tree =>
    match build start tree with
    | .ok v => .ok v
    | .error (.badTag e) => .error (.badTag e)
    | .error .notOfGrammar => .error (.noMeaning whole)

def readAs (start : Nonterminal) (content : Bytes) : Except SyntaxError (Meaning start) :=
  match Token.faults content with
  | (e, fault) :: _ => .error (.lexical e fault)
  | [] => readTokens start (Token.tokenize content)

def readProgram (content : Bytes) : Except SyntaxError Block := readAs .code content

def readTerm (content : Bytes) : Except SyntaxError Expr := readAs .expr content

def readType (content : Bytes) : Except SyntaxError TypeExpr := readAs .logic content

inductive Start where
  | program | term | type
  deriving DecidableEq, Repr

namespace Start

def name : Start → String
  | program => "code"
  | term => "expr"
  | type => "logic"

def ofName? : String → Option Start
  | "code" => some program
  | "expr" => some term
  | "logic" => some type
  | _ => none

/-- The complaint about a name that is no start. -/
def unknownMessage (name : String) : String :=
  "unknown start symbol " ++ Text.quote name ++ " (want code, expr or logic)"

end Start

def read (start : Start) (content : Bytes) : Except SyntaxError Phrase :=
  match start with
  | .program => (readProgram content).map .program
  | .term => (readTerm content).map .term
  | .type => (readType content).map .type

/-- Whether the text of a phrase reads back and gives the same text again. -/
def isStable (start : Start) (phrase : Phrase) : Bool :=
  match read start (Bytes.ofString phrase.source) with
  | .ok again => again.source == phrase.source
  | .error _ => false

end Peano.Syntax
