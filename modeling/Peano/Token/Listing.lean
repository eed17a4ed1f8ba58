import Peano.Json.Writer
import Peano.Source.File
import Peano.Text.Blank
import Peano.Token.Lexeme
namespace Peano.Token
open Source (File)

def leadingNames (t : Token) : List String := t.leading.map fun l => l.spacing.name

def line (f : File) (number : Nat) (t : Token) : String :=
  let a := f.position t.extent.start.toUInt32
  let b := f.position t.extent.stop.toUInt32
  Text.padStart 3 (toString number) ++ ": " ++ Text.padEnd 15 t.kind.name ++
    (if t.text.isEmpty then "" else " " ++ Text.quoteBytes t.text) ++
    s!" at {a.line}:{a.col}-{b.line}:{b.col}" ++
    (if t.leading.isEmpty then ""
      else " (leading: " ++ String.intercalate ", " (leadingNames t) ++ ")") ++ "\n"

def listing (f : File) (tokens : List Token) : String :=
  String.join (tokens.mapIdx fun i t => line f (i + 1) t)

def json (f : File) (t : Token) : Json :=
  let a := f.position t.extent.start.toUInt32
  .present [("kind", some (.str t.kind.name)),
    ("text", if t.text.isEmpty then none else some (.text t.text)),
    ("span", some (.obj [("start", .nat t.extent.start), ("end", .nat t.extent.stop)])),
    ("line", some (.nat a.line.toNat)), ("col", some (.nat a.col.toNat)),
    ("leading", if t.leading.isEmpty then none else some (.strs (leadingNames t)))]

def listingJson (f : File) (tokens : List Token) : String := (Json.arr (tokens.map (json f))).indented

end Peano.Token
