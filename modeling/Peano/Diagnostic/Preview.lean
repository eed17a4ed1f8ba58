import Peano.Diagnostic.Basic
import Peano.Source.File
namespace Peano.Diagnostic
open Source (File FileSet lineFeed)

structure Preview where
  before : List Bytes
  after : List Bytes

def splitLines : Bytes → List Bytes
  | [] => [[]]
  | b :: rest =>
    if b = lineFeed then [] :: splitLines rest
    else
      match splitLines rest with
      | line :: lines => (b :: line) :: lines
      | [] => [[b]]

def dropTrailingFeeds (text : Bytes) : Bytes :=
  (text.reverse.dropWhile (· == lineFeed)).reverse

def previewLines (text : Bytes) : List Bytes :=
  if text.isEmpty then [] else splitLines (dropTrailingFeeds text)

def filePreview? (f : File) (e : Edit) : Option Preview :=
  let start := e.span.start.toNat
  let stop := e.span.stop.toNat
  if stop < start ∨ f.size < stop then none
  else
    let before := ((f.content.take start).reverse.takeWhile (· != lineFeed)).reverse
    let tail := (f.content.drop stop).takeWhile (· != lineFeed)
    some ⟨previewLines (before ++ f.slice start stop ++ tail),
      previewLines (before ++ Bytes.ofString e.text ++ tail)⟩

def preview? (fs : FileSet) (e : Edit) : Option Preview :=
  (fs.get? e.span.file).bind (filePreview? · e)

end Peano.Diagnostic
