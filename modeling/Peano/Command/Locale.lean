import Peano.Text.Fold
import Peano.Text.Width
namespace Peano.Command

structure Environment where
  /-- Later settings of a variable win. -/
  settings : List (String × String) := []
  outIsTerminal : Bool := false
  errIsTerminal : Bool := false

namespace Environment

def get (e : Environment) (name : String) : String := (e.settings.reverse.lookup name).getD ""

/-- Adds variables written as `NAME=value`. -/
def adding (e : Environment) (texts : List String) : Environment :=
  let pair (s : String) : String × String :=
    let name := s.toList.takeWhile (· != '=')
    (String.ofList name, String.ofList (s.toList.drop (name.length + 1)))
  { e with settings := e.settings ++ texts.map pair }

/-- The variables that a command looks at. -/
def known : List String :=
  ["HOME", "XDG_CACHE_HOME", "NO_COLOR", "RUNEWIDTH_EASTASIAN", "LC_ALL", "LC_CTYPE", "LANG"]

end Environment

def ideographicSets : List String :=
  ["utf-8", "utf8", "jis", "eucjp", "euckr", "euccn", "sjis", "cp932", "cp51932", "cp936", "cp949", "cp950",
    "big5", "gbk", "gb2312"]

def dropTerritory : List Char → List Char
  | '_' :: a :: b :: rest => if a.isUpper && b.isUpper then rest else '_' :: a :: b :: rest
  | cs => cs

/-- The character set that stands in a locale such as `ja_JP.UTF-8`. -/
def charset? (locale : List Char) : Option (List Char) :=
  let language := locale.takeWhile Char.isLower
  if language.length = 2 ∨ language.length = 3 then
    match dropTerritory (locale.drop language.length) with
    | '.' :: c :: rest => some (c :: rest)
    | _ => none
  else none

/-- Whether a locale is one where ideographs are read. A character set of its own for them says so,
and one for all scripts leaves it to the language. -/
def isEastAsian (locale : String) : Bool :=
  let charset := Text.small (String.ofList ((charset? locale.toList).getD locale.toList))
  let name := String.ofList (charset.toList.takeWhile (· != '@'))
  !charset.endsWith "@cjk_narrow" && ideographicSets.contains name &&
    (!name.startsWith "u" || ["ja", "ko", "zh"].any fun language => locale.startsWith language)

def isPlain (locale : String) : Bool :=
  locale == "POSIX" || locale == "C" || locale.startsWith "C." || locale.startsWith "C-"

namespace Environment

/-- The variables that set the locale, the stronger one first. -/
def locale (e : Environment) : String :=
  ((["LC_ALL", "LC_CTYPE", "LANG"].map e.get).find? (· != "")).getD ""

/-- How characters of no fixed width are shown: as a variable for just that says, or as the locale does. -/
def ambiguous (e : Environment) : Text.Ambiguous :=
  let wide := match e.get "RUNEWIDTH_EASTASIAN" with
    | "" => !isPlain e.locale && isEastAsian e.locale
    | setting => setting == "1"
  if wide then .wide else .narrow

end Environment

end Peano.Command
